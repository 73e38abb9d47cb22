import RemoteEval.Message.Form
import RemoteEval.Proofs.Sexp.Reading

/-! Messages and their s-expressions. A reader of arguments has two properties: what it takes is
what the writer of its result would have written (`Takes`), and what the writer writes gives the
result back, whatever follows (`Gives`). Both pass through the composition of readers, so they
hold of each kind of message from those of its arguments. An s-expression without empty lists
stands for a message exactly when it is that message's own form and the numbers in the message are
in range; one with an empty list may stand for a message too, with that list for no restarts. -/
namespace RemoteEval

namespace Message

@[simp] def workers : Message → List WorkerRef
  | .request _ _ (.worker w) _ => [w]
  | .interrupt w | .readStringReply w _ _ | .workerAssigned _ w | .returned w _ _
  | .debugEnter w _ _ _ _ | .debugActivate w _ | .debugReturn w _ | .debugConditionText w _
  | .readStringRequest w _ | .readAborted w _ => [w]
  | _ => []

@[simp] def words : Message → List UInt64
  | .request _ _ _ id | .workerAssigned id _ | .returned _ _ id => [id]
  | .readStringReply _ tag _ | .readStringRequest _ tag | .readAborted _ tag => [tag]
  | .debugEnter _ _ _ _ backtrace => backtrace.map FrameView.index
  | _ => []

@[simp] def levels : Message → List Level
  | .debugEnter _ level _ _ _ | .debugActivate _ level | .debugReturn _ level => [level]
  | _ => []

def value? : Message → Option Sexp
  | .returned _ (.ok value) _ => some value
  | _ => none

def wordLimit : Nat := 9223372036854775808

def numbersFit (m : Message) : Bool :=
  m.workers.all (1 ≤ ·) && m.words.all (·.toNat < wordLimit) &&
    m.levels.all fun level => 1 ≤ level.toNat && level.toNat < wordLimit

theorem numbersFitIff {m : Message} : m.numbersFit = true ↔ (∀ w ∈ m.workers, 1 ≤ w) ∧
    (∀ n ∈ m.words, n.toNat < wordLimit) ∧
    ∀ level ∈ m.levels, 1 ≤ level.toNat ∧ level.toNat < wordLimit := by
  simp [numbersFit, and_assoc]

end Message

namespace Taking
open Message (word workerSexp targetSexp outcomeSexp restartSexp frameSexp wordLimit)

variable {α β : Type}

def Takes (body : Taking α) (taken : List Sexp → α → Prop) : Prop :=
  ∀ args a left, (∀ v ∈ args.rest, v.isFilled = true) → body args = .ok (a, left) →
    ∃ us, args.rest = us ++ left.rest ∧ taken us a

def Gives (body : Taking α) (us : List Sexp) (a : α) : Prop :=
  ∀ kind rest count, ∃ more, body ⟨kind, us ++ rest, count⟩ = .ok (a, ⟨kind, rest, more⟩)

theorem takesMap {body : Taking α} {f : α → β} {first : List Sexp → α → Prop}
    {whole : List Sexp → β → Prop} (makes : ∀ us a, first us a → whole us (f a))
    (takes : Takes body first) : Takes (f <$> body) whole := by
  intro args b left filled ok
  simp only [Functor.map, StateT.map, bind, Except.bind] at ok
  cases read : body args with
  | error e => simp [read] at ok
  | ok result =>
    simp only [read] at ok
    cases ok
    obtain ⟨us, split, taken⟩ := takes _ _ _ filled read
    exact ⟨us, split, makes us _ taken⟩

theorem takesSeq {make : Taking (α → β)} {body : Taking α} {last : List Sexp → α → Prop}
    {whole : List Sexp → β → Prop}
    (first : Takes make fun us f => ∀ ws a, last ws a → whole (us ++ ws) (f a))
    (second : Takes body last) : Takes (make <*> body) whole := by
  intro args b left filled ok
  simp only [Seq.seq, bind, StateT.bind, Except.bind, StateT.map] at ok
  cases read : make args with
  | error e => simp [read] at ok
  | ok result =>
    simp only [read] at ok
    cases more : body result.2 with
    | error e => simp [more] at ok
    | ok last =>
      simp only [more] at ok
      cases ok
      obtain ⟨us, split, makes⟩ := first _ _ _ filled read
      obtain ⟨ws, rest, taken⟩ := second _ _ _
        (fun v mem => filled v (split ▸ List.mem_append_right us mem)) more
      exact ⟨us ++ ws, by rw [split, rest, List.append_assoc], makes ws _ taken⟩

theorem givesMap {body : Taking α} {us : List Sexp} {a : α} (f : α → β) (gives : Gives body us a) :
    Gives (f <$> body) us (f a) := by
  intro kind rest count
  obtain ⟨more, read⟩ := gives kind rest count
  exact ⟨more, by simp only [Functor.map, StateT.map, bind, Except.bind, read]; rfl⟩

theorem givesSeq {make : Taking (α → β)} {body : Taking α} {us ws : List Sexp} {f : α → β} {a : α}
    (first : Gives make us f) (second : Gives body ws a) :
    Gives (make <*> body) (us ++ ws) (f a) := by
  intro kind rest count
  obtain ⟨between, made⟩ := first kind (ws ++ rest) count
  obtain ⟨more, read⟩ := second kind rest between
  refine ⟨more, ?_⟩
  rw [List.append_assoc]
  simp only [Seq.seq, bind, StateT.bind, Except.bind, StateT.map, made, read]
  rfl

/- A reader of one argument and the writer of it, for the results in `range`. -/
structure Codes (body : Taking α) (write : α → Sexp) (range : α → Prop) : Prop where
  takes : Takes body fun us a => us = [write a] ∧ range a
  gives : ∀ a, range a → Gives body [write a] a

theorem codesNext {wanted : Wanted} {f : Sexp → Option α} {write : α → Sexp} {range : α → Prop}
    (reads : ∀ v a, v.isFilled = true → f v = some a → v = write a ∧ range a)
    (writes : ∀ a, range a → f (write a) = some a) : Codes (next wanted f) write range where
  takes := by
    intro args a left filled ok
    unfold next at ok
    split at ok
    · contradiction
    next v later rest =>
      cases read : f v with
      | none => simp [read] at ok
      | some got =>
        simp only [read] at ok
        cases ok
        rw [rest] at filled ⊢
        obtain ⟨same, fits⟩ := reads v a (filled v List.mem_cons_self) read
        exact ⟨[v], rfl, by rw [same], fits⟩
  gives a fits kind rest count := by
    refine ⟨count + 1, ?_⟩
    simp [next, writes a fits]

theorem stringCodes : Codes string .str fun _ => True :=
  codesNext (fun v a _ read => by cases v <;> simp_all [Sexp.str?]) (fun _ _ => rfl)

theorem codesInt {wanted : Wanted} {admits : Int64 → Prop} [DecidablePred admits] {make : Int64 → α}
    (write : α → Int64) {range : α → Prop}
    (reads : ∀ i, admits i → write (make i) = i ∧ range (make i))
    (writes : ∀ a, range a → admits (write a) ∧ make (write a) = a) :
    Codes (next wanted fun v => v.int?.bind fun i => if admits i then some (make i) else none)
      (fun a => .int (write a)) range := by
  refine codesNext (fun v a _ read => ?_) (fun a fits => ?_)
  · obtain ⟨i, isInt, made⟩ := Option.bind_eq_some_iff.mp read
    obtain ⟨admitted, made⟩ := Option.ite_none_right_eq_some.mp made
    cases made
    obtain ⟨back, fits⟩ := reads i admitted
    cases v <;> simp_all [Sexp.int?]
  · obtain ⟨admitted, back⟩ := writes a fits
    simp [Sexp.int?, admitted, back]

theorem wordInt {n : UInt64} (small : n.toNat < wordLimit) : n.toInt64.toInt = n.toNat := by
  have half : 2 * n.toBitVec.toNat < 2 ^ 64 := by
    simp only [wordLimit, ← UInt64.toNat_toBitVec] at small
    omega
  exact BitVec.toInt_eq_toNat_of_lt half

theorem intWord {i : Int64} (sign : 0 ≤ i) :
    (i.toUInt64.toNat : Int) = i.toInt ∧ i.toUInt64.toNat < wordLimit := by
  have same : i.toUInt64.toNat = i.toInt.toNat := Int64.toNat_toUInt64_of_le sign
  have low : 0 ≤ i.toInt := Int64.le_iff_toInt_le.mp sign
  have high := i.toInt_lt
  simp only [wordLimit]
  omega

theorem unsignedCodes : Codes unsigned word fun n => n.toNat < wordLimit := by
  refine codesInt UInt64.toInt64 (fun i sign => ⟨i.toInt64_toUInt64, (intWord sign).2⟩)
    (fun n small => ?_)
  refine ⟨Int64.le_iff_toInt_le.mpr ?_, n.toUInt64_toInt64⟩
  simp [wordInt small]

theorem levelCodes : Codes level word fun n => 1 ≤ n.toNat ∧ n.toNat < wordLimit := by
  refine codesInt UInt64.toInt64 (fun i sign => ⟨i.toInt64_toUInt64, ?_⟩) (fun n fits => ?_)
  · have positive : 0 < i.toInt := Int64.lt_iff_toInt_lt.mp sign
    obtain ⟨same, small⟩ := intWord (Int64.le_of_lt sign)
    exact ⟨by omega, small⟩
  · refine ⟨Int64.lt_iff_toInt_lt.mpr ?_, n.toUInt64_toInt64⟩
    rw [wordInt fits.2]
    simp
    omega

theorem workerCodes : Codes worker workerSexp fun ref => 1 ≤ ref := by
  refine codesInt (fun ref : WorkerRef => ref.toUInt64.toInt64) (fun i ⟨sign, small⟩ => ?_)
    (fun ref fits => ?_)
  · have positive : 0 < i.toInt := Int64.lt_iff_toInt_lt.mp sign
    have bounded : i.toInt ≤ 4294967295 := Int64.le_iff_toInt_le.mp small
    obtain ⟨same, _⟩ := intWord (Int64.le_of_lt sign)
    have back : i.toUInt64.toUInt32.toUInt64 = i.toUInt64 := by
      apply UInt64.toNat_inj.mp
      simp
      omega
    refine ⟨by simp only [back, Int64.toInt64_toUInt64], ?_⟩
    rw [UInt32.le_iff_toNat_le]
    simp
    omega
  · have low := UInt32.le_iff_toNat_le.mp fits
    have high := ref.toNat_lt
    have value := wordInt (n := ref.toUInt64) (by simp [wordLimit]; omega)
    simp only [UInt32.toNat_toUInt64] at value
    refine ⟨⟨Int64.lt_iff_toInt_lt.mpr ?_, Int64.le_iff_toInt_le.mpr ?_⟩, ?_⟩
    · rw [value]; simp at low ⊢; omega
    · rw [value]; simp; omega
    · simp

def targetRange : Target → Prop
  | .new => True
  | .worker ref => 1 ≤ ref

theorem targetCodes : Codes target targetSexp targetRange where
  takes := by
    intro args a left filled ok
    unfold target at ok
    split at ok
    next rest same =>
      cases ok
      exact ⟨[.keyword "new"], same, rfl, trivial⟩
    next =>
      have known :
          Takes (Target.worker <$> worker) fun us t => us = [targetSexp t] ∧ targetRange t :=
        takesMap (fun us ref taken => taken) workerCodes.takes
      exact known args a left filled ok
  gives t fits kind rest count := by
    cases t with
    | new => exact ⟨count + 1, rfl⟩
    | worker ref => exact givesMap Target.worker (workerCodes.gives ref fits) kind rest count

theorem outcomeCodes : Codes outcome outcomeSexp fun _ => True := by
  refine codesNext (fun v a _ read => ?_) (fun a _ => ?_)
  · split at read <;> cases read <;> exact ⟨rfl, trivial⟩
  · cases a with
    | ok value => rfl
    | abort reason => cases reason <;> rfl

theorem portCodes : Codes port (fun n => word n.toUInt64) fun _ => True where
  takes := by
    intro args a left filled ok
    simp only [port, bind, StateT.bind, Except.bind] at ok
    cases read : unsigned args with
    | error e => simp [read] at ok
    | ok result =>
      simp only [read] at ok
      split at ok
      next small =>
        cases ok
        obtain ⟨us, split, same, _⟩ := unsignedCodes.takes _ _ _ filled read
        refine ⟨us, split, ?_, trivial⟩
        have back : result.1.toUInt16.toUInt64 = result.1 := by
          have := UInt64.le_iff_toNat_le.mp small
          apply UInt64.toNat_inj.mp
          simp at this ⊢
          omega
        rw [same, back]
      · contradiction
  gives n _ kind rest count := by
    have high := n.toNat_lt
    obtain ⟨more, read⟩ :=
      unsignedCodes.gives n.toUInt64 (by simp [wordLimit]; omega) kind rest count
    refine ⟨more, ?_⟩
    have small : n.toUInt64 ≤ 65535 := by
      rw [UInt64.le_iff_toNat_le]
      simp
      omega
    have back : n.toUInt64.toUInt16 = n := by simp
    simp only [port, bind, StateT.bind, Except.bind, read, small, if_true, back]
    rfl

structure Itemises (item : Sexp → Taking α) (write : α → Sexp) (range : α → Prop) : Prop where
  reads : ∀ v args a left, v.isFilled = true → item v args = .ok (a, left) →
    left = args ∧ v = write a ∧ range a
  writes : ∀ a args, range a → item (write a) args = .ok (a, args)

theorem itemsFilled {v : Sexp} {items : List Sexp} (filled : v.isFilled = true)
    (read : v.items? = some items) : v = Sexp.ofItems items := by
  cases v with
  | nil => cases read; rfl
  | list is =>
    cases read
    cases items with
    | nil => simp [Sexp.isFilled] at filled
    | cons => rfl
  | int | str | symbol | keyword => simp [Sexp.items?] at read

theorem listCodes : Codes list Sexp.ofItems fun _ => True :=
  codesNext (fun _ _ filled read => ⟨itemsFilled filled read, trivial⟩)
    (fun items _ => Sexp.itemsOfItems items)

theorem mapReads {item : Sexp → Taking α} {write : α → Sexp} {range : α → Prop}
    (itemises : Itemises item write range) : ∀ (items : List Sexp) (args : Arguments) as left,
    (∀ v ∈ items, v.isFilled = true) → (items.mapM item) args = .ok (as, left) →
      left = args ∧ items = as.map write ∧ ∀ a ∈ as, range a
  | [], args, as, left, _, ok => by
    cases ok
    exact ⟨rfl, rfl, by simp⟩
  | v :: items, args, as, left, filled, ok => by
    rw [List.mapM_cons] at ok
    simp only [bind, StateT.bind, Except.bind] at ok
    cases read : item v args with
    | error e => simp [read] at ok
    | ok result =>
      simp only [read] at ok
      cases later : items.mapM item result.2 with
      | error e => simp [later] at ok
      | ok others =>
        simp only [later] at ok
        cases ok
        obtain ⟨here, same, fits⟩ := itemises.reads v args _ _ (filled v List.mem_cons_self) read
        obtain ⟨there, rest, fit⟩ := mapReads itemises items _ _ _
          (fun w mem => filled w (List.mem_cons_of_mem _ mem)) later
        refine ⟨there.trans here, ?_, ?_⟩
        · rw [List.map_cons, ← same, ← rest]
        · intro a mem
          rcases List.mem_cons.mp mem with rfl | mem
          · exact fits
          · exact fit a mem

theorem mapWrites {item : Sexp → Taking α} {write : α → Sexp} {range : α → Prop}
    (itemises : Itemises item write range) (args : Arguments) : ∀ as : List α,
    (∀ a ∈ as, range a) → ((as.map write).mapM item) args = .ok (as, args)
  | [], _ => rfl
  | a :: as, fit => by
    have first := itemises.writes a args (fit a List.mem_cons_self)
    have rest := mapWrites itemises args as fun b mem => fit b (List.mem_cons_of_mem _ mem)
    rw [List.map_cons, List.mapM_cons]
    simp only [bind, StateT.bind, Except.bind, first, rest]
    rfl

theorem codesItems {item : Sexp → Taking α} {write : α → Sexp} {range : α → Prop}
    (itemises : Itemises item write range) :
    Codes (do (← list).mapM item) (fun as => Sexp.ofItems (as.map write))
      fun as => ∀ a ∈ as, range a where
  takes := by
    intro args as left filled ok
    simp only [bind, StateT.bind, Except.bind] at ok
    cases read : list args with
    | error e => simp [read] at ok
    | ok result =>
      simp only [read] at ok
      obtain ⟨us, split, taken, _⟩ := listCodes.takes _ _ _ filled read
      have whole : (Sexp.ofItems result.1).isFilled = true :=
        filled _ (by rw [split, taken]; exact List.mem_cons_self)
      obtain ⟨here, same, fit⟩ := mapReads itemises _ _ _ _ (Sexp.ofItemsFilled.mp whole) ok
      exact ⟨us, by rw [split, here], by rw [taken, same], fit⟩
  gives as fit kind rest count := by
    obtain ⟨more, read⟩ := listCodes.gives (as.map write) trivial kind rest count
    refine ⟨more, ?_⟩
    simp only [bind, StateT.bind, Except.bind, read, mapWrites itemises _ as fit]

theorem runTakes {body : Taking α} {taken : List Sexp → α → Prop} (takes : Takes body taken)
    {kind : String} {args : List Sexp} {a : α} (filled : ∀ v ∈ args, v.isFilled = true)
    (ok : run kind args body = .ok a) : taken args a := by
  simp only [run, StateT.run', bind, StateT.bind, Except.bind, Functor.map, Except.map] at ok
  cases read : body ⟨kind, args, 0⟩ with
  | error e => simp [read] at ok
  | ok result =>
    cases empty : result.2.rest.isEmpty with
    | false => simp [read, done, empty] at ok
    | true =>
      simp only [read, done, empty, if_true] at ok
      cases ok
      obtain ⟨us, split, known⟩ := takes _ _ _ filled read
      have all : args = us := by simpa [List.isEmpty_iff.mp empty] using split
      exact all ▸ known

theorem runGives {body : Taking α} {us : List Sexp} {a : α} (gives : Gives body us a)
    (kind : String) : run kind us body = .ok a := by
  obtain ⟨more, read⟩ := gives kind [] 0
  rw [List.append_nil] at read
  simp only [run, StateT.run', bind, StateT.bind, Except.bind, Functor.map, Except.map, read, done]
  rfl

theorem entryItemises {kind : String} {body : Taking α} {parts : α → List Sexp} {range : α → Prop}
    (takes : Takes body fun us a => us = parts a ∧ range a)
    (gives : ∀ a, range a → Gives body (parts a) a) (nonempty : ∀ a, parts a ≠ []) :
    Itemises (fun v => entry kind body v) (fun a => .list (parts a)) range where
  reads v args a left filled ok := by
    simp only [liftM, monadLift, MonadLift.monadLift, StateT.lift, bind, Except.bind, entry] at ok
    cases known : v.items? with
    | none => simp [known] at ok
    | some items =>
      cases read : run kind items body with
      | error e => simp [known, read] at ok
      | ok got =>
        simp only [known, read] at ok
        cases ok
        have same := itemsFilled filled known
        obtain ⟨rfl, fits⟩ := runTakes takes (Sexp.ofItemsFilled.mp (same ▸ filled)) read
        exact ⟨rfl, same.trans (Sexp.ofItemsNonempty (nonempty a)), fits⟩
  writes a args fits := by
    simp only [liftM, monadLift, MonadLift.monadLift, StateT.lift, bind, Except.bind, entry,
      Sexp.items?, runGives (gives a fits) kind]
    rfl

theorem restartsCodes :
    Codes restarts (fun rs => Sexp.ofItems (rs.map restartSexp)) fun rs => ∀ r ∈ rs, True :=
  codesItems (entryItemises
    (takesSeq (takesMap (fun us name one ws text two => ⟨by rw [one.1, two.1]; rfl, trivial⟩)
      stringCodes.takes) stringCodes.takes)
    (fun r _ => givesSeq (givesMap RestartView.mk (stringCodes.gives r.name trivial))
      (stringCodes.gives r.description trivial))
    (fun r => by simp))

theorem framesCodes :
    Codes frames (fun fs => Sexp.ofItems (fs.map frameSexp))
      fun fs => ∀ f ∈ fs, f.index.toNat < wordLimit :=
  codesItems (entryItemises
    (takesSeq (takesMap (fun us index one ws text two => ⟨by rw [one.1, two.1]; rfl, one.2⟩)
      unsignedCodes.takes) stringCodes.takes)
    (fun f fits => givesSeq (givesMap FrameView.mk (unsignedCodes.gives f.index fits))
      (stringCodes.gives f.description trivial))
    (fun f => by simp))

theorem featuresCodes :
    Codes features (fun fs => Sexp.ofItems (fs.map .str)) fun fs => ∀ f ∈ fs, True := by
  refine codesItems ⟨fun v args a left _ ok => ?_, fun a args _ => rfl⟩
  cases v with
  | str s => cases ok; exact ⟨rfl, rfl, trivial⟩
  | nil | int | symbol | keyword | list => contradiction

def Spells (head : String) (args : List Sexp) (m : Message) : Prop :=
  m.head = head ∧ args = m.arguments ∧ m.numbersFit = true

theorem spells {args : List Sexp} {m : Message} (same : args = m.arguments)
    (fit : m.numbersFit = true) : Spells m.head args m := ⟨rfl, same, fit⟩

theorem bodyTakes {head : String} {body : Taking Message} (known : Taking.body head = some body) :
    Takes body (Spells head) := by
  have one : ∀ {α : Type} {first : Taking α} {write : α → Sexp} {range : α → Prop}
      {f : α → Message}, Codes first write range →
      (∀ a, range a → Spells head [write a] (f a)) → Takes (f <$> first) (Spells head) :=
    fun codes made => takesMap (fun us a ⟨same, fits⟩ => same ▸ made a fits) codes.takes
  have two : ∀ {α β : Type} {first : Taking α} {second : Taking β} {write : α → Sexp}
      {write' : β → Sexp} {range : α → Prop} {range' : β → Prop} {f : α → β → Message},
      Codes first write range → Codes second write' range' →
      (∀ a b, range a → range' b → Spells head [write a, write' b] (f a b)) →
      Takes (f <$> first <*> second) (Spells head) :=
    fun codes codes' made => takesSeq (takesMap (fun us a ⟨same, fits⟩ ws b ⟨same', fits'⟩ =>
      same ▸ same' ▸ made a b fits fits') codes.takes) codes'.takes
  unfold Taking.body at known
  split at known <;> cases known
  · refine takesSeq (takesSeq (takesSeq (takesMap ?_ stringCodes.takes) stringCodes.takes)
      targetCodes.takes) unsignedCodes.takes
    rintro _ form ⟨rfl, -⟩ _ package ⟨rfl, -⟩ _ t ⟨rfl, ref⟩ _ id ⟨rfl, small⟩
    cases t <;> exact spells rfl (by simp_all [Message.numbersFit, targetRange])
  · exact one workerCodes fun w ref => spells rfl (by simp_all [Message.numbersFit])
  · refine takesSeq (takesSeq (takesMap ?_ workerCodes.takes) unsignedCodes.takes) stringCodes.takes
    rintro _ w ⟨rfl, ref⟩ _ tag ⟨rfl, small⟩ _ text ⟨rfl, -⟩
    exact spells rfl (by simp_all [Message.numbersFit])
  · exact two unsignedCodes workerCodes fun id w small ref =>
      spells rfl (by simp_all [Message.numbersFit])
  · refine
      takesSeq (takesSeq (takesMap ?_ workerCodes.takes) outcomeCodes.takes) unsignedCodes.takes
    rintro _ w ⟨rfl, ref⟩ _ value ⟨rfl, -⟩ _ id ⟨rfl, small⟩
    exact spells rfl (by simp_all [Message.numbersFit])
  · refine takesSeq (takesSeq (takesSeq (takesSeq (takesMap ?_ workerCodes.takes) levelCodes.takes)
      stringCodes.takes) restartsCodes.takes) framesCodes.takes
    rintro _ w ⟨rfl, ref⟩ _ level ⟨rfl, known⟩ _ text ⟨rfl, -⟩ _ rs ⟨rfl, -⟩ _ fs ⟨rfl, small⟩
    exact spells rfl (by simp_all [Message.numbersFit])
  · exact two workerCodes levelCodes fun w level ref known =>
      spells rfl (by simp_all [Message.numbersFit])
  · exact two workerCodes levelCodes fun w level ref known =>
      spells rfl (by simp_all [Message.numbersFit])
  · exact two workerCodes stringCodes fun w text ref _ =>
      spells rfl (by simp_all [Message.numbersFit])
  · exact two workerCodes unsignedCodes fun w tag ref small =>
      spells rfl (by simp_all [Message.numbersFit])
  · exact two workerCodes unsignedCodes fun w tag ref small =>
      spells rfl (by simp_all [Message.numbersFit])
  · exact one stringCodes fun text _ => spells rfl rfl
  · exact one featuresCodes fun fs _ => spells rfl rfl
  · exact one stringCodes fun text _ => spells rfl rfl
  · exact one portCodes fun n _ => spells rfl rfl

theorem bodyGives {m : Message} (fit : m.numbersFit = true) :
    ∃ body, Taking.body m.head = some body ∧ Gives body m.arguments m := by
  obtain ⟨refs, small, known⟩ := Message.numbersFitIff.mp fit
  cases m with
  | request form package t id =>
    have ref : targetRange t := by cases t <;> simp_all [targetRange]
    exact ⟨_, rfl, givesSeq (givesSeq (givesSeq (givesMap _ (stringCodes.gives form trivial))
      (stringCodes.gives package trivial)) (targetCodes.gives t ref))
      (unsignedCodes.gives id (by simp_all))⟩
  | interrupt w => exact ⟨_, rfl, givesMap _ (workerCodes.gives w (by simp_all))⟩
  | readStringReply w tag text =>
    exact ⟨_, rfl, givesSeq (givesSeq (givesMap _ (workerCodes.gives w (by simp_all)))
      (unsignedCodes.gives tag (by simp_all))) (stringCodes.gives text trivial)⟩
  | workerAssigned id w =>
    exact ⟨_, rfl, givesSeq (givesMap _ (unsignedCodes.gives id (by simp_all)))
      (workerCodes.gives w (by simp_all))⟩
  | returned w value id =>
    exact ⟨_, rfl, givesSeq (givesSeq (givesMap _ (workerCodes.gives w (by simp_all)))
      (outcomeCodes.gives value trivial)) (unsignedCodes.gives id (by simp_all))⟩
  | debugEnter w level text rs fs =>
    exact ⟨_, rfl, givesSeq (givesSeq (givesSeq (givesSeq
      (givesMap _ (workerCodes.gives w (by simp_all))) (levelCodes.gives level (by simp_all)))
      (stringCodes.gives text trivial)) (restartsCodes.gives rs (by simp)))
      (framesCodes.gives fs (by simp_all))⟩
  | debugActivate w level | debugReturn w level =>
    exact ⟨_, rfl, givesSeq (givesMap _ (workerCodes.gives w (by simp_all)))
      (levelCodes.gives level (by simp_all))⟩
  | debugConditionText w text =>
    exact ⟨_, rfl, givesSeq (givesMap _ (workerCodes.gives w (by simp_all)))
      (stringCodes.gives text trivial)⟩
  | readStringRequest w tag | readAborted w tag =>
    exact ⟨_, rfl, givesSeq (givesMap _ (workerCodes.gives w (by simp_all)))
      (unsignedCodes.gives tag (by simp_all))⟩
  | output text | backgroundMessage text =>
    exact ⟨_, rfl, givesMap _ (stringCodes.gives text trivial)⟩
  | featureUpdate fs => exact ⟨_, rfl, givesMap _ (featuresCodes.gives fs (by simp))⟩
  | outputChannel n => exact ⟨_, rfl, givesMap _ (portCodes.gives n trivial)⟩

end Taking

namespace Message

theorem ofSexpToSexp {m : Message} (fit : m.numbersFit = true) : ofSexp m.toSexp = .ok m := by
  obtain ⟨body, known, gives⟩ := Taking.bodyGives fit
  simp only [ofSexp, toSexp, known]
  exact Taking.runGives gives m.head

theorem ofSexpFilled {v : Sexp} {m : Message} (filled : v.isFilled = true)
    (ok : ofSexp v = .ok m) : v = m.toSexp ∧ m.numbersFit = true := by
  unfold ofSexp at ok
  split at ok
  next head args =>
    split at ok
    next body known =>
      have parts : ∀ w ∈ args, w.isFilled = true := by
        simp only [Sexp.isFilled, Bool.and_eq_true, Sexp.allFilledIff] at filled
        exact fun w mem => filled.2 w (List.mem_cons_of_mem _ mem)
      obtain ⟨rfl, rfl, fit⟩ := Taking.runTakes (Taking.bodyTakes known) parts ok
      exact ⟨rfl, fit⟩
    · contradiction
  · contradiction
  · contradiction

/- The reader accepts the forms of messages in range and nothing else: it refuses every other
s-expression, and no two texts that read differently give the same message. -/
theorem ofSexpExactly (v : Sexp) (filled : v.isFilled = true) :
    (∀ m, ofSexp v = .ok m ↔ m.toSexp = v ∧ m.numbersFit = true) ∧
    ((∀ m : Message, m.toSexp = v → m.numbersFit = false) →
      ∃ why : Malformed, ofSexp v = .error why) ∧
    (∀ m : Message, m.numbersFit = true → ofSexp m.toSexp = .ok m) ∧
    ∀ one other u w m, Sexp.read one = .ok u → Sexp.read other = .ok w → ofSexp u = .ok m →
      ofSexp w = .ok m → u = w := by
  have exactly (m : Message) : ofSexp v = .ok m ↔ m.toSexp = v ∧ m.numbersFit = true := by
    refine ⟨fun accepted => ?_, fun ⟨form, fit⟩ => form ▸ ofSexpToSexp fit⟩
    obtain ⟨form, fit⟩ := ofSexpFilled filled accepted
    exact ⟨form.symm, fit⟩
  refine ⟨exactly, fun none => ?_, fun _ => ofSexpToSexp, ?_⟩
  · cases accepted : ofSexp v with
    | error why => exact ⟨why, rfl⟩
    | ok m =>
      obtain ⟨form, fit⟩ := (exactly m).mp accepted
      simp [none m form] at fit
  · intro one other u w m read reread first second
    have written {text : String} {u : Sexp} (read : Sexp.read text = .ok u)
        (accepted : ofSexp u = .ok m) : u = m.toSexp :=
      (ofSexpFilled (Sexp.properFilled u (Sexp.readFits read).1) accepted).1
    exact (written read first).trans (written reread second).symm

theorem levelsFromOne :
    let form (level : Int64) : Sexp := .list [.keyword "debug", .int 1, .int level, .str "d", .nil,
      .list [.list [.int 0, .str "(/ 1 0)"]]]
    (form 1).isFilled = true ∧ (form 0).isFilled = true ∧
    ofSexp (form 1) = .ok (.debugEnter 1 1 "d" [] [⟨0, "(/ 1 0)"⟩]) ∧
    (∀ m : Message, m.toSexp = form 0 → m.numbersFit = false) ∧
    ∃ why, ofSexp (form 0) = .error why := by
  intro form
  have filled (level : Int64) : (form level).isFilled = true := rfl
  have refused : ∀ m : Message, m.toSexp = form 0 → m.numbersFit = false := by
    intro m same
    have wrong : ofSexp (form 0) = .error (.wrong "debug" 2 .level (.int 0)) := rfl
    cases fit : m.numbersFit with
    | false => rfl
    | true =>
      have accepted := ((ofSexpExactly (form 0) (filled 0)).1 m).mpr ⟨same, fit⟩
      rw [wrong] at accepted
      contradiction
  refine ⟨filled 1, filled 0, ?_, refused, (ofSexpExactly (form 0) (filled 0)).2.1 refused⟩
  exact ((ofSexpExactly (form 1) (filled 1)).1 _).mpr ⟨by decide +kernel, by decide +kernel⟩

theorem headProper (m : Message) : Sexp.isKeywordName m.head = true := by
  cases m <;> simp only [head] <;> decide

theorem toSexpFits (m : Message) :
    m.toSexp.Fits 256 0 ↔ ∀ u ∈ m.arguments, u.Fits 256 1 := by
  have head : Sexp.Fits 256 1 (.keyword m.head) := Sexp.fitsAtom (headProper m) rfl (by decide)
  simp [toSexp, Sexp.fitsList, head]

theorem argumentsFit (m : Message) :
    (∀ u ∈ m.arguments, u.Fits 256 1) ↔ ∀ v, m.value? = some v → v.Fits 256 2 := by
  have text (s : String) {n : Nat} (room : n ≤ 256) : Sexp.Fits 256 n (.str s) :=
    Sexp.fitsAtom rfl rfl room
  have number (k : UInt64) {n : Nat} (room : n ≤ 256) : Sexp.Fits 256 n (word k) :=
    Sexp.fitsAtom rfl rfl room
  have worker (w : WorkerRef) : Sexp.Fits 256 1 (workerSexp w) := number _ (by decide)
  have items {α : Type} (write : α → Sexp) (as : List α) (each : ∀ a, (write a).Fits 256 2) :
      Sexp.Fits 256 1 (Sexp.ofItems (as.map write)) :=
    Sexp.fitsOfItems (by simpa using fun a _ => each a) (by decide)
  cases m with
  | request form package target id =>
    have known : Sexp.Fits 256 1 (targetSexp target) := by
      cases target with
      | new => exact Sexp.fitsAtom (by decide) rfl (by decide)
      | worker w => exact worker w
    simp [arguments, value?, text, number, known]
  | returned w value id =>
    have kept (name : String) (known : Sexp.isKeywordName name = true) (v : Sexp) :
        Sexp.Fits 256 1 (.list [.keyword name, v]) ↔ v.Fits 256 2 := by
      have head : Sexp.Fits 256 2 (.keyword name) := Sexp.fitsAtom known rfl (by decide)
      simp [Sexp.fitsList, head]
    cases value with
    | ok v => simp [arguments, value?, outcomeSexp, worker, number, kept "ok" (by decide)]
    | abort reason =>
      have quiet : Sexp.Fits 256 2 (Sexp.ofString? reason) := by
        cases reason <;> exact Sexp.fitsAtom rfl rfl (by decide)
      simp [arguments, value?, outcomeSexp, worker, number, kept "abort" (by decide), quiet]
  | debugEnter w level description rs fs =>
    have restart (r : RestartView) : Sexp.Fits 256 2 (restartSexp r) := by
      simp [restartSexp, Sexp.fitsList, text]
    have frame (f : FrameView) : Sexp.Fits 256 2 (frameSexp f) := by
      simp [frameSexp, Sexp.fitsList, text, number]
    simp [arguments, value?, worker, number, text, items _ rs restart, items _ fs frame]
  | featureUpdate fs => simp [arguments, value?, items _ fs fun f => text f (by decide)]
  | _ => simp [arguments, value?, worker, number, text]

/- The numbers of the message are in range, and the value that it returns can be read back with
the two lists of the message around it. -/
def transmissible (m : Message) : Bool :=
  m.numbersFit && m.value?.all fun v => v.isProper && v.depth ≤ 254

theorem transmissibleIff (m : Message) :
    m.transmissible = true ↔ m.numbersFit = true ∧ m.toSexp.Fits 256 0 := by
  rw [toSexpFits, argumentsFit, transmissible, Bool.and_eq_true]
  refine and_congr_right fun _ => ?_
  cases m.value? with
  | none => simp
  | some v => simp [Sexp.Fits]

end Message
end RemoteEval
