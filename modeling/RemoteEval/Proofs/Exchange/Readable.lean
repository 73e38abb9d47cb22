import Mathlib.Algebra.Group.Int.Defs
import Mathlib.Algebra.Group.Nat.Defs
import RemoteEval.Wire.Frame

/-! Messages that arrive. A message gets through if its frame is read back as the same
message; one that does not fit a frame, or is refused by the reader, ends the connection
and is never acted on. The numbers in a message that gets through are in range, and that
is all that is shown of it: which messages get through is not the question here. -/
namespace RemoteEval

def Message.readable (m : Message) : Bool :=
  match m.encode with
  | .ok bytes =>
    match Frame.decode bytes with
    | .ok got => got = m
    | .error _ => false
  | .error _ => false

theorem Message.readableFrame {m : Message} (read : m.readable = true) :
    ∃ frame, m.encode = .ok frame ∧ Frame.decode frame = .ok m := by
  unfold readable at read
  split at read
  next frame encoded =>
    refine ⟨frame, encoded, ?_⟩
    split at read
    next decoded => rw [decoded, of_decide_eq_true read]
    · contradiction
  · contradiction

def Message.InRange : Message → Prop
  | .request _ _ _ id => id.toNat < 2 ^ 63
  | .workerAssigned _ ref => ref ≠ 0
  | .debugEnter _ level _ _ _ => 0 < level.toNat ∧ level.toNat < 2 ^ 63
  | _ => True

namespace Taking

def Yields {α : Type} (body : Taking α) (p : α → Prop) : Prop :=
  ∀ args a rest, body args = .ok (a, rest) → p a

theorem yieldsAny {α : Type} (body : Taking α) : Yields body fun _ => True :=
  fun _ _ _ _ => trivial

theorem yieldsNext {α : Type} {wanted : Wanted} {f : Sexp → Option α} {p : α → Prop}
    (reads : ∀ v a, f v = some a → p a) : Yields (next wanted f) p := by
  intro args a rest ok
  unfold next at ok
  split at ok
  · contradiction
  next v later _ =>
    cases read : f v with
    | none => simp [read] at ok
    | some got =>
      simp only [read, Except.ok.injEq, Prod.mk.injEq] at ok
      exact ok.1 ▸ reads v got read

theorem yieldsMap {α β : Type} {body : Taking α} {p : α → Prop} {q : β → Prop} {f : α → β}
    (makes : ∀ a, p a → q (f a)) (first : Yields body p) : Yields (f <$> body) q := by
  intro args b rest ok
  simp only [Functor.map, StateT.map, bind, Except.bind] at ok
  cases read : body args with
  | error e => simp [read] at ok
  | ok result =>
    simp only [read] at ok
    cases ok
    exact makes _ (first _ _ _ read)

theorem yieldsSeq {α β : Type} {make : Taking (α → β)} {body : Taking α} {p : α → Prop}
    {q : β → Prop} (first : Yields make fun f => ∀ a, p a → q (f a)) (second : Yields body p) :
    Yields (make <*> body) q := by
  intro args b rest ok
  simp only [Seq.seq, bind, StateT.bind, Except.bind, StateT.map] at ok
  cases read : make args with
  | error e => simp [read] at ok
  | ok result =>
    simp only [read] at ok
    cases more : body result.2 with
    | error e => simp [more] at ok
    | ok last =>
      simp only [more] at ok
      cases ok
      exact first _ _ _ read _ (second _ _ _ more)

theorem nonnegative {i : Int64} (sign : 0 ≤ i) :
    i.toUInt64.toNat = i.toInt.toNat ∧ 0 ≤ i.toInt ∧ i.toInt < 2 ^ 63 :=
  ⟨Int64.toNat_toUInt64_of_le sign, Int64.le_iff_toInt_le.mp sign, i.toInt_lt⟩

theorem unsignedInRange : Yields unsigned fun n => n.toNat < 2 ^ 63 := by
  refine yieldsNext fun v n read => ?_
  obtain ⟨i, _, made⟩ := Option.bind_eq_some_iff.mp read
  obtain ⟨sign, made⟩ := Option.ite_none_right_eq_some.mp made
  cases made
  obtain ⟨same, low, high⟩ := nonnegative sign
  omega

theorem levelInRange : Yields level fun n => 0 < n.toNat ∧ n.toNat < 2 ^ 63 := by
  refine yieldsNext fun v n read => ?_
  obtain ⟨i, _, made⟩ := Option.bind_eq_some_iff.mp read
  obtain ⟨sign, made⟩ := Option.ite_none_right_eq_some.mp made
  cases made
  have positive : 0 < i.toInt := Int64.lt_iff_toInt_lt.mp sign
  obtain ⟨same, low, high⟩ := nonnegative (Int64.le_of_lt sign)
  omega

theorem workerInRange : Yields worker fun ref => ref ≠ 0 := by
  refine yieldsNext fun v ref read => ?_
  obtain ⟨i, _, made⟩ := Option.bind_eq_some_iff.mp read
  obtain ⟨⟨sign, small⟩, made⟩ := Option.ite_none_right_eq_some.mp made
  cases made
  have positive : 0 < i.toInt := Int64.lt_iff_toInt_lt.mp sign
  have bounded : i.toInt ≤ 4294967295 := Int64.le_iff_toInt_le.mp small
  obtain ⟨same, low, high⟩ := nonnegative (Int64.le_of_lt sign)
  intro zero
  have none : i.toUInt64.toUInt32.toNat = 0 := by rw [zero]; rfl
  rw [UInt64.toNat_toUInt32] at none
  omega

theorem bodyInRange {head : String} {body : Taking Message} (known : Taking.body head = some body) :
    Yields body Message.InRange := by
  have one : ∀ {α : Type} {first : Taking α} {f : α → Message}, (∀ a, (f a).InRange) →
      Yields (f <$> first) Message.InRange :=
    fun ranges => yieldsMap (fun a _ => ranges a) (yieldsAny _)
  have two : ∀ {α β : Type} {first : Taking α} {second : Taking β} {f : α → β → Message},
      (∀ a b, (f a b).InRange) → Yields (f <$> first <*> second) Message.InRange :=
    fun ranges => yieldsSeq (yieldsMap (fun a _ b _ => ranges a b) (yieldsAny _)) (yieldsAny _)
  have three : ∀ {α β δ : Type} {first : Taking α} {second : Taking β} {third : Taking δ}
      {f : α → β → δ → Message}, (∀ a b c, (f a b c).InRange) →
      Yields (f <$> first <*> second <*> third) Message.InRange :=
    fun ranges => yieldsSeq (yieldsSeq (yieldsMap (fun a _ b _ c _ => ranges a b c)
      (yieldsAny _)) (yieldsAny _)) (yieldsAny _)
  unfold Taking.body at known
  split at known <;> cases known
  · exact yieldsSeq (yieldsSeq (yieldsSeq (yieldsMap (fun _ _ _ _ _ _ _ range => range)
      (yieldsAny _)) (yieldsAny _)) (yieldsAny _)) unsignedInRange
  · exact one fun _ => trivial
  · exact three fun _ _ _ => trivial
  · exact yieldsSeq (yieldsMap (fun _ _ _ range => range) (yieldsAny _)) workerInRange
  · exact three fun _ _ _ => trivial
  · exact yieldsSeq (yieldsSeq (yieldsSeq (yieldsSeq (yieldsMap
      (fun _ _ _ range _ _ _ _ _ _ => range) (yieldsAny _)) levelInRange) (yieldsAny _))
      (yieldsAny _)) (yieldsAny _)
  · exact two fun _ _ => trivial
  · exact two fun _ _ => trivial
  · exact two fun _ _ => trivial
  · exact two fun _ _ => trivial
  · exact two fun _ _ => trivial
  · exact one fun _ => trivial
  · exact one fun _ => trivial
  · exact one fun _ => trivial
  · exact one fun _ => trivial

theorem runInRange {kind : String} {args : List Sexp} {body : Taking Message} {m : Message}
    (ranges : Yields body Message.InRange) (ok : Taking.run kind args body = .ok m) :
    m.InRange := by
  simp only [Taking.run, StateT.run', bind, StateT.bind, Except.bind, Functor.map, Except.map] at ok
  cases read : body ⟨kind, args, 0⟩ with
  | error e => simp [read] at ok
  | ok result =>
    simp only [read] at ok
    cases left : done result.2 with
    | error e => simp [left] at ok
    | ok last =>
      simp only [left] at ok
      cases ok
      exact ranges _ _ _ read

end Taking

namespace Message

theorem ofSexpInRange {v : Sexp} {m : Message} (ok : ofSexp v = .ok m) : m.InRange := by
  unfold ofSexp at ok
  split at ok
  · split at ok
    next body known => exact Taking.runInRange (Taking.bodyInRange known) ok
    · contradiction
  · contradiction
  · contradiction

theorem decodePayloadInRange {payload : List UInt8} {m : Message}
    (ok : Frame.decodePayload payload = .ok m) : m.InRange := by
  unfold Frame.decodePayload at ok
  split at ok
  · contradiction
  split at ok
  · contradiction
  split at ok
  · contradiction
  next read =>
    cases ok
    exact ofSexpInRange read

theorem readableInRange {m : Message} (through : m.readable = true) : m.InRange := by
  unfold readable at through
  split at through
  next bytes _ =>
    split at through
    next got decoded =>
      have same : got = m := by simpa using through
      subst same
      unfold Frame.decode at decoded
      split at decoded
      · contradiction
      dsimp only at decoded
      split at decoded
      · contradiction
      split at decoded
      · contradiction
      · exact decodePayloadInRange decoded
    · contradiction
  · contradiction

end Message
end RemoteEval
