import RemoteEval.Calc.Basic
import RemoteEval.Proofs.Sexp.Reading

/-! What programs of the calculator compute. A program is proper if proper answers never lead it
to an improper value, in a global or at its end, nor to a condition of more than 256 frames. The
programs of the calculator are: a form that was read is proper and nests at most 256 deep, and
each argument that is evaluated lies one list deeper in it than its call. The values themselves
may be of any size and depth. -/
namespace RemoteEval

def Bare {α : Type} : Except Condition α → Prop
  | .ok _ => True
  | .error c => c.frames = []

namespace Program
variable {α β : Type}

def Proper (result : α → Prop) : Program α → Prop
  | .done a => result a
  | .stop (.failed c) => c.frames.length ≤ 256
  | .stop (.crashed _) => True
  | .write _ next => next.Proper result
  | .read next => ∀ answer, Bare answer → (next answer).Proper result
  | .check next => ∀ answer, Bare answer → (next answer).Proper result
  | .fetch _ next =>
    ∀ answer : Option Sexp, (∀ v, answer = some v → v.isProper = true) → (next answer).Proper result
  | .assign _ v next => v.isProper = true ∧ next.Proper result
  | .pause next => next.Proper result
  | .spin next => ∀ c : Condition, c.frames = [] → (next c).Proper result

theorem bindProper {first : α → Prop} {last : β → Prop} {p : Program α} {f : α → Program β}
    (proper : p.Proper first) (next : ∀ a, first a → (f a).Proper last) :
    (p.bind f).Proper last := by
  induction p with
  | done a => exact next a proper
  | stop failure =>
    cases failure with
    | failed c => exact proper
    | crashed => trivial
  | write text rest ih => exact ih proper
  | read rest ih => exact fun answer bare => ih answer (proper answer bare)
  | check rest ih => exact fun answer bare => ih answer (proper answer bare)
  | fetch name rest ih => exact fun answer known => ih answer (proper answer known)
  | assign name v rest ih => exact ⟨proper.1, ih proper.2⟩
  | pause rest ih => exact ih proper
  | spin rest ih => exact fun c bare => ih c (proper c bare)

theorem orSignalProper {result : α → Prop} {answer : Except Condition α}
    {f : Condition → Condition} (good : ∀ a, answer = .ok a → result a)
    (short : ∀ c, answer = .error c → (f c).frames.length ≤ 256) :
    (orSignal f answer).Proper result := by
  cases answer with
  | ok a => exact good a rfl
  | error c => exact short c rfl

/- The value of a program that nothing disturbs and that needs no input, writes nothing and takes
no rest; with the globals that it leaves. -/
def undisturbed (g : Globals) : Program α → Option (α × Globals)
  | .done a => some (a, g)
  | .check next => (next (.ok ())).undisturbed g
  | .fetch name next => (next (g.fetch name)).undisturbed g
  | .assign name v next => next.undisturbed (g.assign name v)
  | _ => none

theorem undisturbedBind (p : Program α) (f : α → Program β) (g : Globals) :
    (p.bind f).undisturbed g = (p.undisturbed g).bind fun (a, g) => (f a).undisturbed g := by
  induction p generalizing g with
  | done | stop | write | read | pause | spin => rfl
  | check next ih => exact ih _ g
  | fetch name next ih => exact ih _ g
  | assign name v next ih => exact ih _

end Program

namespace Calc
open Sexp (allProper depthOfItems)

theorem trapShort {calls : List ActiveCall} {c : Condition} (few : calls.length ≤ 256)
    (short : c.frames.length ≤ 256) : (trap calls c).frames.length ≤ 256 := by
  unfold trap
  split
  · simpa using few
  · exact short

theorem checkpointProper {calls : List ActiveCall} (few : calls.length ≤ 256) :
    (checkpoint calls).Proper fun _ => True := by
  intro answer bare
  refine Program.orSignalProper (fun _ _ => trivial) fun c same => trapShort few ?_
  subst same
  simp [show c.frames = [] from bare]

theorem trappingProper {calls : List ActiveCall} {result : Sexp → Prop} {p : Program Sexp}
    (few : calls.length ≤ 256) (proper : p.Proper result) : (trapping calls p).Proper result := by
  induction p with
  | done a => exact proper
  | stop failure =>
    cases failure with
    | failed c => exact trapShort few proper
    | crashed => trivial
  | write text rest ih => exact ih proper
  | read rest ih => exact fun answer bare => ih answer (proper answer bare)
  | check rest ih => exact fun answer bare => ih answer (proper answer bare)
  | fetch name rest ih => exact fun answer known => ih answer (proper answer known)
  | assign name v rest ih => exact ⟨proper.1, ih proper.2⟩
  | pause rest ih => exact ih proper
  | spin rest ih => exact fun c bare => ih c (proper c bare)

theorem sleepProper (n : Nat) : (sleep n).Proper fun _ => True := by
  induction n with
  | zero => trivial
  | succ n ih =>
    intro answer bare
    cases answer with
    | ok => exact ih
    | error c => simp [Program.signal, Program.Proper, show c.frames = [] from bare]

def Plain {α : Type} : Except Condition α → Prop
  | .ok _ => True
  | .error c => ∃ type description, c = .error type description

theorem Plain.bare {α : Type} {x : Except Condition α} (plain : Plain x) : Bare x := by
  cases x with
  | ok a => trivial
  | error c =>
    obtain ⟨type, description, rfl⟩ := plain
    rfl

theorem bindPlain {α β : Type} {x : Except Condition α} {f : α → Except Condition β}
    (first : Plain x) (next : ∀ a, Plain (f a)) : Plain (x.bind f) := by
  cases x with
  | ok a => exact next a
  | error c => exact first

theorem foldPlain {f : Int64 → Int64 → Except Condition Int64} (each : ∀ a b, Plain (f a b))
    (n : Int64) (ns : List Int64) : Plain (ns.foldlM f n) := by
  induction ns generalizing n with
  | nil => trivial
  | cons m ms ih => exact bindPlain (each n m) ih

theorem fitPlain (i : Int) : Plain (fit i) := by
  unfold fit
  split
  · trivial
  · exact ⟨_, _, rfl⟩

theorem integersPlain (args : List Sexp) : Plain (integers args) := by
  induction args with
  | nil => trivial
  | cons v rest ih =>
    unfold integers
    split
    · cases found : integers rest with
      | ok ns => trivial
      | error c => rw [found] at ih; exact ih
    · exact ⟨_, _, rfl⟩

theorem sumPlain (ns : List Int64) : Plain (sum ns) := foldPlain (fun _ _ => fitPlain _) _ ns

theorem productPlain (ns : List Int64) : Plain (product ns) :=
  foldPlain (fun _ _ => fitPlain _) _ ns

theorem differencePlain (ns : List Int64) : Plain (difference ns) := by
  unfold difference
  split
  · exact ⟨_, _, rfl⟩
  · exact fitPlain _
  · exact foldPlain (fun _ _ => fitPlain _) _ _

theorem quotientPlain (ns : List Int64) : Plain (quotient ns) := by
  unfold quotient
  split
  · exact ⟨_, _, rfl⟩
  · refine foldPlain (fun total divisor => ?_) _ _
    unfold divide
    split
    · exact ⟨_, _, rfl⟩
    · exact fitPlain _

theorem ofIntegerProper {result : Except Condition Int64} (plain : Plain result) :
    (ofInteger result).Proper (·.isProper = true) := by
  cases result with
  | ok n => exact rfl
  | error c => simp [ofInteger, Program.orSignal, Program.signal, Program.Proper, Except.map,
      show c.frames = [] from plain.bare]

theorem signalProper {c : Condition} (bare : c.frames = []) :
    (Program.signal c : Program Sexp).Proper (·.isProper = true) := by
  simp [Program.signal, Program.Proper, bare]

theorem applyProper (name : String) {args : List Sexp} (proper : ∀ v ∈ args, v.isProper = true) :
    (apply name args).Proper (·.isProper = true) := by
  unfold apply
  split
  · exact ofIntegerProper (bindPlain (integersPlain _) sumPlain)
  · exact ofIntegerProper (bindPlain (integersPlain _) productPlain)
  · exact ofIntegerProper (bindPlain (integersPlain _) differencePlain)
  · exact ofIntegerProper (bindPlain (integersPlain _) quotientPlain)
  · exact Sexp.ofItemsProper.mpr proper
  · cases last : args.getLast? with
    | none => exact rfl
    | some v => exact proper v (List.mem_of_getLast? last)
  · split
    next v => exact proper v List.mem_cons_self
    · exact signalProper rfl
  · split
    · intro answer bare
      cases answer with
      | ok line => exact rfl
      | error c => exact signalProper bare
    · exact signalProper rfl
  · have bare := (integersPlain args).bare
    split
    next c failed => exact signalProper (by rw [failed] at bare; exact bare)
    · split
      · exact Program.bindProper (sleepProper _) fun _ _ => rfl
      · exact signalProper rfl
    · exact signalProper rfl
  · exact signalProper rfl
  · exact signalProper rfl
  · exact signalProper rfl

theorem notAFunctionProper {α : Type} {good : α → Prop} {calls : List ActiveCall} (head : Sexp)
    (few : calls.length ≤ 256) :
    ((checkpoint calls).bind fun _ => .signal (trap calls (notAFunction head)) :
      Program α).Proper good :=
  Program.bindProper (checkpointProper few) fun _ _ =>
    trapShort few (by simp [notAFunction, Condition.error])

def Within (calls : List ActiveCall) (result : Sexp × List ActiveCall) : Prop :=
  result.1.isProper = true ∧ result.2 = calls

/- The call on top of these has proper arguments by now, and nothing else changed. -/
def Filed (calls after : List ActiveCall) : Prop :=
  after.tail = calls.tail ∧ after.length = calls.length ∧ ∀ v ∈ filed after, v.isProper = true

theorem fileFiled {calls after : List ActiveCall} {v : Sexp} (known : Filed calls after)
    (good : v.isProper = true) : Filed calls (file v after) := by
  obtain ⟨tail, length, proper⟩ := known
  cases after with
  | nil => exact ⟨tail, length, proper⟩
  | cons call outer =>
    refine ⟨tail, length, fun u mem => ?_⟩
    obtain rfl | older := List.mem_cons.mp (List.mem_reverse.mp mem)
    · exact good
    · exact proper u (List.mem_reverse.mpr older)

theorem applyTopProper {call : ActiveCall} {outer after : List ActiveCall} (name : String)
    (known : Filed (call :: outer) after) (few : outer.length < 256) :
    (applyTop name after).Proper (Within outer) := by
  obtain ⟨tail, length, proper⟩ := known
  have short : after.length ≤ 256 := by simp only [length, List.length_cons]; omega
  exact Program.bindProper (trappingProper short (applyProper name proper)) fun v good =>
    ⟨good, tail⟩

mutual
theorem evalProper : ∀ (form : Sexp) (calls : List ActiveCall), form.isProper = true →
    calls.length + form.depth ≤ 256 → (eval form calls).Proper (Within calls)
  | .symbol name, calls, _, room => by
    rw [eval]
    split
    · exact ⟨rfl, rfl⟩
    · intro answer known
      cases answer with
      | some v => exact ⟨known v rfl, rfl⟩
      | none =>
        exact trapShort (by omega) (by simp [unbound, Condition.withRestart, Condition.error])
  | .list items, calls, proper, room => by
    simp only [Sexp.isProper, Bool.and_eq_true, Bool.not_eq_true', List.isEmpty_eq_false_iff]
      at proper
    rw [eval]
    exact evalListProper items calls proper.1 proper.2
      (by simpa [Sexp.depth, Nat.add_assoc] using room)
  | .nil, _, _, _ => ⟨rfl, rfl⟩
  | .int _, _, _, _ => ⟨rfl, rfl⟩
  | .str _, _, _, _ => ⟨rfl, rfl⟩
  | .keyword name, _, proper, _ => ⟨proper, rfl⟩

theorem evalListProper : ∀ (items : List Sexp) (calls : List ActiveCall), items ≠ [] →
    allProper items = true → calls.length + depthOfItems items + 1 ≤ 256 →
    (evalList items calls).Proper (Within calls)
  | [], _, nonempty, _, _ => absurd rfl nonempty
  | .symbol name :: args, calls, _, proper, room => by
    simp only [allProper, Bool.and_eq_true] at proper
    have inner : depthOfItems args ≤ depthOfItems (.symbol name :: args) := Nat.le_max_right ..
    rw [evalList]
    refine Program.bindProper (checkpointProper (by omega)) fun _ _ => ?_
    split
    · exact evalAssignmentProper args calls proper.2 (by omega)
    · have arguments := evalArgumentsProper args (⟨.list (.symbol name :: args), []⟩ :: calls)
        proper.2 (by simp only [List.length_cons]; omega) ⟨rfl, rfl, by simp [filed]⟩
      exact Program.bindProper arguments fun after known => applyTopProper name known (by omega)
  | .nil :: _, calls, _, _, room => notAFunctionProper .nil (by omega)
  | .int i :: _, calls, _, _, room => notAFunctionProper (.int i) (by omega)
  | .str s :: _, calls, _, _, room => notAFunctionProper (.str s) (by omega)
  | .keyword name :: _, calls, _, _, room => notAFunctionProper (.keyword name) (by omega)
  | .list items :: _, calls, _, _, room => notAFunctionProper (.list items) (by omega)

theorem evalAssignmentProper : ∀ (args : List Sexp) (calls : List ActiveCall),
    allProper args = true → calls.length + depthOfItems args ≤ 256 →
    (evalAssignment args calls).Proper (Within calls)
  | args, calls, proper, room => by
    unfold evalAssignment
    split
    next name form =>
      simp only [allProper, Bool.and_eq_true] at proper
      have inner : form.depth ≤ depthOfItems [.symbol name, form] :=
        Sexp.depthOfItemsLe.mp (Nat.le_refl _) form (by simp)
      exact Program.bindProper (evalProper form calls proper.2.1 (by omega)) fun _ known =>
        ⟨known.1, known⟩
    · exact trapShort (by omega) (by simp [badAssignment, Condition.error])

theorem evalArgumentsProper : ∀ (args : List Sexp) (calls : List ActiveCall) {before},
    allProper args = true → calls.length + depthOfItems args ≤ 256 → Filed before calls →
    (evalArguments args calls).Proper (Filed before)
  | [], calls, before, _, _, known => by
    rw [evalArguments]
    exact known
  | arg :: rest, calls, before, proper, room, known => by
    simp only [allProper, Bool.and_eq_true] at proper
    simp only [depthOfItems] at room
    rw [evalArguments]
    refine Program.bindProper (evalProper arg calls proper.1 (by omega)) fun result good => ?_
    obtain ⟨value, same⟩ := good
    have next := fileFiled (same ▸ known) value
    refine evalArgumentsProper rest _ proper.2 ?_ next
    have length : (file result.1 result.2).length = calls.length := by
      rw [next.2.1, known.2.1]
    omega
end

end Calc

structure Language.Proper (l : Language) : Prop where
  evaluate : ∀ form package, (l.evaluate form package).Proper (·.isProper = true)
  restart : ∀ {c index v}, l.invokeRestart c index = .ok (.resume v) → v.isProper = true
  frames : ∀ {c last shown}, c.frames.length ≤ 256 → l.backtrace c 0 last = .ok shown →
    shown.length ≤ 256

namespace Calc

theorem languageProper : language.Proper where
  evaluate form package := by
    show (evaluate form package).Proper _
    unfold evaluate
    split
    next v read =>
      obtain ⟨proper, shallow⟩ := Sexp.readFits read
      have value := evalProper v [] proper (by simpa [Sexp.maxDepth] using shallow)
      exact Program.bindProper value fun _ known => known.1
    · exact signalProper rfl
  restart {c index v} chosen := by
    change invokeRestart c index = .ok (.resume v) at chosen
    unfold invokeRestart at chosen
    split at chosen
    · contradiction
    · split at chosen <;> cases chosen <;> rfl
  frames {c last shown} short backtrace := by
    cases (show (.ok (c.backtrace 0 last) : Except (Failure String) _) = .ok shown from backtrace)
    simp only [Condition.backtrace, List.drop_zero, List.length_map, List.length_take]
    omega

def nestedForm : Nat → Sexp
  | 0 => .int 1
  | n + 1 => .list [.symbol "list", nestedForm n]

def nestedValue : Nat → Sexp
  | 0 => .int 1
  | n + 1 => .list [nestedValue n]

theorem nestedFormFits (n : Nat) : (nestedForm n).isProper = true ∧ (nestedForm n).depth = n := by
  induction n with
  | zero => exact ⟨rfl, rfl⟩
  | succ n ih =>
    obtain ⟨proper, depth⟩ := ih
    simp [nestedForm, Sexp.isProper, Sexp.allProper, Sexp.depth, Sexp.depthOfItems, proper, depth]

theorem nestedValueDepth (n : Nat) : (nestedValue n).depth = n := by
  induction n with
  | zero => rfl
  | succ n ih => simp [nestedValue, Sexp.depth, Sexp.depthOfItems, ih]

theorem evalNested (n : Nat) (calls : List ActiveCall) (g : Globals) :
    (eval (nestedForm n) calls).undisturbed g = some ((nestedValue n, calls), g) := by
  induction n generalizing calls with
  | zero => rfl
  | succ n ih =>
    have called : (eval (nestedForm (n + 1)) calls).undisturbed g =
        (((eval (nestedForm n) (⟨nestedForm (n + 1), []⟩ :: calls)).bind fun result =>
          .done (file result.1 result.2)).bind (applyTop "list")).undisturbed g := rfl
    simp only [called, Program.undisturbedBind, ih]
    rfl

def copiesForm (k : Nat) (text : String) : Sexp :=
  .list [.symbol "progn", .list [.symbol "setq", .symbol "x", .str text],
    .list (.symbol "list" :: List.replicate k (.symbol "x"))]

def copiesValue (k : Nat) (text : String) : Sexp := Sexp.ofItems (List.replicate k (.str text))

theorem evalCopied {k : Nat} {outer : List ActiveCall} {call : ActiveCall} {g : Globals} {v : Sexp}
    (known : g.fetch "x" = some v) :
    (evalArguments (List.replicate k (.symbol "x")) (call :: outer)).undisturbed g =
      some ({ call with arguments := List.replicate k v ++ call.arguments } :: outer, g) := by
  induction k generalizing call with
  | zero => simp [evalArguments, Program.undisturbed]
  | succ k ih =>
    rw [List.replicate_succ, evalArguments, Program.undisturbedBind, eval, if_neg (by decide),
      Program.undisturbed, known]
    simp [Program.undisturbed, file, ih, List.replicate_succ' (n := k) (a := v)]

theorem evalCopies (k : Nat) (text : String) : (eval (copiesForm k text) []).undisturbed [] =
    some ((copiesValue k text, []), [("x", .str text)]) := by
  have assigned : Globals.assign [] "x" (.str text) = [("x", .str text)] := rfl
  have known : Globals.fetch [("x", .str text)] "x" = some (.str text) := rfl
  simp [copiesForm, copiesValue, eval, evalList, evalArguments, evalAssignment, checkpoint,
    Program.undisturbedBind, Program.undisturbed, Program.orSignal, assigned, evalCopied known,
    applyTop, file, filed, apply, trapping]

end Calc
end RemoteEval
