import RemoteEval.Proofs.Calc.Values

/-! How the evaluator puts its programs together. A function comes to one of a few programs, whatever
its arguments; and a property that these have, and that the evaluator keeps, every evaluation has. -/
namespace RemoteEval.Calc

inductive Applied : Program Sexp → Prop
  | value (v : Sexp) : Applied (.done v)
  | raised {c : Condition} (kind : c.kind = .error) (bare : c.frames = []) : Applied (.signal c)
  | written (text : String) (v : Sexp) : Applied (.write text (.done v))
  | line : Applied (.read fun answer => Program.orSignal id (answer.map .str))
  | slept (n : Nat) : Applied ((sleep n).bind fun _ => .done .nil)

theorem plainApplied {result : Except Condition Int64} (plain : Plain result) :
    Applied (ofInteger result) := by
  cases result with
  | ok n => exact .value (.int n)
  | error c =>
    obtain ⟨type, description, rfl⟩ := plain
    exact .raised rfl rfl

theorem applyApplied (name : String) (args : List Sexp) : Applied (apply name args) := by
  unfold apply
  split
  · exact plainApplied (bindPlain (integersPlain _) sumPlain)
  · exact plainApplied (bindPlain (integersPlain _) productPlain)
  · exact plainApplied (bindPlain (integersPlain _) differencePlain)
  · exact plainApplied (bindPlain (integersPlain _) quotientPlain)
  · exact .value _
  · exact .value _
  · split
    · exact .written _ _
    · exact .raised rfl rfl
  · split
    · exact .line
    · exact .raised rfl rfl
  · have plain := integersPlain args
    split
    next c failed =>
      rw [failed] at plain
      obtain ⟨type, description, rfl⟩ := plain
      exact .raised rfl rfl
    · split
      · exact .slept _
      · exact .raised rfl rfl
    · exact .raised rfl rfl
  · exact .raised rfl rfl
  · exact .raised rfl rfl
  · exact .raised rfl rfl

theorem trapFrames (calls : List ActiveCall) (c : Condition) : ∃ frames,
    trap calls c = { c with frames } ∧ (c.isCancelled = true → frames = c.frames) := by
  unfold trap
  split
  next shown => exact ⟨_, rfl, fun cancelled => by simp [cancelled] at shown⟩
  · exact ⟨c.frames, rfl, fun _ => rfl⟩

/- The property holds of the parts of an evaluation, and of what is made from such parts. -/
structure Composes (P : (α : Type) → Program α → Prop) : Prop where
  done : ∀ {α : Type} (a : α), P α (.done a)
  bind : ∀ {α β : Type} {p : Program α} {f : α → Program β}, P α p → (∀ a, P β (f a)) →
    P β (p.bind f)
  fetch : ∀ {α : Type} (name : String) {next : Option Sexp → Program α},
    (∀ answer, P α (next answer)) → P α (.fetch name next)
  assign : ∀ {α : Type} (name : String) (v : Sexp) {next : Program α}, P α next →
    P α (.assign name v next)
  checkpoint : ∀ calls, P Unit (checkpoint calls)
  raised : ∀ {α : Type} calls {c : Condition}, c.kind = .error → P α (.signal (trap calls c))
  applied : ∀ calls name args, P Sexp (trapping calls (apply name args))

variable {P : (α : Type) → Program α → Prop}

theorem notAFunctionComposes {α : Type} (composes : Composes P) (calls : List ActiveCall)
    (head : Sexp) :
    P α ((checkpoint calls).bind fun _ => .signal (trap calls (notAFunction head))) :=
  composes.bind (composes.checkpoint calls) fun _ => composes.raised calls rfl

mutual
theorem evalComposes (composes : Composes P) : ∀ (form : Sexp) (calls : List ActiveCall),
    P _ (eval form calls)
  | .symbol name, calls => by
    rw [eval]
    split
    · exact composes.done _
    · refine composes.fetch name fun answer => ?_
      cases answer with
      | some v => exact composes.done _
      | none => exact composes.raised calls rfl
  | .list items, calls => by
    rw [eval]
    exact evalListComposes composes items calls
  | .nil, _ | .int _, _ | .str _, _ | .keyword _, _ => composes.done _

theorem evalListComposes (composes : Composes P) : ∀ (items : List Sexp)
    (calls : List ActiveCall), P _ (evalList items calls)
  | [], _ => by
    rw [evalList]
    exact composes.done _
  | .symbol name :: args, calls => by
    rw [evalList]
    refine composes.bind (composes.checkpoint calls) fun _ => ?_
    split
    · exact evalAssignmentComposes composes args calls
    · refine composes.bind (evalArgumentsComposes composes args _) fun after => ?_
      exact composes.bind (composes.applied after name _) fun _ => composes.done _
  | .nil :: _, calls => notAFunctionComposes composes calls .nil
  | .int i :: _, calls => notAFunctionComposes composes calls (.int i)
  | .str s :: _, calls => notAFunctionComposes composes calls (.str s)
  | .keyword name :: _, calls => notAFunctionComposes composes calls (.keyword name)
  | .list items :: _, calls => notAFunctionComposes composes calls (.list items)

theorem evalAssignmentComposes (composes : Composes P) : ∀ (args : List Sexp)
    (calls : List ActiveCall), P _ (evalAssignment args calls)
  | args, calls => by
    unfold evalAssignment
    split
    next name form =>
      exact composes.bind (evalComposes composes form calls) fun _ =>
        composes.assign name _ (composes.done _)
    · exact composes.raised calls rfl

theorem evalArgumentsComposes (composes : Composes P) : ∀ (args : List Sexp)
    (calls : List ActiveCall), P _ (evalArguments args calls)
  | [], calls => by
    rw [evalArguments]
    exact composes.done calls
  | arg :: rest, calls => by
    rw [evalArguments]
    exact composes.bind (evalComposes composes arg calls) fun _ =>
      evalArgumentsComposes composes rest _
end

theorem evaluateComposes (composes : Composes P) (form package : String) :
    P Sexp (evaluate form package) := by
  unfold evaluate
  split
  next v read => exact composes.bind (evalComposes composes v []) fun _ => composes.done _
  next e unread =>
    have same : trap [] (.error "READER-ERROR" s!"read {Text.quoted form}: {e.message}") =
      .error "READER-ERROR" s!"read {Text.quoted form}: {e.message}" := rfl
    rw [← same]
    exact composes.raised [] rfl

end RemoteEval.Calc
