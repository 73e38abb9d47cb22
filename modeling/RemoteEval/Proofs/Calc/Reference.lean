import RemoteEval.Proofs.Language.Dealings
import RemoteEval.Proofs.Calc.Forms

/-! An evaluator without a stack of calls. No evaluation is told of the calls around it: where one
stops, each call that it was within adds itself on the way out. The evaluator of the calculator is the
same program, for every form and on any stack: what has a value leaves the stack as it was, and what
stops has the calls that it stopped in on top of it. -/
namespace RemoteEval

namespace Program
variable {α β γ : Type}

theorem bindAssoc (p : Program α) (f : α → Program β) (g : β → Program γ) :
    (p.bind f).bind g = p.bind fun a => (f a).bind g := by
  induction p with
  | done | stop => rfl
  | write text next ih => exact congrArg (write text) ih
  | read next ih => exact congrArg read (funext ih)
  | check next ih => exact congrArg check (funext ih)
  | fetch name next ih => exact congrArg (fetch name) (funext ih)
  | assign name v next ih => exact congrArg (assign name v) ih
  | pause next ih => exact congrArg pause ih
  | spin next ih => exact congrArg spin (funext ih)

def attempt : Program α → Program (Except Condition α)
  | .done a => .done (.ok a)
  | .stop (.failed c) => .done (.error c)
  | .stop (.crashed reason) => .stop (.crashed reason)
  | .write text next => .write text next.attempt
  | .read next => .read fun answer => (next answer).attempt
  | .check next => .check fun answer => (next answer).attempt
  | .fetch name next => .fetch name fun answer => (next answer).attempt
  | .assign name value next => .assign name value next.attempt
  | .pause next => .pause next.attempt
  | .spin next => .spin fun c => (next c).attempt

theorem endsAttempt {p : Program α} {ds : List Dealing}
    {r : Except (Failure Condition) (Except Condition α)} (ends : p.attempt.Ends ds r) :
    (∃ a, r = .ok (.ok a) ∧ p.Ends ds (.ok a)) ∨
    (∃ c, r = .ok (.error c) ∧ p.Ends ds (.error (.failed c))) ∨
    ∃ reason, r = .error (.crashed reason) ∧ p.Ends ds (.error (.crashed reason)) := by
  induction p generalizing ds with
  | done a =>
    cases ends
    exact .inl ⟨a, rfl, .done a⟩
  | stop failure =>
    cases failure with
    | failed c =>
      cases ends
      exact .inr (.inl ⟨c, rfl, .stop _⟩)
    | crashed reason =>
      cases ends
      exact .inr (.inr ⟨reason, rfl, .stop _⟩)
  | write _ _ ih | assign _ _ _ ih | pause _ ih =>
    cases ends with
    | _ rest =>
      obtain ⟨a, same, mid⟩ | ⟨c, same, mid⟩ | ⟨reason, same, mid⟩ := ih rest
      · exact .inl ⟨a, same, by constructor; exact mid⟩
      · exact .inr (.inl ⟨c, same, by constructor; exact mid⟩)
      · exact .inr (.inr ⟨reason, same, by constructor; exact mid⟩)
  | read _ ih | check _ ih | fetch _ _ ih | spin _ ih =>
    cases ends with
    | _ rest =>
      obtain ⟨a, same, mid⟩ | ⟨c, same, mid⟩ | ⟨reason, same, mid⟩ := ih _ rest
      · exact .inl ⟨a, same, by constructor; exact mid⟩
      · exact .inr (.inl ⟨c, same, by constructor; exact mid⟩)
      · exact .inr (.inr ⟨reason, same, by constructor; exact mid⟩)

end Program

namespace Calc

/- A call that was active, with the values of the arguments that it had by then. -/
structure Activation where
  form : Sexp
  values : List Sexp
  deriving DecidableEq, Repr

def Activation.frame (a : Activation) : Call :=
  ⟨a.form.print, a.values.mapIdx fun i v => ⟨s!"arg{i}", v.print⟩⟩

/- Why an evaluation stopped, and the calls that it stopped in, innermost first. -/
structure Stopped where
  condition : Condition
  active : List Activation := []
  deriving DecidableEq, Repr

def Stopped.within (s : Stopped) (a : Activation) : Stopped :=
  { s with active := s.active ++ [a] }

def finish (form : Sexp) (name : String) :
    List Sexp × Option Stopped → Program (Except Stopped Sexp)
  | (values, none) => (apply name values).attempt.bind fun
    | .ok v => .done (.ok v)
    | .error c => .done (.error ⟨c, [⟨form, values⟩]⟩)
  | (values, some stopped) => .done (.error (stopped.within ⟨form, values⟩))

mutual
/- The value of a form, or where its evaluation stopped. -/
def reference : Sexp → Program (Except Stopped Sexp)
  | .symbol name =>
    if name = "t" then .done (.ok (.symbol name))
    else .fetch name fun
      | some v => .done (.ok v)
      | none => .done (.error { condition := unbound name })
  | .list items => referenceList items
  | v => .done (.ok v)

def referenceList : List Sexp → Program (Except Stopped Sexp)
  | [] => .done (.ok (.list []))
  | .symbol name :: args => .check fun
    | .error c => .done (.error { condition := c })
    | .ok () =>
      if name = "setq" then referenceAssignment args
      else (referenceAll args).bind (finish (.list (.symbol name :: args)) name)
  | head :: _ => .check fun
    | .error c => .done (.error { condition := c })
    | .ok () => .done (.error { condition := notAFunction head })

def referenceAssignment : List Sexp → Program (Except Stopped Sexp)
  | [.symbol name, form] => (reference form).bind fun
    | .ok v => .assign name v (.done (.ok v))
    | .error stopped => .done (.error stopped)
  | _ => .done (.error { condition := badAssignment })

def referenceAll : List Sexp → Program (List Sexp × Option Stopped)
  | [] => .done ([], none)
  | form :: rest => (reference form).bind fun
    | .ok v => (referenceAll rest).bind fun more => .done (v :: more.1, more.2)
    | .error stopped => .done ([], some stopped)
end

def Activation.call (a : Activation) : ActiveCall := ⟨a.form, a.values.reverse⟩

def settle (outer : List ActiveCall) : Except Stopped Sexp → Program (Sexp × List ActiveCall)
  | .ok v => .done (v, outer)
  | .error s => .signal (trap (s.active.map Activation.call ++ outer) s.condition)

def settleAll (form : Sexp) (values : List Sexp) (outer : List ActiveCall) :
    List Sexp × Option Stopped → Program (List ActiveCall)
  | (more, none) => .done (⟨form, (values ++ more).reverse⟩ :: outer)
  | (more, some s) => .signal (trap (s.active.map Activation.call ++
      ⟨form, (values ++ more).reverse⟩ :: outer) s.condition)

theorem trappingAttempt (calls : List ActiveCall) (p : Program Sexp) :
    trapping calls p = p.attempt.bind (Program.orSignal (trap calls)) := by
  induction p with
  | done a => rfl
  | stop failure => cases failure <;> rfl
  | write text next ih => exact congrArg (Program.write text) ih
  | read next ih => exact congrArg Program.read (funext ih)
  | check next ih => exact congrArg Program.check (funext ih)
  | fetch name next ih => exact congrArg (Program.fetch name) (funext ih)
  | assign name v next ih => exact congrArg (Program.assign name v) ih
  | pause next ih => exact congrArg Program.pause ih
  | spin next ih => exact congrArg Program.spin (funext ih)

theorem applyTopSettles (outer : List ActiveCall) (form : Sexp) (name : String)
    (values : List Sexp) : applyTop name (⟨form, values.reverse⟩ :: outer) =
      (finish form name (values, none)).bind (settle outer) := by
  rw [applyTop, trappingAttempt, finish, Program.bindAssoc, Program.bindAssoc, filed,
    List.reverse_reverse]
  refine congrArg _ (funext fun result => ?_)
  cases result <;> rfl

theorem settleAllFinish (form : Sexp) (name : String) (outer : List ActiveCall) :
    ∀ more, (settleAll form [] outer more).bind (applyTop name) =
      (finish form name more).bind (settle outer)
  | (values, none) => applyTopSettles outer form name values
  | (values, some s) => by
    simp [settleAll, finish, settle, Stopped.within, Activation.call, Program.bind, Program.signal]

mutual
theorem evalReference : ∀ (form : Sexp) (outer : List ActiveCall),
    eval form outer = (reference form).bind (settle outer)
  | .symbol name, outer => by
    rw [eval, reference]
    split
    · rfl
    · refine congrArg (Program.fetch name) (funext fun answer => ?_)
      cases answer <;> rfl
  | .list items, outer => by
    rw [eval, reference]
    exact evalListReference items outer
  | .nil, _ | .int _, _ | .str _, _ | .keyword _, _ => rfl

theorem evalListReference : ∀ (items : List Sexp) (outer : List ActiveCall),
    evalList items outer = (referenceList items).bind (settle outer)
  | [], _ => by
    rw [evalList, referenceList]
    rfl
  | .symbol name :: args, outer => by
    rw [evalList, referenceList]
    refine congrArg Program.check (funext fun answer => ?_)
    cases answer with
    | error c => rfl
    | ok =>
      dsimp only [Program.orSignal, Program.bind]
      split
      · exact evalAssignmentReference args outer
      · have arguments := evalArgumentsReference args outer (.list (.symbol name :: args)) []
        rw [List.reverse_nil] at arguments
        rw [arguments, Program.bindAssoc, Program.bindAssoc]
        exact congrArg _ (funext (settleAllFinish _ name outer))
  | .nil :: _, _ | .int _ :: _, _ | .str _ :: _, _ | .keyword _ :: _, _ | .list _ :: _, _ => by
    simp only [evalList, referenceList]
    refine congrArg Program.check (funext fun answer => ?_)
    cases answer <;> rfl

theorem evalAssignmentReference : ∀ (args : List Sexp) (outer : List ActiveCall),
    evalAssignment args outer = (referenceAssignment args).bind (settle outer)
  | args, outer => by
    unfold evalAssignment
    split
    next name form =>
      rw [referenceAssignment, evalReference form outer, Program.bindAssoc, Program.bindAssoc]
      refine congrArg _ (funext fun result => ?_)
      cases result <;> rfl
    next other =>
      rw [referenceAssignment]
      · rfl
      · exact other

theorem evalArgumentsReference : ∀ (args : List Sexp) (outer : List ActiveCall) (form : Sexp)
    (values : List Sexp), evalArguments args (⟨form, values.reverse⟩ :: outer) =
      (referenceAll args).bind (settleAll form values outer)
  | [], outer, form, values => by
    rw [evalArguments, referenceAll]
    simp [Program.bind, settleAll]
  | arg :: rest, outer, form, values => by
    rw [evalArguments, referenceAll, evalReference arg, Program.bindAssoc, Program.bindAssoc]
    refine congrArg _ (funext fun result => ?_)
    cases result with
    | ok v =>
      -- the value is filed with the call on top before the other arguments are looked at
      have more := evalArgumentsReference rest outer form (values ++ [v])
      simp only [List.reverse_append, List.reverse_cons, List.reverse_nil, List.nil_append,
        List.singleton_append] at more
      dsimp only [settle, Program.bind, file]
      rw [more, Program.bindAssoc]
      refine congrArg _ (funext fun (later, stopped) => ?_)
      cases stopped <;> simp [settleAll, Program.bind]
    | error s => simp [settle, settleAll, Program.bind, Program.signal]
end

end Calc
end RemoteEval
