import RemoteEval.Text.Quoted
import RemoteEval.Sexp.Reader
import RemoteEval.Language.Basic
import RemoteEval.Calc.Builtin

/-!
The calculator language. A form is an atom, which has a value of its own, a global variable, an
assignment `(setq name value)`, or a function call, whose arguments are evaluated from left to
right. Before each call there is a safe point.

The calls in progress are on a stack of their own, innermost first. A call is pushed when its
arguments are about to be evaluated, each value is filed with the call on top, and the call is popped
once it has a value. An evaluation that stops leaves the stack as it is, and the condition takes from
it the frames that it has.
-/
namespace RemoteEval.Calc

structure ActiveCall where
  form : Sexp
  arguments : List Sexp := []
  deriving DecidableEq, Repr

def ActiveCall.frame (call : ActiveCall) : Call :=
  ⟨call.form.print, call.arguments.reverse.mapIdx fun i v => ⟨s!"arg{i}", v.print⟩⟩

/-- The condition with the calls in progress as its frames, unless it has frames already. A
cancelled evaluation is not looked at any more and has none. -/
def trap (calls : List ActiveCall) (c : Condition) : Condition :=
  if c.frames.isEmpty && !c.isCancelled then { c with frames := calls.map ActiveCall.frame } else c

def unbound (name : String) : Condition :=
  ((Condition.error "UNBOUND-VARIABLE" s!"The variable {name} is unbound.").withRestart
    "RETRY" s!"Retry using {name}.").withRestart "USE-VALUE" "Use 0 as the value of the form."

def notAFunction (head : Sexp) : Condition :=
  .error "PROGRAM-ERROR" s!"{head} is not a function name"

def badAssignment : Condition := .error "PROGRAM-ERROR" "setq expects a variable name and a value"

def checkpoint (calls : List ActiveCall) : Program Unit :=
  .check (Program.orSignal (trap calls))

def trapping (calls : List ActiveCall) : Program α → Program α
  | .done a => .done a
  | .stop (.failed c) => .signal (trap calls c)
  | .stop (.crashed reason) => .stop (.crashed reason)
  | .write text next => .write text (trapping calls next)
  | .read next => .read fun answer => trapping calls (next answer)
  | .check next => .check fun answer => trapping calls (next answer)
  | .fetch name next => .fetch name fun answer => trapping calls (next answer)
  | .assign name value next => .assign name value (trapping calls next)
  | .pause next => .pause (trapping calls next)
  | .spin next => .spin fun c => trapping calls (next c)

def file (v : Sexp) : List ActiveCall → List ActiveCall
  | [] => []
  | call :: outer => { call with arguments := v :: call.arguments } :: outer

def filed : List ActiveCall → List Sexp
  | [] => []
  | call :: _ => call.arguments.reverse

def applyTop (name : String) (calls : List ActiveCall) : Program (Sexp × List ActiveCall) :=
  (trapping calls (apply name (filed calls))).bind fun v => .done (v, calls.tail)

mutual
def eval : Sexp → List ActiveCall → Program (Sexp × List ActiveCall)
  | .symbol name, calls =>
    if name = "t" then .done (.symbol name, calls)
    else .fetch name fun
      | some v => .done (v, calls)
      | none => .signal (trap calls (unbound name))
  | .list items, calls => evalList items calls
  | v, calls => .done (v, calls)

def evalList : List Sexp → List ActiveCall → Program (Sexp × List ActiveCall)
  | [], calls => .done (.list [], calls)
  | .symbol name :: args, calls => (checkpoint calls).bind fun _ =>
    if name = "setq" then evalAssignment args calls
    else (evalArguments args (⟨.list (.symbol name :: args), []⟩ :: calls)).bind (applyTop name)
  | head :: _, calls => (checkpoint calls).bind fun _ => .signal (trap calls (notAFunction head))

def evalAssignment : List Sexp → List ActiveCall → Program (Sexp × List ActiveCall)
  | [.symbol name, form], calls => (eval form calls).bind fun (v, calls) =>
    .assign name v (.done (v, calls))
  | _, calls => .signal (trap calls badAssignment)

def evalArguments : List Sexp → List ActiveCall → Program (List ActiveCall)
  | [], calls => .done calls
  | arg :: rest, calls => (eval arg calls).bind fun (v, calls) => evalArguments rest (file v calls)
end

def evaluate (form _package : String) : Program Sexp :=
  match Sexp.read form with
  | .ok v => (eval v []).bind fun (v, _) => .done v
  | .error e => .signal (.error "READER-ERROR" s!"read {Text.quoted form}: {e.message}")

def invokeRestart (c : Condition) (index : Nat) : Except (Failure Condition) RestartAction :=
  match c.restarts[index]? with
  | none => .error (.failed (.error "CONTROL-ERROR" s!"no restart {index} for {c.type}"))
  | some restart =>
    match restart.name with
    | "RETRY" => .ok .retry
    | "USE-VALUE" => .ok (.resume (.int 0))
    | "CONTINUE" => .ok (.resume .nil)
    | other => .error (.failed (.error "CONTROL-ERROR" s!"restart {other} is not supported"))

def findDefinition (name : String) : Except String Location :=
  match builtins.findIdx? (·.1 == name) with
  | some i => .ok ⟨"<calc builtins>", (i + 1).toUInt32⟩
  | none => .error s!"no definition for {name}"

def language : Language where
  name := "calc"
  version := "0.1.0"
  features := ["calc", "integers"]
  evaluate := evaluate
  invokeRestart := invokeRestart
  arglist := fun name => builtins.lookup name
  findDefinition := findDefinition

end RemoteEval.Calc
