import RemoteEval.Language.Program

/-!
A language that a server serves. The server evaluates nothing itself: evaluation, restarts,
backtraces and questions about names all go to the language.
-/
namespace RemoteEval

inductive RestartAction where
  | resume (value : Sexp)
  | retry
  deriving DecidableEq, Repr

structure Location where
  file : String
  line : UInt32
  deriving DecidableEq, Repr

def Condition.backtrace (c : Condition) (first last : Nat) : List String :=
  ((c.frames.take last).drop first).map Call.description

def Condition.locals (c : Condition) (frame : Nat) : Except String (List Binding) :=
  match c.frames[frame]? with
  | some call => .ok call.locals
  | none => .error s!"no frame {frame}"

structure Language where
  name : String
  version : String
  features : List String := []
  evaluate : (form package : String) → Program Sexp
  backtrace : Condition → (first last : Nat) → Except (Failure String) (List String) :=
    fun c first last => .ok (c.backtrace first last)
  locals : Condition → (frame : Nat) → Except (Failure String) (List Binding) :=
    fun c frame => (c.locals frame).mapError .failed
  invokeRestart : Condition → (index : Nat) → Except (Failure Condition) RestartAction
  arglist : (name : String) → Option String
  findDefinition : (name : String) → Except String Location

end RemoteEval
