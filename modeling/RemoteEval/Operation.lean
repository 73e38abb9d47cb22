import RemoteEval.Sexp.Reader
import RemoteEval.Error

/-!
Operations that a server performs itself. A form that reads as a list headed by a symbol that
starts with `slink:` is one of them, or a mistake; all other text is a program.
-/
namespace RemoteEval

inductive Operation where
  | connectionInfo
  | arglist (name : String)
  | findDefinition (name : String)
  | backtrace (first : Nat) (last : Option Nat)
  | frameLocals (frame : Nat)
  | debuggerInfo (first : Nat) (last : Option Nat)
  | invokeRestart (level index : Nat)
  | abort
  | continue
  | throwToToplevel
  deriving DecidableEq, Repr

inductive OperationError where
  | unknown (name : String)
  | badArguments (name : String)
  deriving DecidableEq, Repr

def OperationError.message : OperationError → String
  | .unknown name => s!"unknown operation slink:{name}"
  | .badArguments name => s!"bad arguments for slink:{name}"

def OperationError.toError (e : OperationError) : Error := .request e.message

namespace Operation

def name : Operation → String
  | .connectionInfo => "connection-info"
  | .arglist _ => "arglist"
  | .findDefinition _ => "find-definition"
  | .backtrace .. => "backtrace"
  | .frameLocals _ => "frame-locals"
  | .debuggerInfo .. => "debugger-info"
  | .invokeRestart .. => "invoke-restart"
  | .abort => "abort"
  | .continue => "continue"
  | .throwToToplevel => "throw-to-toplevel"

def needsDebugger : Operation → Bool
  | .connectionInfo | .arglist _ | .findDefinition _ => false
  | _ => true

def index? (v : Sexp) : Option Nat :=
  v.int?.bind fun i => if 0 ≤ i then some i.toInt.toNat else none

def range? : List Sexp → Option (Nat × Option Nat)
  | [] => some (0, none)
  | [first] => (index? first).map (·, none)
  | [first, .nil] => (index? first).map (·, none)
  | [first, last] => do some (← index? first, some (← index? last))
  | _ => none

/-- The operation of this name with these arguments; the outer option is none for a name that no
operation has, the inner one for arguments that this operation does not take. -/
def ofParts? (name : String) (args : List Sexp) : Option (Option Operation) :=
  match name with
  | "connection-info" => some (if args.isEmpty then some .connectionInfo else none)
  | "arglist" => some (match args with
    | [.str name] => some (.arglist name)
    | _ => none)
  | "find-definition" => some (match args with
    | [.str name] => some (.findDefinition name)
    | _ => none)
  | "backtrace" => some ((range? args).map fun (first, last) => .backtrace first last)
  | "debugger-info" => some ((range? args).map fun (first, last) => .debuggerInfo first last)
  | "frame-locals" => some (match args with
    | [frame] => (index? frame).map .frameLocals
    | _ => none)
  | "invoke-restart" => some (match args with
    | [level, index] => do some (.invokeRestart (← index? level) (← index? index))
    | _ => none)
  | "abort" => some (if args.isEmpty then some .abort else none)
  | "continue" => some (if args.isEmpty then some .continue else none)
  | "throw-to-toplevel" => some (if args.isEmpty then some .throwToToplevel else none)
  | _ => none

def unmarked? (symbol : String) : Option String :=
  match symbol.toList with
  | 's' :: 'l' :: 'i' :: 'n' :: 'k' :: ':' :: name => some (String.ofList name)
  | _ => none

def parse (form : String) : Except OperationError (Option Operation) :=
  match Sexp.read form with
  | .ok (.list (.symbol symbol :: args)) =>
    match unmarked? symbol with
    | none => .ok none
    | some name =>
      match ofParts? name args with
      | none => .error (.unknown name)
      | some none => .error (.badArguments name)
      | some (some op) => .ok (some op)
  | _ => .ok none

end Operation
end RemoteEval
