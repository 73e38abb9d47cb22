import RemoteEval.Sexp.Printer
import RemoteEval.Message.Basic

/-!
Messages as s-expressions: a list headed by a keyword, with a fixed number of arguments. `toSexp`
writes one and `ofSexp` reads one back. The reader refuses what the writer never writes for an
admissible message: numbers out of range, arguments missing or left over, an unknown head.

Numbers of 64 bits without sign are written as the signed integer of the same bits.
-/
namespace RemoteEval

inductive Wanted where
  | string
  | unsigned
  | level
  | worker
  | list
  | outcome
  deriving DecidableEq, Repr

def Wanted.description : Wanted → String
  | .string => "a string"
  | .unsigned => "a non-negative integer"
  | .level => "a positive debug level"
  | .worker => "a worker reference"
  | .list => "a list"
  | .outcome => "(:ok ..) or (:abort ..)"

inductive Malformed where
  | notNonEmptyList (got : Sexp)
  | noKeyword (got : Sexp)
  | unknownKind (name : String)
  | missing (kind : String) (argument : Nat)
  | wrong (kind : String) (argument : Nat) (wanted : Wanted) (got : Sexp)
  | trailing (kind : String) (rest : List Sexp)
  | notList (got : Sexp)
  | featureNotString (got : Sexp)
  | portOutOfRange
  deriving DecidableEq, Repr

def Malformed.message : Malformed → String
  | .notNonEmptyList got => s!"expected a non-empty list, got {got}"
  | .noKeyword got => s!"message must start with a keyword: {got}"
  | .unknownKind name => s!"unknown message kind :{name}"
  | .missing kind argument => s!"{kind}: missing argument {argument}"
  | .wrong kind argument wanted got =>
    s!"{kind}: argument {argument} must be {wanted.description}, got {got}"
  | .trailing kind rest =>
    s!"{kind}: unexpected trailing arguments " ++ Sexp.writeItems "" rest
  | .notList got => s!"expected a list, got {got}"
  | .featureNotString got => s!"feature must be a string: {got}"
  | .portOutOfRange => "port out of range"

/-- The arguments of a message or of a part of one: those still to be taken, and how many were. -/
structure Arguments where
  kind : String
  rest : List Sexp
  taken : Nat := 0

abbrev Taking := StateT Arguments (Except Malformed)

namespace Taking

def next (wanted : Wanted) (f : Sexp → Option α) : Taking α := fun args =>
  match args.rest with
  | [] => .error (.missing args.kind (args.taken + 1))
  | v :: rest =>
    match f v with
    | some a => .ok (a, { args with rest := rest, taken := args.taken + 1 })
    | none => .error (.wrong args.kind (args.taken + 1) wanted v)

def string : Taking String := next .string Sexp.str?

def unsigned : Taking UInt64 :=
  next .unsigned fun v => v.int?.bind fun i => if 0 ≤ i then some i.toUInt64 else none

def level : Taking Level :=
  next .level fun v => v.int?.bind fun i => if 0 < i then some i.toUInt64 else none

def worker : Taking WorkerRef :=
  next .worker fun v => v.int?.bind fun i =>
    if 0 < i ∧ i ≤ 4294967295 then some i.toUInt64.toUInt32 else none

def target : Taking Target := fun args =>
  match args.rest with
  | .keyword "new" :: rest => .ok (.new, { args with rest := rest, taken := args.taken + 1 })
  | _ => (Target.worker <$> worker) args

def list : Taking (List Sexp) := next .list Sexp.items?

def outcome : Taking Outcome :=
  next .outcome fun
    | .list [.keyword "ok", value] => some (.ok value)
    | .list [.keyword "abort", .nil] => some (.abort none)
    | .list [.keyword "abort", .str reason] => some (.abort (some reason))
    | _ => none

def done : Taking Unit := fun args =>
  if args.rest.isEmpty then .ok ((), args) else .error (.trailing args.kind args.rest)

def port : Taking UInt16 := do
  let n ← unsigned
  if n ≤ 65535 then pure n.toUInt16 else throw .portOutOfRange

def run (kind : String) (args : List Sexp) (body : Taking α) : Except Malformed α :=
  (do let a ← body; done; pure a : Taking α).run' ⟨kind, args, 0⟩

def entry (kind : String) (body : Taking α) (v : Sexp) : Except Malformed α :=
  match v.items? with
  | some items => run kind items body
  | none => .error (.notList v)

def restarts : Taking (List RestartView) := do
  (← list).mapM fun v => entry "restart" (RestartView.mk <$> string <*> string) v

def frames : Taking (List FrameView) := do
  (← list).mapM fun v => entry "frame" (FrameView.mk <$> unsigned <*> string) v

def features : Taking (List String) := do
  (← list).mapM fun
    | .str s => pure s
    | v => throw (Malformed.featureNotString v)

def body (head : String) : Option (Taking Message) :=
  match head with
  | "rex" => some (Message.request <$> string <*> string <*> target <*> unsigned)
  | "interrupt" => some (Message.interrupt <$> worker)
  | "return-string" => some (Message.readStringReply <$> worker <*> unsigned <*> string)
  | "worker-assigned" => some (Message.workerAssigned <$> unsigned <*> worker)
  | "return" => some (Message.returned <$> worker <*> outcome <*> unsigned)
  | "debug" =>
    some (Message.debugEnter <$> worker <*> level <*> string <*> restarts <*> frames)
  | "debug-activate" => some (Message.debugActivate <$> worker <*> level)
  | "debug-return" => some (Message.debugReturn <$> worker <*> level)
  | "debug-condition" => some (Message.debugConditionText <$> worker <*> string)
  | "read-string" => some (Message.readStringRequest <$> worker <*> unsigned)
  | "read-aborted" => some (Message.readAborted <$> worker <*> unsigned)
  | "write-string" => some (Message.output <$> string)
  | "new-features" => some (Message.featureUpdate <$> features)
  | "background-message" => some (Message.backgroundMessage <$> string)
  | "output-channel" => some (Message.outputChannel <$> port)
  | _ => none

end Taking

namespace Message

def ofSexp (v : Sexp) : Except Malformed Message :=
  match v with
  | .list (.keyword head :: args) =>
    match Taking.body head with
    | some body => Taking.run head args body
    | none => .error (.unknownKind head)
  | .list (_ :: _) => .error (.noKeyword v)
  | _ => .error (.notNonEmptyList v)

def word (n : UInt64) : Sexp := .int n.toInt64

def workerSexp (w : WorkerRef) : Sexp := word w.toUInt64

def targetSexp : Target → Sexp
  | .new => .keyword "new"
  | .worker w => workerSexp w

def outcomeSexp : Outcome → Sexp
  | .ok value => .list [.keyword "ok", value]
  | .abort reason => .list [.keyword "abort", Sexp.ofString? reason]

def restartSexp (r : RestartView) : Sexp := .list [.str r.name, .str r.description]

def frameSexp (f : FrameView) : Sexp := .list [word f.index, .str f.description]

def head : Message → String
  | .request .. => "rex"
  | .interrupt .. => "interrupt"
  | .readStringReply .. => "return-string"
  | .workerAssigned .. => "worker-assigned"
  | .returned .. => "return"
  | .debugEnter .. => "debug"
  | .debugActivate .. => "debug-activate"
  | .debugReturn .. => "debug-return"
  | .debugConditionText .. => "debug-condition"
  | .readStringRequest .. => "read-string"
  | .readAborted .. => "read-aborted"
  | .output .. => "write-string"
  | .featureUpdate .. => "new-features"
  | .backgroundMessage .. => "background-message"
  | .outputChannel .. => "output-channel"

def arguments : Message → List Sexp
  | .request form package target id => [.str form, .str package, targetSexp target, word id]
  | .interrupt w => [workerSexp w]
  | .readStringReply w tag text => [workerSexp w, word tag, .str text]
  | .workerAssigned id w => [word id, workerSexp w]
  | .returned w value id => [workerSexp w, outcomeSexp value, word id]
  | .debugEnter w level description restarts backtrace =>
    [workerSexp w, word level, .str description,
      Sexp.ofItems (restarts.map restartSexp), Sexp.ofItems (backtrace.map frameSexp)]
  | .debugActivate w level | .debugReturn w level => [workerSexp w, word level]
  | .debugConditionText w text => [workerSexp w, .str text]
  | .readStringRequest w tag | .readAborted w tag => [workerSexp w, word tag]
  | .output text | .backgroundMessage text => [.str text]
  | .featureUpdate features => [Sexp.ofItems (features.map .str)]
  | .outputChannel port => [word port.toUInt64]

def toSexp (m : Message) : Sexp := .list (.keyword m.head :: m.arguments)

def print (m : Message) : String := m.toSexp.print

end Message
end RemoteEval
