import RemoteEval.Operation
import RemoteEval.Message.Form
import RemoteEval.Worker.Turn

/-!
One step of a worker: it takes the next event that it is waiting for, if there is one, and acts on
it to the end of the turn. At a prompt the requests that came during a read go first.

A worker whose outermost request is answered in a step still has to give its reference back, and
only then turns away what waits for it. Until then more may come.
-/
namespace RemoteEval

inductive Escape where
  | abort (reason : Option String)
  | unwind (target : Nat) (reason : Option String)
  | resolve (action : RestartAction)
  deriving DecidableEq, Repr

namespace Turn

def condition (t : Turn) : Condition :=
  match DebugStack.current? t.worker.levels with
  | some level => level.condition
  | none => .cancelled

def refuse (t : Turn) (e : Error) : Except Escape α × Turn :=
  (.error (.abort (some e.message)), t.machineError e)

def restart (t : Turn) (s : Service) : RestartKind → Except Escape Sexp × Turn
  | .language index =>
    match s.language.invokeRestart t.condition index with
    | .ok action => (.error (.resolve action), t)
    | .error failure =>
      let reason := failure.text Condition.message
      t.refuse (.debugMachine s!"restart {index}: {reason}")
  | .retry => (.error (.resolve .retry), t)
  | .continue => (.error (.resolve (.resume .nil)), t)
  | .unwind target => (.error (.unwind target none), t)

def allFrames : Nat := 18446744073709551615

def backtrace (t : Turn) (s : Service) (first : Nat) (last : Option Nat) :
    Except Escape Sexp × Turn :=
  match s.language.backtrace t.condition first (last.getD allFrames) with
  | .ok frames => (.ok (Sexp.ofItems ((frameViews first frames).map Message.frameSexp)), t)
  | .error failure =>
    let reason := failure.text id
    t.refuse (.debugMachine s!"backtrace: {reason}")

def connectionInfo (s : Service) : Sexp :=
  .list [.keyword "pid", Message.workerSexp s.processId,
    .keyword "version", .str serverVersion,
    .keyword "runtime",
    .list [.keyword "name", .str s.language.name, .keyword "version", .str s.language.version],
    .keyword "features", Sexp.ofItems (s.language.features.map .str),
    .keyword "package", .str s.config.defaultPackage]

def locationSexp (l : Location) : Sexp :=
  .list [.keyword "file", .str l.file, .keyword "line", Message.workerSexp l.line]

def execute (t : Turn) (s : Service) (op : Operation) : Except Escape Sexp × Turn :=
  if op.needsDebugger && t.worker.levels.isEmpty then
    (.error (.abort (some s!"worker {t.worker.me} is not in the debugger")), t)
  else match op with
    | .connectionInfo => (.ok (connectionInfo s), t)
    | .arglist name => (.ok (Sexp.ofString? (s.language.arglist name)), t)
    | .findDefinition name =>
      match s.language.findDefinition name with
      | .ok location => (.ok (locationSexp location), t)
      | .error reason => (.error (.abort (some reason)), t)
    | .backtrace first last => t.backtrace s first last
    | .frameLocals frame =>
      match s.language.locals t.condition frame with
      | .ok bindings =>
        (.ok (Sexp.ofItems (bindings.map fun b => .list [.str b.name, .str b.value])), t)
      | .error failure =>
        let reason := failure.text id
        t.refuse (.debugMachine s!"locals: {reason}")
    | .debuggerInfo first last =>
      match t.backtrace s first last, DebugStack.current? t.worker.levels with
      | (.ok frames, t), some level =>
        (.ok (.list [.keyword "condition", .str level.description,
          .keyword "restarts", Sexp.ofItems (level.restartViews.map Message.restartSexp),
          .keyword "frames", frames]), t)
      | (.ok _, t), none => (.error (.abort none), t)
      | (.error escape, t), _ => (.error escape, t)
    | .invokeRestart level index =>
      match DebugStack.restart t.worker.levels level index with
      | .ok kind => t.restart s kind
      | .error refusal => t.refuse refusal.toError
    | .abort =>
      match DebugStack.abortRestart t.worker.levels with
      | some kind => t.restart s kind
      | none => (.error (.abort none), t)
    | .continue =>
      match DebugStack.findRestart t.worker.levels "CONTINUE" with
      | some kind => t.restart s kind
      | none => (.error (.abort (some "no CONTINUE restart")), t)
    | .throwToToplevel => (.error (.unwind 0 none), t)

def evaluate (t : Turn) (s : Service) (request : Request) : Turn :=
  run s request (s.language.evaluate request.form request.package) t

def resolve (t : Turn) (s : Service) (request : Request) (action : RestartAction) : Turn :=
  let t := t.answer (.abort none) request.id
  match t.worker.levels with
  | [] => t.retire
  | closing :: _ =>
    let t := t.leaveLevel
    match closing.origin, action with
    | .evaluation opener, .resume v => t.conclude opener (.ok v)
    | .evaluation opener, .retry => t.evaluate s opener
    | .prompt, _ => t.toPrompt

def perform (t : Turn) (s : Service) (request : Request) : Turn :=
  match Operation.parse request.form with
  | .error e => t.conclude request (.abort (some e.toError.message))
  | .ok none => t.evaluate s request
  | .ok (some op) =>
    match t.execute s op with
    | (.ok v, t) => t.conclude request (.ok v)
    | (.error (.abort reason), t) => t.conclude request (.abort reason)
    | (.error (.unwind target reason), t) => t.unwind request target reason
    | (.error (.resolve action), t) => t.resolve s request action

def serve (t : Turn) (s : Service) (request : Request) : Turn :=
  { t with worker := { t.worker with returnedToPrompt := false } }.perform s request

def hangUp (t : Turn) : Turn := collapse 0 (some connectionClosed) t.worker.levels t

def promptEvent (t : Turn) (s : Service) : Event → Turn
  | .request request => t.serve s request
  | .readReply tag _ => t.staleReply tag
  | .wake =>
    if s.cancelled then t.hangUp
    else if t.worker.interrupted then
      let w := { t.worker with interrupted := false, returnedToPrompt := false }
      { t with worker := w }.openLevel s .interrupt .prompt
    else t

def readEvent (t : Turn) (s : Service) (request : Request) (tag : Tag)
    (next : Except Condition String → Program Sexp) : Event → Turn
  | .request later =>
    { t with worker := { t.worker with backlog := t.worker.backlog ++ [later] } }
  | .readReply got text => if got = tag then run s request (next (.ok text)) t else t.staleReply got
  | .wake =>
    match t.check s with
    | (.error c, t) => run s request (next (.error c)) (t.say (.readAborted t.worker.me tag))
    | (.ok (), t) => t

end Turn

namespace Worker

/-- The next step, with the globals as they are; none for a worker that is finished or has to wait
for an event. A worker whose mailbox nobody can fill any more does not wait. -/
def step (s : Service) (globals : Globals) (w : Worker) : Option Turn :=
  let t : Turn := { worker := w, globals }
  match w.activity with
  | .finished => none
  | .starting request => some (t.perform s request)
  | .running request (.spin next) =>
    match t.check s with
    | (.error c, t) => some (Turn.run s request (next c) t)
    | (.ok (), _) => none
  | .running request rest => some (Turn.run s request rest t)
  | .prompt =>
    match w.backlog, w.mailbox with
    | request :: later, _ => some ({ t with worker := { w with backlog := later } }.serve s request)
    | [], event :: later =>
      some ({ t with worker := { w with mailbox := later } }.promptEvent s event)
    | [], [] => if w.attached then none else some t.hangUp
  | .reading request tag next =>
    match w.mailbox with
    | event :: later =>
      some ({ t with worker := { w with mailbox := later } }.readEvent s request tag next event)
    | [] => if w.attached then none else some (Turn.run s request (next (.error .cancelled)) t)

def split (w : Worker) : Worker × List Request × List Event :=
  match w.activity, w.backlog, w.mailbox with
  | .prompt, request :: later, events =>
    ({ w with backlog := [request], mailbox := [] }, later, events)
  | .prompt, [], event :: later => ({ w with mailbox := [event] }, [], later)
  | .reading .., requests, event :: later =>
    ({ w with backlog := [], mailbox := [event] }, requests, later)
  | _, requests, events => ({ w with backlog := [], mailbox := [] }, requests, events)

def rejoin (w : Worker) (requests : List Request) (events : List Event) : Worker :=
  { w with backlog := requests ++ w.backlog, mailbox := w.mailbox ++ events }

/-- The next step, up to the answer to the outermost request if that is how it ends. What the step
does not take waits on, whether or not the worker is finished. -/
def act (s : Service) (globals : Globals) (w : Worker) : Option Turn :=
  let (alone, requests, events) := w.split
  (alone.step s globals).map fun t => { t with worker := t.worker.rejoin requests events }

def workload (w : Worker) : Nat :=
  2 * w.mailbox.length + w.backlog.length + w.levels.length + 2

end Worker
end RemoteEval
