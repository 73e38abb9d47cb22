import RemoteEval.Registry
import RemoteEval.Wire.Frame
import RemoteEval.Worker.Step

/-!
The server's side of one connection: its workers, the references the client knows them by, and the
requests that have no answer yet. Messages of the client are routed to workers; what workers say is
sent to the client if it fits a frame and the connection is open.

Closing a connection cuts all workers off from their mailboxes and tells them to stop; they unwind
by themselves, and nothing that they say is sent any more.
-/
namespace RemoteEval

abbrev WorkerId := UInt64

inductive ConnectionState where
  | open
  | closing
  | closed
  deriving DecidableEq, Repr

structure Session where
  service : Service
  registry : Registry WorkerId := {}
  workers : Table WorkerId Worker := {}
  inFlight : Table RequestId WorkerRef := {}
  nextWorker : WorkerId := 0
  state : ConnectionState := .open
  writable : Bool := true
  side : Option String := none

namespace Session

def modifyWorker (s : Session) (id : WorkerId) (f : Worker → Worker) : Session :=
  match s.workers.get? id with
  | some w => { s with workers := s.workers.insert id (f w) }
  | none => s

def worker? (s : Session) (ref : WorkerRef) : Option WorkerId :=
  match s.registry.live.get? ref with
  | some id => if (s.workers.get? id).any Worker.attached then some id else none
  | none => none

def transmits (s : Session) (m : Message) : Bool :=
  s.writable && (Frame.ofMessage m).toBool

def settled (s : Session) : Message → Session
  | .returned _ _ id => { s with inFlight := s.inFlight.erase id }
  | _ => s

def send (s : Session) (m : Message) : List Message × Session :=
  (if s.transmits m then [m] else [], s.settled m)

def deliver (s : Session) : Utterance → List Message × Session
  | .message m => s.send m
  | .output text =>
    match s.side with
    | some before => ([], if s.writable then { s with side := some (before ++ text) } else s)
    | none => s.send (.output text)

def deliverAll (s : Session) : List Utterance → List Message × Session
  | [] => ([], s)
  | u :: rest =>
    let (sent, s) := s.deliver u
    let (more, s) := s.deliverAll rest
    (sent ++ more, s)

def spawn (s : Session) (request : Request) : List Message × Session :=
  let id := s.nextWorker
  let (ref, registry) := s.registry.allocate id
  ([.workerAssigned request.id ref],
    { s with
      nextWorker := id + 1
      registry
      workers := s.workers.insert id (.start ref request)
      inFlight := s.inFlight.insert request.id ref })

/-- The reference of a worker that ended is given back. Whoever has it now is cut off, which is
the worker itself unless the connection was closed in between. -/
def release (s : Session) (ref : WorkerRef) : Session :=
  let (holder, registry) := s.registry.release ref
  let s := { s with registry }
  match holder with
  | some id => s.modifyWorker id fun w => { w with attached := false }
  | none => s

def spawnFailed (s : Session) (request : Request) (reason : String) : List Message × Session :=
  let id := s.nextWorker
  let ref := (s.registry.allocate id).1
  let (said, s) := s.spawn request
  let s := s.release ref
  (said ++ [.returned ref (.abort (some s!"spawn worker: {reason}")) request.id],
    { s with workers := s.workers.erase id })

def post (s : Session) (ref : WorkerRef) (f : Worker → Worker) : Except Error Session :=
  match s.worker? ref with
  | some id => .ok (s.modifyWorker id f)
  | none => .error (.refNotFound ref)

def mail (event : Event) (w : Worker) : Worker := { w with mailbox := w.mailbox ++ [event] }

def report (s : Session) : Except Error Session → List Message × Session
  | .ok s => ([], s)
  | .error e => ([.backgroundMessage e.message], s)

def route (s : Session) : Message → List Message × Session
  | .request form package .new id => s.spawn ⟨form, package, id⟩
  | .request form package (.worker ref) id =>
    match s.post ref (mail (.request ⟨form, package, id⟩)) with
    | .ok s => ([], { s with inFlight := s.inFlight.insert id ref })
    | .error e => ([.returned ref (.abort (some e.message)) id], s)
  | .interrupt ref =>
    s.report (s.post ref fun w => mail .wake { w with interrupted := true })
  | .readStringReply ref tag text => s.report (s.post ref (mail (.readReply tag text)))
  | other =>
    ([.backgroundMessage s!"unexpected message :{other.kind} from client ignored"], s)

def dispatch (s : Session) (m : Message) : List Message × Session :=
  let (said, s) := s.route m
  s.deliverAll (said.map .message)

def absorb (s : Session) (id : WorkerId) (t : Turn) : List Message × Session :=
  ({ s with workers := s.workers.insert id t.worker } : Session).deliverAll t.said

def drain (s : Session) (id : WorkerId) : List Message × Session :=
  match s.workers.get? id with
  | some worker =>
    let t : Turn := { worker, globals := [] }
    ({ s with workers := s.workers.erase id } : Session).deliverAll t.retire.said
  | none => ([], s)

/-- One step of one worker; none if it has to wait. With the answer to its outermost request it
leaves: it gives back its reference, and then sees what came in the meantime. -/
def advance (s : Session) (globals : Globals) (id : WorkerId) :
    Option (Globals × List Message × Session) := do
  let w ← s.workers.get? id
  let t ← w.act s.service globals
  let (sent, s) := s.absorb id t
  if t.worker.isFinished then
    let (more, s) := (s.release t.worker.me).drain id
    some (t.globals, sent ++ more, s)
  else some (t.globals, sent, s)

def loseSide (s : Session) : Session := { s with side := none }

def cancel (s : Session) : Session :=
  { s with state := .closing, service := { s.service with cancelled := true } }

def cutOff (s : Session) : Session :=
  s.workers.keys.foldl (fun s id => s.modifyWorker id fun w =>
      if w.attached then { w with interrupted := true, attached := false } else w)
    { s with registry := s.registry.clear, inFlight := {} }

def closeWriter (s : Session) : Session := { s with writable := false, state := .closed }

def shutdown (s : Session) : Session :=
  match s.state with
  | .open => s.cancel.cutOff.closeWriter
  | _ => s

def connect (service : Service) (port : UInt16) : List Message × Session :=
  let features := Message.featureUpdate service.language.features
  if service.config.dedicatedOutput then
    ([.outputChannel port, features], { service, side := some "" })
  else ([features], { service })

end Session
end RemoteEval
