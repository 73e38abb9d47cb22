import RemoteEval.Table
import RemoteEval.Error

/-!
What a client knows about the server's workers. Each worker has a stack of frames, which requests
and debug levels push and their ends pop. The machine does no input or output: it takes calls of
the user and messages of the server, and answers with what is to be sent or done.

A message that does not fit what went before means that the two sides have lost track of each
other. The machine then says so; what it had already changed for that message stays changed.
-/
namespace RemoteEval.Client

structure DebuggerView where
  level : Level
  description : String
  restarts : List RestartView
  backtrace : List FrameView
  deriving DecidableEq, Repr

inductive StackFrame (γ : Type) where
  | evaluating (id : RequestId) (continuation : Option γ)
  | debugging (view : DebuggerView)
  deriving DecidableEq, Repr

inductive FrameKind where
  | idle
  | evaluating (id : RequestId)
  | debugging (level : Level)
  deriving DecidableEq, Repr

def FrameKind.label : FrameKind → String
  | .idle => "Idle"
  | .evaluating id => s!"Evaluating({id})"
  | .debugging level => s!"Debugging({level})"

namespace StackFrame

def kind : StackFrame γ → FrameKind
  | .evaluating id _ => .evaluating id
  | .debugging view => .debugging view.level

def view? : StackFrame γ → Option DebuggerView
  | .debugging view => some view
  | .evaluating .. => none

def isDebugging (f : StackFrame γ) : Bool := f.view?.isSome

end StackFrame

inductive Effect (γ : Type) where
  | returned (worker : Option WorkerRef) (id : RequestId) (value : Outcome) (continuation : Option γ)
  | enterDebugger (worker : WorkerRef) (view : DebuggerView)
  | activateDebugger (worker : WorkerRef) (level : Level)
  | exitDebugger (worker : WorkerRef) (level : Level)
  | debugText (worker : WorkerRef) (text : String)
  | readString (worker : WorkerRef) (tag : Tag)
  | readAborted (worker : WorkerRef) (tag : Tag)
  | output (text : String)
  | features (features : List String)
  | background (text : String)
  | outputChannel (port : UInt16)
  deriving DecidableEq, Repr

inductive Desync where
  | unknownRequest (worker : WorkerRef) (id : RequestId)
  | busyWorker (worker : WorkerRef) (id : RequestId)
  | wrongOwner (id : RequestId) (worker owner : WorkerRef)
  | wrongReturn (id : RequestId) (worker : WorkerRef) (top : FrameKind)
  | unexpectedLevel (worker : WorkerRef) (level : Level) (expected : Nat)
  | idleWorker (worker : WorkerRef)
  | notInnermost (worker : WorkerRef) (level : Level)
  | outsideDebugger (worker : WorkerRef) (level : Level)
  | otherInnermost (worker : WorkerRef) (level innermost : Level)
  | unknownRead (worker : WorkerRef) (tag : Tag)
  | clientMessage (kind : String)
  deriving DecidableEq, Repr

def Desync.message : Desync → String
  | .unknownRequest worker id => s!"worker {worker} assigned to unknown request {id}"
  | .busyWorker worker id => s!"worker {worker} assigned to request {id} while busy"
  | .wrongOwner id worker owner =>
    s!"return for request {id} on worker {worker}, it was sent to worker {owner}"
  | .wrongReturn id worker top =>
    s!"return for request {id} on worker {worker} does not match {top.label}"
  | .unexpectedLevel worker level expected =>
    s!"worker {worker} entered debug level {level}, expected {expected}"
  | .idleWorker worker => s!"debugger entered on idle worker {worker}"
  | .notInnermost worker level =>
    s!"worker {worker} activated level {level} which is not the innermost"
  | .outsideDebugger worker level => s!"worker {worker} left level {level} outside the debugger"
  | .otherInnermost worker level innermost =>
    s!"worker {worker} left level {level}, innermost is {innermost}"
  | .unknownRead worker tag => s!"worker {worker} aborted unknown read {tag}"
  | .clientMessage kind => s!"server sent client message :{kind}"

def Desync.toError (d : Desync) : Error := .desync d.message

structure Machine (γ : Type) where
  busy : Table WorkerRef (List (StackFrame γ)) := {}
  unbound : Table RequestId (Option γ) := {}
  /-- Requests whose debug level closed before they were answered. The server still answers each
  of them, from another prompt or when the worker ends. -/
  orphans : Table RequestId (WorkerRef × Option γ) := {}
  reads : Table (WorkerRef × Tag) Unit := {}
  lastId : RequestId := 0
  deriving DecidableEq, Repr

namespace Machine
variable {γ : Type}

def start : Machine γ := {}

def stack (m : Machine γ) (worker : WorkerRef) : List (StackFrame γ) :=
  (m.busy.get? worker).getD []

def top (m : Machine γ) (worker : WorkerRef) : FrameKind :=
  match m.stack worker with
  | [] => .idle
  | f :: _ => f.kind

def depth (m : Machine γ) (worker : WorkerRef) : Nat := 1 + (m.stack worker).length

def debugLevel (m : Machine γ) (worker : WorkerRef) : Nat :=
  (m.stack worker).countP StackFrame.isDebugging

def debugger (m : Machine γ) (worker : WorkerRef) : Option DebuggerView :=
  (m.stack worker).findSome? StackFrame.view?

def frames (m : Machine γ) (worker : WorkerRef) : List FrameKind :=
  .idle :: (m.stack worker).reverse.map StackFrame.kind

def busyWorkers (m : Machine γ) : List WorkerRef := m.busy.keys

def prompts (m : Machine γ) : List (WorkerRef × Level) :=
  m.busyWorkers.filterMap fun w =>
    match m.top w with
    | .debugging level => some (w, level)
    | _ => none

def pendingReads (m : Machine γ) : List (WorkerRef × Tag) := m.reads.keys

def isIdle (m : Machine γ) : Bool := m.busy.isEmpty && m.unbound.isEmpty && m.orphans.isEmpty

/-- The worker's stack from now on. An empty one is dropped, and the worker's reads with it. -/
def setStack (m : Machine γ) (worker : WorkerRef) (stack : List (StackFrame γ)) : Machine γ :=
  if stack.isEmpty then
    { m with
      busy := m.busy.erase worker
      reads := m.reads.filterKeys fun (w, _) => w != worker }
  else { m with busy := m.busy.insert worker stack }

def evaluate (m : Machine γ) (form package : String) (worker : Option WorkerRef)
    (continuation : Option γ) : Except Error (RequestId × Message) × Machine γ :=
  let id := m.lastId + 1
  match worker with
  | none =>
    (.ok (id, .request form package .new id),
      { m with lastId := id, unbound := m.unbound.insert id continuation })
  | some w =>
    match m.top w with
    | .debugging _ =>
      (.ok (id, .request form package (.worker w) id),
        { m with lastId := id }.setStack w (.evaluating id continuation :: m.stack w))
    | _ => (.error (.request s!"worker {w} is not waiting at a debugger prompt"), m)

def interrupt (_ : Machine γ) (worker : WorkerRef) : Message := .interrupt worker

def returnString (m : Machine γ) (worker : WorkerRef) (tag : Tag) (text : String) :
    Except Error Message × Machine γ :=
  if m.reads.contains (worker, tag) then
    (.ok (.readStringReply worker tag text), { m with reads := m.reads.erase (worker, tag) })
  else (.error (.tagNotFound worker tag), m)

/-- The request that `id` is, taken off its stack. It is the topmost request, and debug levels may
cover it if it is not the outermost one: they are someone else's, as a level that a request opens
closes before it returns. -/
def uncover (id : RequestId) (stack : List (StackFrame γ)) :
    Option (Option γ × List (StackFrame γ)) :=
  let levels := stack.takeWhile StackFrame.isDebugging
  match stack.dropWhile StackFrame.isDebugging with
  | .evaluating top continuation :: below =>
    if top = id ∧ (below ≠ [] ∨ levels = []) then some (continuation, levels ++ below) else none
  | _ => none

def takeRequest (m : Machine γ) (worker : WorkerRef) (id : RequestId) :
    Except Desync (Option WorkerRef × Option γ) × Machine γ :=
  match m.unbound.get? id with
  | some continuation => (.ok (none, continuation), { m with unbound := m.unbound.erase id })
  | none =>
    match m.orphans.get? id with
    | some (owner, continuation) =>
      let m := { m with orphans := m.orphans.erase id }
      if owner = worker then (.ok (some worker, continuation), m)
      else (.error (.wrongOwner id worker owner), m)
    | none =>
      match uncover id (m.stack worker) with
      | some (continuation, rest) => (.ok (some worker, continuation), m.setStack worker rest)
      | none => (.error (.wrongReturn id worker (m.top worker)), m)

def orphan (m : Machine γ) (worker : WorkerRef) (frames : List (StackFrame γ)) : Machine γ :=
  frames.foldl (fun m f =>
    match f with
    | .evaluating id continuation =>
      { m with orphans := m.orphans.insert id (worker, continuation) }
    | .debugging _ => m) m

def closeLevel (m : Machine γ) (worker : WorkerRef) (level : Level) :
    Except Desync Unit × Machine γ :=
  let isRequest (f : StackFrame γ) : Bool := !f.isDebugging
  let stack := m.stack worker
  match stack.dropWhile isRequest with
  | .debugging view :: below =>
    if view.level = level then
      (.ok (), (m.orphan worker (stack.takeWhile isRequest)).setStack worker below)
    else (.error (.otherInnermost worker level view.level), m)
  | _ => (.error (.outsideDebugger worker level), m)

def bind (m : Machine γ) (id : RequestId) (worker : WorkerRef) : Except Desync Unit × Machine γ :=
  match m.unbound.get? id with
  | none => (.error (.unknownRequest worker id), m)
  | some continuation =>
    let m := { m with unbound := m.unbound.erase id }
    if m.busy.contains worker then (.error (.busyWorker worker id), m)
    else (.ok (), m.setStack worker [.evaluating id continuation])

def openLevel (m : Machine γ) (worker : WorkerRef) (view : DebuggerView) :
    Except Desync Unit × Machine γ :=
  let expected := m.debugLevel worker + 1
  if view.level.toNat ≠ expected then (.error (.unexpectedLevel worker view.level expected), m)
  else match m.busy.get? worker with
    | none => (.error (.idleWorker worker), m)
    | some stack => (.ok (), m.setStack worker (.debugging view :: stack))

def continuationFor (value : Outcome) (continuation : Option γ) : Option γ :=
  match value with
  | .ok _ => continuation
  | .abort _ => none

def react (m : Machine γ) : Message → Except Desync (List (Effect γ)) × Machine γ
  | .workerAssigned id worker =>
    let (result, m) := m.bind id worker
    (result.map fun _ => [], m)
  | .returned worker value id =>
    let (result, m) := m.takeRequest worker id
    (result.map fun (worker, continuation) =>
      [.returned worker id value (continuationFor value continuation)], m)
  | .debugEnter worker level description restarts backtrace =>
    let view : DebuggerView := ⟨level, description, restarts, backtrace⟩
    let (result, m) := m.openLevel worker view
    (result.map fun _ => [.enterDebugger worker view], m)
  | .debugActivate worker level =>
    if (m.debugger worker).map DebuggerView.level = some level then
      (.ok [.activateDebugger worker level], m)
    else (.error (.notInnermost worker level), m)
  | .debugReturn worker level =>
    let (result, m) := m.closeLevel worker level
    (result.map fun _ => [.exitDebugger worker level], m)
  | .debugConditionText worker text => (.ok [.debugText worker text], m)
  | .readStringRequest worker tag =>
    (.ok [.readString worker tag], { m with reads := m.reads.insert (worker, tag) () })
  | .readAborted worker tag =>
    if m.reads.contains (worker, tag) then
      (.ok [.readAborted worker tag], { m with reads := m.reads.erase (worker, tag) })
    else (.error (.unknownRead worker tag), m)
  | .output text => (.ok [.output text], m)
  | .featureUpdate features => (.ok [.features features], m)
  | .backgroundMessage text => (.ok [.background text], m)
  | .outputChannel port => (.ok [.outputChannel port], m)
  | message@(.request ..) | message@(.interrupt ..) | message@(.readStringReply ..) =>
    (.error (.clientMessage message.kind), m)

def handle (m : Machine γ) (message : Message) : Except Error (List (Effect γ)) × Machine γ :=
  let (result, m) := m.react message
  (result.mapError Desync.toError, m)

def requestIds (stack : List (StackFrame γ)) : List RequestId :=
  stack.filterMap fun
    | .evaluating id _ => some id
    | .debugging _ => none

def outstanding (m : Machine γ) : List (Option WorkerRef × RequestId) :=
  m.unbound.keys.map (none, ·) ++
  m.busy.toList.flatMap (fun (worker, stack) => (requestIds stack).map (some worker, ·)) ++
  m.orphans.toList.map fun (id, worker, _) => (some worker, id)

def abortAll (m : Machine γ) (reason : String) : List (Effect γ) × Machine γ :=
  (m.outstanding.map fun (worker, id) => .returned worker id (.abort (some reason)) none,
    { lastId := m.lastId })

end Machine
end RemoteEval.Client
