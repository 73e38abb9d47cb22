import RemoteEval.Worker.Basic

/-!
What happens in one turn of a worker: what it says, which levels it opens and closes, and how its
requests end. A turn ends where the worker waits for an event, rests, or is finished.

Closing levels is an ordinary loop over the open levels. Each level that closes is reported, the
request that opened it is answered, and the first prompt that stays open is active again.
-/
namespace RemoteEval

structure Spoken where
  utterance : Utterance
  levels : DebugStack Request

structure Turn where
  worker : Worker
  globals : Globals
  spoken : List Spoken := []

def connectionClosed : String := "connection closed"

namespace Turn

def said (t : Turn) : List Utterance := t.spoken.map Spoken.utterance

def utter (t : Turn) (u : Utterance) : Turn :=
  { t with spoken := t.spoken ++ [⟨u, t.worker.levels⟩] }

def say (t : Turn) (m : Message) : Turn := t.utter (.message m)

def background (t : Turn) (text : String) : Turn := t.say (.backgroundMessage text)

def answer (t : Turn) (value : Outcome) (id : RequestId) : Turn :=
  t.say (.returned t.worker.me value id)

def level (t : Turn) : Nat := DebugStack.level t.worker.levels

def doing (t : Turn) (activity : Activity) : Turn :=
  { t with worker := { t.worker with activity } }

@[simp] theorem utterWorker (t : Turn) (u : Utterance) : (t.utter u).worker = t.worker := rfl

@[simp] theorem sayWorker (t : Turn) (m : Message) : (t.say m).worker = t.worker := rfl

@[simp] theorem answerWorker (t : Turn) (value : Outcome) (id : RequestId) :
    (t.answer value id).worker = t.worker := rfl

@[simp] theorem doingWorker (t : Turn) (activity : Activity) :
    (t.doing activity).worker = { t.worker with activity } := rfl

def staleReply (t : Turn) (tag : Tag) : Turn :=
  t.background (Error.tagNotFound t.worker.me tag).message

def retire (t : Turn) : Turn :=
  let w := t.worker
  let replies := w.mailbox.filterMap fun
    | .readReply tag _ => some tag
    | _ => none
  let requests := w.backlog ++ w.mailbox.filterMap fun
    | .request r => some r
    | _ => none
  let t := replies.foldl staleReply t
  let t := requests.foldl
    (fun t r => t.answer (.abort (some s!"worker {w.me} finished")) r.id) t
  { t with worker := { t.worker with activity := .finished, mailbox := [], backlog := [] } }

def toPrompt (t : Turn) : Turn :=
  let t := t.doing .prompt
  if t.worker.returnedToPrompt then
    let t := t.say (.debugActivate t.worker.me t.level.toUInt64)
    { t with worker := { t.worker with returnedToPrompt := false } }
  else t

def leaveLevel (t : Turn) : Turn :=
  let closing := t.level.toUInt64
  let w := { t.worker with levels := t.worker.levels.tail, returnedToPrompt := true }
  { t with worker := w }.say (.debugReturn w.me closing)

@[simp] theorem leaveLevelWorker (t : Turn) : t.leaveLevel.worker =
    { t.worker with levels := t.worker.levels.tail, returnedToPrompt := true } := rfl

def conclude (t : Turn) (request : Request) (value : Outcome) : Turn :=
  let t := t.answer value request.id
  if t.worker.levels.isEmpty then t.retire else t.toPrompt

/-- The levels close down to number `target`, the innermost first. A request that had opened one
ends with it. -/
def collapse (target : Nat) (reason : Option String) : DebugStack Request → Turn → Turn
  | [], t => t
  | closing :: below, t =>
    let t := t.leaveLevel
    let t := match closing.origin with
      | .evaluation request => t.answer (.abort reason) request.id
      | .prompt => t
    if below.isEmpty then t.retire
    else if target < DebugStack.level below then collapse target reason below t
    else t.toPrompt

def unwind (t : Turn) (request : Request) (target : Nat) (reason : Option String) : Turn :=
  let t := t.answer (.abort reason) request.id
  if t.worker.levels.isEmpty then t.retire
  else if target < t.level then collapse target reason t.worker.levels t
  else t.toPrompt

def check (t : Turn) (s : Service) : Except Condition Unit × Turn :=
  if s.cancelled then (.error .cancelled, t)
  else if t.worker.interrupted then
    (.error .interrupt, { t with worker := { t.worker with interrupted := false } })
  else (.ok (), t)

def frameViews (first : Nat) (descriptions : List String) : List FrameView :=
  descriptions.mapIdx fun i description => ⟨(first + i).toUInt64, description⟩

def machineError (t : Turn) (e : Error) : Turn := t.say (.debugConditionText t.worker.me e.message)

def openLevel (t : Turn) (s : Service) (c : Condition) (origin : Origin Request) : Turn :=
  let levels := DebugStack.enter t.worker.levels c origin
  let t := { t with worker := { t.worker with levels } }.doing .prompt
  let restarts := (offeredRestarts c origin t.level).map OfferedRestart.view
  let enter (frames : List String) : Message :=
    .debugEnter t.worker.me t.level.toUInt64 c.message restarts (frameViews 0 frames)
  match s.language.backtrace c 0 s.config.backtraceLength with
  | .ok frames => t.say (enter frames)
  | .error failure =>
    let reason := failure.text id
    (t.say (enter [])).machineError (.debugMachine s!"backtrace: {reason}")

def trap (t : Turn) (s : Service) (request : Request) (failure : Failure Condition) : Turn :=
  let c := match failure with
    | .failed c => c
    | .crashed reason => .error "RUNTIME-PANIC" (crashText reason)
  if c.isCancelled || s.cancelled then t.unwind request 0 (some connectionClosed)
  else t.openLevel s c (.evaluation request)

def rests (t : Turn) : Pace → Bool
  | .throughRests => false
  | .toRest => true
  | .untilHeard => !t.said.isEmpty

def run (s : Service) (request : Request) : Program Sexp → Turn → Turn
  | .done v, t => t.conclude request (.ok v)
  | .stop failure, t => t.trap s request failure
  | .write text next, t => run s request next (t.utter (.output text))
  | .read next, t =>
    match t.check s with
    | (.error c, t) => run s request (next (.error c)) t
    | (.ok (), t) =>
      let tag := t.worker.lastTag + 1
      let t := { t with worker := { t.worker with lastTag := tag } }
      (t.say (.readStringRequest t.worker.me tag)).doing (.reading request tag next)
  | .check next, t =>
    let (answer, t) := t.check s
    run s request (next answer) t
  | .fetch name next, t => run s request (next (t.globals.fetch name)) t
  | .assign name value next, t =>
    run s request next { t with globals := t.globals.assign name value }
  | .pause next, t => if t.rests s.pace then t.doing (.running request next) else run s request next t
  | .spin next, t =>
    match t.check s with
    | (.error c, t) => run s request (next c) t
    | (.ok (), t) => t.doing (.running request (.spin next))

end Turn
end RemoteEval
