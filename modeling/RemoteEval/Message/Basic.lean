import RemoteEval.Sexp.Basic

/-!
The messages that a client and a server exchange. A client sends requests, interrupts and replies
to reads; all else comes from the server. Requests are numbered by the client, workers by the
server; levels number the debuggers open in one worker, tags the reads of one worker.
-/
namespace RemoteEval

abbrev WorkerRef := UInt32
abbrev RequestId := UInt64
abbrev Tag := UInt64
abbrev Level := UInt64

inductive Target where
  | new
  | worker (ref : WorkerRef)
  deriving DecidableEq, Repr

inductive Outcome where
  | ok (value : Sexp)
  | abort (reason : Option String)
  deriving DecidableEq, Repr

structure RestartView where
  name : String
  description : String
  deriving DecidableEq, Repr

structure FrameView where
  index : UInt64
  description : String
  deriving DecidableEq, Repr

inductive Message where
  | request (form package : String) (target : Target) (id : RequestId)
  | interrupt (worker : WorkerRef)
  | readStringReply (worker : WorkerRef) (tag : Tag) (text : String)
  | workerAssigned (id : RequestId) (worker : WorkerRef)
  | returned (worker : WorkerRef) (value : Outcome) (id : RequestId)
  | debugEnter (worker : WorkerRef) (level : Level) (description : String)
      (restarts : List RestartView) (backtrace : List FrameView)
  | debugActivate (worker : WorkerRef) (level : Level)
  | debugReturn (worker : WorkerRef) (level : Level)
  | debugConditionText (worker : WorkerRef) (text : String)
  | readStringRequest (worker : WorkerRef) (tag : Tag)
  | readAborted (worker : WorkerRef) (tag : Tag)
  | output (text : String)
  | featureUpdate (features : List String)
  | backgroundMessage (text : String)
  | outputChannel (port : UInt16)
  deriving DecidableEq, Repr

def Message.kind : Message → String
  | .request .. => "request"
  | .interrupt .. => "interrupt"
  | .readStringReply .. => "read-string-reply"
  | .workerAssigned .. => "worker-assigned"
  | .returned .. => "return"
  | .debugEnter .. => "debug-enter"
  | .debugActivate .. => "debug-activate"
  | .debugReturn .. => "debug-return"
  | .debugConditionText .. => "debug-condition-text"
  | .readStringRequest .. => "read-string-request"
  | .readAborted .. => "read-aborted"
  | .output .. => "output"
  | .featureUpdate .. => "feature-update"
  | .backgroundMessage .. => "background-message"
  | .outputChannel .. => "output-channel"

end RemoteEval
