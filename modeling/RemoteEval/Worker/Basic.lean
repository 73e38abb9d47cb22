import RemoteEval.Language.Basic
import RemoteEval.Config.Basic
import RemoteEval.Debugger.Stack

/-!
Workers. A worker serves one outermost request; while it waits at a debugger prompt it serves the
nested requests that are sent to it, one at a time and in the order in which they came. Its state
is plain data, the evaluation in progress included, and it moves only when it is told to.
-/
namespace RemoteEval

structure Request where
  form : String
  package : String
  id : RequestId
  deriving DecidableEq, Repr

inductive Event where
  | request (request : Request)
  | readReply (tag : Tag) (text : String)
  | wake
  deriving DecidableEq, Repr

inductive Utterance where
  | message (message : Message)
  | output (text : String)
  deriving DecidableEq, Repr

inductive Activity where
  | starting (request : Request)
  | running (request : Request) (rest : Program Sexp)
  | reading (request : Request) (tag : Tag) (next : Except Condition String → Program Sexp)
  | prompt
  | finished

structure Worker where
  me : WorkerRef
  activity : Activity
  levels : DebugStack Request := []
  mailbox : List Event := []
  attached : Bool := true
  backlog : List Request := []
  interrupted : Bool := false
  lastTag : Tag := 0
  /-- A level above the prompt closed since the prompt last took a request. -/
  returnedToPrompt : Bool := false

namespace Worker

def start (me : WorkerRef) (request : Request) : Worker := { me, activity := .starting request }

def isFinished (w : Worker) : Bool :=
  match w.activity with
  | .finished => true
  | _ => false

end Worker

inductive Pace where
  | throughRests
  | toRest
  | untilHeard
  deriving DecidableEq, Repr

structure Service where
  language : Language
  config : Config := {}
  processId : UInt32 := 0
  cancelled : Bool := false
  pace : Pace := .throughRests

def serverVersion : String := "0.1.0"

end RemoteEval
