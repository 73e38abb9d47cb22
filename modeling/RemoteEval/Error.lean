import RemoteEval.Wire.Error
import RemoteEval.Message.Basic

/-!
The errors of a connection and of the requests made over it. Those that concern one request, one
worker or one read leave the connection in service; all others end it.
-/
namespace RemoteEval

inductive Error where
  | wire (error : WireError)
  | io (fault : IoFault)
  | idleTimeout (seconds : Nat)
  | connectionClosed
  | refNotFound (worker : WorkerRef)
  | tagNotFound (worker : WorkerRef) (tag : Tag)
  | request (reason : String)
  | debugMachine (reason : String)
  | desync (reason : String)
  deriving DecidableEq, Repr

namespace Error

def message : Error → String
  | .wire e => e.message
  | .io fault => fault.message
  | .idleTimeout seconds => s!"connection idle for more than {seconds}s"
  | .connectionClosed => "connection closed"
  | .refNotFound worker => s!"no worker {worker}"
  | .tagNotFound worker tag => s!"worker {worker} has no pending read with tag {tag}"
  | .request reason => s!"request failed: {reason}"
  | .debugMachine reason => s!"debugger: {reason}"
  | .desync reason => s!"client state out of sync with server: {reason}"

def isFatal : Error → Bool
  | .refNotFound _ | .tagNotFound .. | .request _ | .debugMachine _ => false
  | .wire _ | .io _ | .idleTimeout _ | .connectionClosed | .desync _ => true

end Error
end RemoteEval
