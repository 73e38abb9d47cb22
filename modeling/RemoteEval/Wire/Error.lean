import RemoteEval.Text.Utf8

/-!
What can go wrong on a stream of frames. There is no marker to find the next frame by, so each of
these errors ends the stream it occurs on.
-/
namespace RemoteEval

inductive IoFault where
  | interrupted
  | wouldBlock
  | timedOut
  | reset
  | unexpectedEnd
  deriving DecidableEq, Repr

def IoFault.message : IoFault → String
  | .interrupted => "operation interrupted"
  | .wouldBlock => "operation would block"
  | .timedOut => "timed out"
  | .reset => "connection reset"
  | .unexpectedEnd => "unexpected end of file"

inductive WireError where
  | truncatedHeader (got : Nat)
  | truncatedPayload (expected got : Nat)
  | tooLarge (size : Nat)
  | notUtf8 (fault : Text.Utf8.Fault)
  | unreadable (reason : String)
  | malformed (reason : String)
  | io (fault : IoFault)
  deriving DecidableEq, Repr

namespace WireError

def message : WireError → String
  | .truncatedHeader got => s!"frame header truncated after {got} of 3 bytes"
  | .truncatedPayload expected got =>
    s!"frame payload truncated: expected {expected} bytes, got {got}"
  | .tooLarge size => s!"payload of {size} bytes exceeds the frame limit"
  | .notUtf8 fault => s!"payload is not valid utf-8: {fault.message}"
  | .unreadable reason => s!"payload syntax: {reason}"
  | .malformed reason => s!"malformed message: {reason}"
  | .io fault => fault.message

def isTimeout : WireError → Bool
  | .io .wouldBlock | .io .timedOut => true
  | _ => false

end WireError
end RemoteEval
