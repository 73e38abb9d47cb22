import RemoteEval.Client.Machine
import RemoteEval.Wire.Source

/-!
A client's connection: the state machine, the bytes that have come, and whether the connection
stands. What happens is reported to the user by callbacks, in order. Any error ends the connection,
and so does the end of the stream: all requests without an answer are then reported as aborted, and
last of all the end itself is.
-/
namespace RemoteEval.Client

inductive Callback (γ : Type) where
  | continued (continuation : γ) (value : Sexp)
  | returned (worker : Option WorkerRef) (id : RequestId) (value : Outcome)
  | debugEnter (worker : WorkerRef) (view : DebuggerView)
  | debugActivate (worker : WorkerRef) (level : Level)
  | debugReturn (worker : WorkerRef) (level : Level)
  | debugText (worker : WorkerRef) (text : String)
  | readString (worker : WorkerRef) (tag : Tag)
  | readAborted (worker : WorkerRef) (tag : Tag)
  | output (text : String)
  | features (features : List String)
  | background (text : String)
  | outputChannel (port : UInt16)
  | disconnected (error : Option Error)
  deriving DecidableEq, Repr

def Effect.callbacks : Effect γ → List (Callback γ)
  | .returned worker id value continuation =>
    (match continuation, value with
      | some k, .ok v => [.continued k v]
      | _, _ => []) ++ [.returned worker id value]
  | .enterDebugger worker view => [.debugEnter worker view]
  | .activateDebugger worker level => [.debugActivate worker level]
  | .exitDebugger worker level => [.debugReturn worker level]
  | .debugText worker text => [.debugText worker text]
  | .readString worker tag => [.readString worker tag]
  | .readAborted worker tag => [.readAborted worker tag]
  | .output text => [.output text]
  | .features names => [.features names]
  | .background text => [.background text]
  | .outputChannel port => [.outputChannel port]

structure Connection (γ : Type) where
  machine : Machine γ := .start
  connected : Bool := true
  features : List String := []
  received : List UInt8 := []

namespace Connection
variable {γ : Type}

def send (c : Connection γ) (m : Message) : Except Error Unit :=
  if c.connected then
    match Frame.ofMessage m with
    | .ok _ => .ok ()
    | .error e => .error (.wire e)
  else .error .connectionClosed

/-- A new request: its number and the message that went out. The machine has taken note of a
request by the time it turns out that it does not fit a frame. -/
def evaluate (c : Connection γ) (form package : String) (worker : Option WorkerRef)
    (continuation : Option γ) : Except Error (RequestId × Message) × Connection γ :=
  if c.connected then
    match c.machine.evaluate form package worker continuation with
    | (.error e, machine) => (.error e, { c with machine })
    | (.ok (id, m), machine) => ((c.send m).map fun _ => (id, m), { c with machine })
  else (.error .connectionClosed, c)

def interrupt (c : Connection γ) (worker : WorkerRef) : Except Error Message :=
  let m := c.machine.interrupt worker
  (c.send m).map fun _ => m

def returnString (c : Connection γ) (worker : WorkerRef) (tag : Tag) (text : String) :
    Except Error Message × Connection γ :=
  match c.machine.returnString worker tag text with
  | (.error e, machine) => (.error e, { c with machine })
  | (.ok m, machine) => ((c.send m).map fun _ => m, { c with machine })

def noteFeatures (features : List String) : List (Effect γ) → List String
  | [] => features
  | .features fs :: rest => noteFeatures fs rest
  | _ :: rest => noteFeatures features rest

def disconnect (c : Connection γ) (error : Option Error) : List (Callback γ) × Connection γ :=
  let (effects, machine) := c.machine.abortAll "connection closed"
  (effects.flatMap Effect.callbacks ++ [.disconnected error],
    { c with machine, connected := false, received := [] })

def handle (c : Connection γ) (m : Message) : List (Callback γ) × Connection γ :=
  match c.machine.handle m with
  | (.ok effects, machine) =>
    (effects.flatMap Effect.callbacks,
      { c with machine, features := noteFeatures c.features effects })
  | (.error e, machine) => { c with machine }.disconnect (some e)

def handleFrames (c : Connection γ) (bytes : List UInt8) : List (Callback γ) × Connection γ :=
  if c.connected then
    match _h : Frame.first? bytes with
    | none => ([], { c with received := bytes })
    | some (payload, rest) =>
      match Frame.decodePayload payload with
      | .error e => c.disconnect (some (.wire e))
      | .ok m =>
        let (callbacks, c) := c.handle m
        let (more, c) := c.handleFrames rest
        (callbacks ++ more, c)
  else ([], c)
termination_by bytes.length
decreasing_by exact Frame.firstShorter _h

def receive (c : Connection γ) (bytes : List UInt8) : List (Callback γ) × Connection γ :=
  { c with received := [] }.handleFrames (c.received ++ bytes)

def receiveEnd (c : Connection γ) : List (Callback γ) × Connection γ :=
  if c.connected then
    match Source.ending c.received with
    | .ok () => c.disconnect none
    | .error e => c.disconnect (some (.wire e))
  else ([], c)

def close (c : Connection γ) : List (Callback γ) × Connection γ := c.receiveEnd

end Connection
end RemoteEval.Client
