import RemoteEval.Wire.Source
import RemoteEval.Session.Basic

/-!
A connection served step by step: bytes of the client in, messages of the server out. All messages
that have come are dispatched before any worker moves; then workers move, the oldest first, until
each of them waits for the client or is gone.

If an answer of a certain length is wanted, evaluations are not run through their rests: they go on
only as long as too little has been said, and stay in the middle otherwise.
-/
namespace RemoteEval

structure Serving where
  session : Session
  received : List UInt8 := []
  unseen : List Message := []
  ending : Option (Except Error Unit) := none

namespace Serving

def pushed (c : Serving) (sent : List Message) (s : Session) : Serving :=
  { c with session := s, unseen := c.unseen ++ sent }

def opening (service : Service) (port : UInt16) : Serving :=
  let (sent, session) := Session.connect service port
  { session, unseen := sent }

def finish (c : Serving) (ending : Except Error Unit) : Serving :=
  { c with session := c.session.shutdown, ending := some ending, received := [] }

def dispatchFrames (c : Serving) (bytes : List UInt8) : Serving :=
  match _h : Frame.first? bytes with
  | none => { c with received := bytes }
  | some (payload, rest) =>
    match Frame.decodePayload payload with
    | .error e => c.finish (.error (.wire e))
    | .ok m =>
      let (sent, s) := c.session.dispatch m
      (c.pushed sent s).dispatchFrames rest
termination_by bytes.length
decreasing_by exact Frame.firstShorter _h

def receive (c : Serving) (bytes : List UInt8) : Serving :=
  if c.ending.isSome then c else { c with received := [] }.dispatchFrames (c.received ++ bytes)

def receiveEnd (c : Serving) : Serving :=
  if c.ending.isSome then c else c.finish ((Source.ending c.received).mapError .wire)

def move? (c : Serving) (globals : Globals) : Option (Globals × Serving) :=
  c.session.workers.keys.findSome? fun id =>
    (c.session.advance globals id).map fun (globals, sent, s) => (globals, c.pushed sent s)

def moves (fuel : Nat) (globals : Globals) (c : Serving) : Globals × Serving :=
  match fuel with
  | 0 => (globals, c)
  | fuel + 1 =>
    match c.move? globals with
    | some (globals, c) => moves fuel globals c
    | none => (globals, c)

def workload (c : Serving) : Nat :=
  c.session.workers.values.foldr (fun w total => w.workload + total) 1

def atPace (c : Serving) (pace : Pace) : Serving :=
  { c with session := { c.session with service := { c.session.service with pace } } }

def settle (c : Serving) (globals : Globals) : Globals × Serving :=
  let c := c.atPace .throughRests
  moves c.workload globals c

/-- Workers that rest go on until one of them has said something. -/
def wait (globals : Globals) (c : Serving) : Nat → Globals × Serving
  | 0 => (globals, c)
  | fuel + 1 =>
    let before := c.unseen.length
    match c.move? globals with
    | some (globals, c) => if c.unseen.length > before then (globals, c) else wait globals c fuel
    | none => (globals, c)

def rest (globals : Globals) (c : Serving) : List WorkerId → Globals × Serving
  | [] => (globals, c)
  | id :: later =>
    match (c.session.workers.get? id).map Worker.activity with
    | some (.running ..) => rest globals c later
    | _ =>
      match c.session.advance globals id with
      | some (globals, sent, s) => rest globals (c.pushed sent s) later
      | none => rest globals c later

def moveToRests (globals : Globals) (c : Serving) : Nat → Globals × Serving
  | 0 => (globals, c)
  | fuel + 1 =>
    let (globals, c) := rest globals c c.session.workers.keys
    moveToRests globals c fuel

def waitFor (wanted : Nat) (globals : Globals) (c : Serving) : Nat → Globals × Serving
  | 0 => (globals, c)
  | fuel + 1 =>
    if c.unseen.length ≥ wanted then (globals, c)
    else
      let (globals, c) := wait globals (c.atPace .untilHeard) c.workload
      waitFor wanted globals c fuel

def settleToRests (c : Serving) (globals : Globals) : Globals × Serving :=
  let c := c.atPace .toRest
  moveToRests globals c c.workload

def settleFor (c : Serving) (globals : Globals) (wanted : Nat) : Globals × Serving :=
  let (globals, c) := c.settleToRests globals
  waitFor wanted globals c wanted

def isResting (c : Serving) : Bool :=
  c.session.workers.values.any fun w =>
    match w.activity with
    | .running .. => true
    | _ => false

def endRests (c : Serving) (globals : Globals) : Globals × Serving :=
  let (globals, c) := c.session.workers.keys.foldl (fun (globals, c) id =>
      match c.session.advance globals id with
      | some (globals, sent, s) => (globals, c.pushed sent s)
      | none => (globals, c)) (globals, c.atPace .toRest)
  c.settleToRests globals

def takeAll (c : Serving) : List Message × Serving := (c.unseen, { c with unseen := [] })

def take (c : Serving) (wanted : Nat) : List Message × Serving :=
  (c.unseen.take wanted, { c with unseen := c.unseen.drop wanted })

end Serving
end RemoteEval
