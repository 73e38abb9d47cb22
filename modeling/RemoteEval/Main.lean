import Std.Async.TCP
import Std.Async.Timer
import Std.Sync.Mutex
import RemoteEval.Address
import RemoteEval.Calc.Basic
import RemoteEval.Server

/-!
The program: a server for the calculator language. It listens, serves every connection in a task of
its own, and tells the time: an evaluation that rests goes on after ten milliseconds, and a
connection that is silent for too long is closed.
-/
namespace RemoteEval.Daemon
open Std.Async TCP

def restTime : Nat := 10

def sideTime : Nat := 5000

def within (milliseconds : Nat) (s : Selector α) : Async (Option α) := do
  let late ← Selector.sleep (.ofNat milliseconds)
  Selectable.one #[.case s (pure ∘ some), .case late fun _ => pure none]

structure Peer where
  socket : Socket.Client
  side : Option Socket.Client := none
  written : Nat := 0

def sendBytes (socket : Socket.Client) (bytes : List UInt8) : Async Unit :=
  socket.send ⟨bytes.toArray⟩

def flush (peer : Peer) (c : Serving) : Async (Peer × Serving) := do
  let (messages, c) := c.takeAll
  for m in messages do
    if let .ok bytes := m.encode then sendBytes peer.socket bytes
  match peer.side, c.session.side with
  | some socket, some text =>
    let new := String.ofList (text.toList.drop peer.written)
    try
      unless new.isEmpty do sendBytes socket (Text.Utf8.encode new)
      return ({ peer with written := text.length }, c)
    catch _ =>
      let (messages, session) := c.session.loseSide.deliver (.output new)
      for m in messages do
        if let .ok bytes := m.encode then sendBytes peer.socket bytes
      return ({ peer with side := none }, { c with session })
  | _, _ => return (peer, c)

inductive Next where
  | bytes (bytes : List UInt8)
  | finished
  | restOver
  | silent

def next (socket : Socket.Client) (resting : Bool) (patience : Option Nat) : Async Next := do
  let received : Option ByteArray → Next
    | some bytes => .bytes bytes.toList
    | none => .finished
  let limit := if resting then some (min restTime (patience.getD restTime)) else patience
  match limit with
  | none => return received (← socket.recv? 4096)
  | some limit =>
    match ← within limit (socket.recvSelector 4096) with
    | some answer => return received answer
    | none => return if resting && patience.all (restTime < ·) then .restOver else .silent

partial def serve (globals : Std.Mutex Globals) (peer : Peer) (c : Serving) (quiet : Nat := 0) :
    Async Unit := do
  let moved (f : Globals → Globals × Serving) : Async (Peer × Serving) := do
    let c ← (globals.atomically do
      let (g, c) := f (← get)
      set g
      return c : IO Serving)
    flush peer c
  if c.ending.isSome then
    discard <| moved fun g => c.settle g
  else
    let patience := c.session.service.config.idleTimeout.map fun s => s * 1000 - quiet
    match ← next peer.socket c.isResting patience with
    | .bytes bytes =>
      let (peer, c) ← moved fun g => (c.receive bytes).settleToRests g
      serve globals peer c
    | .restOver =>
      let (peer, c) ← moved fun g => c.endRests g
      serve globals peer c (quiet + restTime)
    | .finished => serve globals peer c.receiveEnd
    | .silent =>
      let seconds := c.session.service.config.idleTimeout.getD 0
      serve globals peer (c.finish (.error (.idleTimeout seconds)))

def openSide (service : Service) (socket : Socket.Client) : Async (Peer × Serving) := do
  let listener ← Socket.Server.mk
  listener.bind (.v4 ⟨Address.loopback, 0⟩)
  listener.listen 1
  let (peer, c) ← flush { socket } (Serving.opening service (← listener.getSockName).port)
  match ← within sideTime listener.acceptSelector with
  | some side => return ({ peer with side := some side }, c)
  | none => return (peer, { c with session := { c.session with side := none } })

def greet (service : Service) (socket : Socket.Client) : Async (Peer × Serving) :=
  if service.config.dedicatedOutput then openSide service socket
  else flush { socket } (Serving.opening service 0)

def connection (globals : Std.Mutex Globals) (service : Service) (socket : Socket.Client) :
    Async Unit := do
  try
    let (peer, c) ← greet service socket
    serve globals peer c
    if let some side := peer.side then side.shutdown
    socket.shutdown
  catch _ => pure ()

partial def accept (listener : Socket.Server) (globals : Std.Mutex Globals) (service : Service)
    (oneshot : Bool) : IO Unit := do
  let socket ← listener.accept.block
  if oneshot then (connection globals service socket).block
  else
    discard <| IO.asTask (connection globals service socket).block .dedicated
    accept listener globals service oneshot

def readSettings (path : String) : IO (Except FileFault String) := do
  try return .ok (← IO.FS.readFile path)
  catch
    | .noFileOrDirectory .. => return .error .notFound
    | _ => return .error .other

def canWrite (path : String) : IO Bool := do
  try IO.FS.withFile path .append fun _ => return true
  catch _ => return false

def settings (args : List String) : IO (Except StartError (Options × Config)) := do
  match Options.parse {} args with
  | .error e => return .error e
  | .ok options =>
    let path := options.config.or (← IO.getEnv "SLINK_CONFIG")
    let home ← IO.getEnv "HOME"
    let file ← match Config.file? home path with
      | some file => readSettings file
      | none => pure (.error .notFound)
    match Config.load (fun _ => file) home path with
    | .error e => return .error (.config e)
    | .ok config =>
      let writable ← match options.logFile with
        | some path => canWrite path
        | none => pure true
      return do
        options.checkLog fun _ => writable
        return (options, options.apply config)

def listen (options : Options) (config : Config) : IO (Option StartError) := do
  let failed (what : String) : Option StartError := some (.other s!"bind {what}")
  match (Address.parse? config.listen).bind Address.socket? with
  | none => return failed config.listen
  | some address =>
    let listener ← Socket.Server.mk
    try
      listener.bind address
      listener.listen 128
    catch _ => return failed config.listen
    if let some path := config.portFile then
      let port := (← listener.getSockName).port
      try IO.FS.writeFile path (toString port)
      catch _ => return some (.other s!"write port file {path}")
    accept listener (← Std.Mutex.new []) { language := Calc.language, config } options.oneshot
    return none

def run (args : List String) : IO (Option StartError) := do
  match ← settings args with
  | .error e => return some e
  | .ok (options, config) => listen options config

end RemoteEval.Daemon

def main (args : List String) : IO UInt32 := do
  match ← RemoteEval.Daemon.run args with
  | none => return 0
  | some e =>
    if e.exitCode = 0 then IO.println e.message
    else IO.eprintln s!"error: {e.message}"
    return e.exitCode
