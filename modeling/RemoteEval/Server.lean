import RemoteEval.CommandLine
import RemoteEval.Session.Schedule

/-!
A server with its connections, which share nothing but the global variables of the language. A
connection keeps its number when it is closed.
-/
namespace RemoteEval

structure Server where
  service : Service
  globals : Globals := []
  connections : List Serving := []

namespace Server

inductive Response where
  | messages (messages : List Message)
  | closed (ending : Except Error Unit) (side : Option String)
  | gone

def Response.ofEnding (c : Serving) : Option Response :=
  c.ending.map fun ending => .closed ending c.session.side

def connect (s : Server) (port : UInt16) : List Message × Server :=
  let (greeting, c) := (Serving.opening s.service port).takeAll
  (greeting, { s with connections := s.connections ++ [c] })

/-- Something happens on a connection, and its workers move until they have to wait, or until
`wanted` messages are there. -/
def act (s : Server) (number : Nat) (wanted : Option Nat) (f : Serving → Serving) :
    Response × Server :=
  match s.connections[number]? with
  | none => (.gone, s)
  | some c =>
    if c.ending.isSome then (.gone, s)
    else
      let c := f c
      let put (globals : Globals) (c : Serving) : Server :=
        { s with globals, connections := s.connections.set number c }
      match Response.ofEnding c with
      | some response => (response, put s.globals c)
      | none =>
        match wanted with
        | some wanted =>
          let (globals, c) := c.settleFor s.globals wanted
          let (messages, c) := c.take wanted
          (.messages messages, put globals c)
        | none =>
          let (globals, c) := c.settle s.globals
          let (messages, c) := c.takeAll
          (.messages messages, put globals c)

def shutdown (s : Server) : List (Option Response) × Server :=
  let connections := s.connections.map Serving.receiveEnd
  (s.connections.zipWith (fun before after =>
      if before.ending.isSome then none else Response.ofEnding after) connections,
    { s with connections })

end Server
end RemoteEval
