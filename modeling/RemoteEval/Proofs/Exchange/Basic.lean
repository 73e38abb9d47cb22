import RemoteEval.Client.Machine
import RemoteEval.Proofs.Session.Run
import RemoteEval.Proofs.Exchange.Readable

/-! One client and one session, joined by two channels. Both channels keep the order and
lose nothing; what is handed over is on its way. The client makes the calls that its
machine accepts, the server dispatches and its workers move, and each side takes the next
message of the other, all in any order. A message that cannot be read is never taken, and
neither is one that the client does not accept: there the run of this channel ends. -/
namespace RemoteEval

open Client (Machine DebuggerView)

/- A message of the server with the worker in whose name it was sent, and the levels that
were open in that worker just after it was sent. -/
structure Parcel where
  author : Option Author
  message : Message
  levels : DebugStack Request

def Spoken.message (spoken : Spoken) : Message :=
  match spoken.utterance with
  | .message m => m
  | .output text => .output text

def Spoken.carried (dedicated : Bool) (spoken : Spoken) : Bool :=
  match spoken.utterance with
  | .message _ => true
  | .output _ => !dedicated

def Entry.parcel? (dedicated : Bool) (e : Entry) : Option Parcel :=
  match e.deed with
  | .said spoken =>
    if spoken.carried dedicated then some ⟨e.author, spoken.message, spoken.levels⟩ else none
  | .started _ => none

inductive Happening where
  | sent (message : Message)
  | heard (parcel : Parcel)

inductive Step (γ : Type) where
  | evaluate (form package : String) (worker : Option WorkerRef) (continuation : Option γ)
  | interrupt (worker : WorkerRef)
  | returnString (worker : WorkerRef) (tag : Tag) (text : String)
  | dispatch
  | work (worker : WorkerId) (pace : Pace) (globals : Globals)
  | loseSide
  | handle

structure Exchange (γ : Type) where
  client : Machine γ := .start
  log : Log
  up : List Message := []
  down : List Parcel
  story : List Happening := []

namespace Exchange
variable {γ : Type}

def opening (service : Service) (port : UInt16) : Exchange γ where
  log := .opening service port
  down := (Log.opening service port).entries.filterMap (Entry.parcel? false)

def send (x : Exchange γ) (client : Machine γ) (m : Message) : Exchange γ :=
  { x with client, up := x.up ++ [m], story := x.story ++ [.sent m] }

def serve (x : Exchange γ) (move : Move) : Exchange γ :=
  let log := x.log.step move
  let new := log.entries.drop x.log.entries.length
  { x with log, down := x.down ++ new.filterMap (Entry.parcel? x.log.session.side.isSome) }

def next? (x : Exchange γ) : Step γ → Option Message
  | .dispatch => x.up.head?
  | .handle => x.down.head?.map Parcel.message
  | _ => none

def act (x : Exchange γ) : Step γ → Exchange γ
  | .evaluate form package worker continuation =>
    match x.client.evaluate form package worker continuation with
    | (.ok (_, m), client) => x.send client m
    | (.error _, _) => x
  | .interrupt worker => x.send x.client (x.client.interrupt worker)
  | .returnString worker tag text =>
    match x.client.returnString worker tag text with
    | (.ok m, client) => x.send client m
    | (.error _, _) => x
  | .dispatch =>
    match x.up with
    | [] => x
    | m :: later => { x with up := later }.serve (.receive m)
  | .work worker pace globals => x.serve (.work worker pace globals)
  | .loseSide => x.serve .loseSide
  | .handle =>
    match x.down with
    | [] => x
    | p :: later =>
      match x.client.handle p.message with
      | (.ok _, client) => { x with client, down := later, story := x.story ++ [.heard p] }
      | (.error _, _) => x

def step (x : Exchange γ) (s : Step γ) : Exchange γ :=
  if (x.next? s).all Message.readable then x.act s else x

def run (x : Exchange γ) (steps : List (Step γ)) : Exchange γ := steps.foldl step x

def heard (x : Exchange γ) : List Parcel :=
  x.story.filterMap fun
    | .heard p => some p
    | .sent _ => none

def sent (x : Exchange γ) : List Message :=
  x.story.filterMap fun
    | .sent m => some m
    | .heard _ => none

end Exchange

/- What a reference stands for, as far as the client can know: the worker whose assignment
it has heard, until it hears the answer to that worker's outermost request. The levels are
those just after the last message of that worker that it heard; the openings are the views
in the messages that opened them. -/
structure Bond where
  worker : WorkerId
  outermost : RequestId
  levels : DebugStack Request := []
  openings : List DebuggerView := []
  asked : Option Tag := none

abbrev Bonds := WorkerRef → Option Bond

def Bond.hear (b : Bond) (levels : DebugStack Request) : Message → Option Bond
  | .returned _ _ id => if id = b.outermost then none else some { b with levels }
  | .debugEnter _ level description restarts backtrace =>
    some { b with levels, openings := ⟨level, description, restarts, backtrace⟩ :: b.openings }
  | .debugReturn _ _ => some { b with levels, openings := b.openings.tail }
  | .readStringRequest _ tag => some { b with levels, asked := some tag }
  | .readAborted _ _ => some { b with levels, asked := none }
  | _ => some { b with levels }

def Bonds.hear (β : Bonds) (p : Parcel) : Bonds :=
  match p.author, p.message with
  | none, _ => β
  | some a, .workerAssigned id _ =>
    fun ref => if ref = a.ref then some { worker := a.id, outermost := id, levels := p.levels }
      else β ref
  | some a, m => fun ref =>
    if ref = a.ref then
      (β ref).bind fun b => if b.worker = a.id then b.hear p.levels m else some b
    else β ref

def bonds (heard : List Parcel) : Bonds := heard.foldl Bonds.hear fun _ => none

theorem bondsSnoc (heard : List Parcel) (p : Parcel) :
    bonds (heard ++ [p]) = (bonds heard).hear p := by
  rw [bonds, List.foldl_append]
  rfl

end RemoteEval
