/-!
Conditions: why an evaluation stopped short of a value, with the restarts that its language offers
and the calls that were active, innermost first.
-/
namespace RemoteEval

inductive ConditionKind where
  | error
  | interrupt
  | cancelled
  deriving DecidableEq, Repr

structure Restart where
  name : String
  description : String
  deriving DecidableEq, Repr

structure Binding where
  name : String
  value : String
  deriving DecidableEq, Repr

structure Call where
  description : String
  locals : List Binding
  deriving DecidableEq, Repr

structure Condition where
  kind : ConditionKind
  type : String
  description : String
  restarts : List Restart := []
  frames : List Call := []
  deriving DecidableEq, Repr

namespace Condition

def error (type description : String) : Condition := { kind := .error, type, description }

def interrupt : Condition :=
  { kind := .interrupt, type := "INTERRUPT", description := "Interrupted by the client" }

def cancelled : Condition :=
  { kind := .cancelled, type := "CANCELLED", description := "connection closed" }

def withRestart (c : Condition) (name description : String) : Condition :=
  { c with restarts := c.restarts ++ [⟨name, description⟩] }

def isCancelled (c : Condition) : Bool := c.kind == .cancelled

def message (c : Condition) : String := s!"{c.type}: {c.description}"

end Condition

/-- A part of a language failed, in a way that it foresaw or not. An unforeseen failure may come
with a text or without. -/
inductive Failure (ε : Type) where
  | failed (error : ε)
  | crashed (reason : Option String)
  deriving DecidableEq, Repr

def crashText (reason : Option String) : String :=
  "panic: " ++ reason.getD "unknown panic"

def Failure.text (describe : ε → String) : Failure ε → String
  | .failed e => describe e
  | .crashed reason => crashText reason

end RemoteEval
