import RemoteEval.Sexp.Basic
import RemoteEval.Language.Condition

/-!
Evaluations as data. A program is either over, or it asks something of its surroundings and tells
how it goes on with each answer. So an evaluation can be suspended in the middle, be answered
later, and be run against any surroundings: a worker of a server, or a script of canned answers.

Every program is a finite tree in each of its answers. `spin` alone goes on for ever if no safe
point stops it.
-/
namespace RemoteEval

inductive Program (α : Type) where
  | done (value : α)
  | stop (failure : Failure Condition)
  | write (text : String) (next : Program α)
  | read (next : Except Condition String → Program α)
  | check (next : Except Condition Unit → Program α)
  | fetch (name : String) (next : Option Sexp → Program α)
  | assign (name : String) (value : Sexp) (next : Program α)
  | pause (next : Program α)
  /-- Safe points one after the other until one of them stops the evaluation. -/
  | spin (next : Condition → Program α)

namespace Program

def bind (p : Program α) (f : α → Program β) : Program β :=
  match p with
  | .done a => f a
  | .stop failure => .stop failure
  | .write text next => .write text (next.bind f)
  | .read next => .read fun answer => (next answer).bind f
  | .check next => .check fun answer => (next answer).bind f
  | .fetch name next => .fetch name fun answer => (next answer).bind f
  | .assign name value next => .assign name value (next.bind f)
  | .pause next => .pause (next.bind f)
  | .spin next => .spin fun c => (next c).bind f

instance : Monad Program where
  pure := .done
  bind := bind

def signal (c : Condition) : Program α := .stop (.failed c)

def orSignal (f : Condition → Condition) : Except Condition α → Program α
  | .ok a => .done a
  | .error c => signal (f c)

end Program

abbrev Globals := List (String × Sexp)

namespace Globals

def fetch (g : Globals) (name : String) : Option Sexp := g.lookup name

def assign (g : Globals) (name : String) (value : Sexp) : Globals :=
  match g with
  | [] => [(name, value)]
  | (other, old) :: rest =>
    if other == name then (name, value) :: rest else (other, old) :: assign rest name value

end Globals

structure Script where
  globals : Globals := []
  input : List String := []
  stopAfter : Option (Nat × Condition) := none
  checks : Nat := 0
  output : List String := []
  deriving DecidableEq, Repr

namespace Script

def sooner : Option (Nat × Condition) → Option (Nat × Condition) → Option (Nat × Condition)
  | some a, some b => if b.1 < a.1 then some b else some a
  | a, b => a.or b

def check (s : Script) : Except Condition Unit × Script :=
  let s := { s with checks := s.checks + 1 }
  match s.stopAfter with
  | some (limit, c) => if s.checks > limit then (.error c, s) else (.ok (), s)
  | none => (.ok (), s)

def read (s : Script) : Except Condition String × Script :=
  match s.input with
  | line :: rest => (.ok line, { s with input := rest })
  | [] => (.error .cancelled, s)

/-- The run of a program. Without a limit on safe points a spinning program has no end, and is
taken to be cancelled. -/
def run (s : Script) : Program α → Except (Failure Condition) α × Script
  | .done a => (.ok a, s)
  | .stop failure => (.error failure, s)
  | .write text next => run { s with output := s.output ++ [text] } next
  | .read next => run s.read.2 (next s.read.1)
  | .check next => run s.check.2 (next s.check.1)
  | .fetch name next => run s (next (s.globals.fetch name))
  | .assign name value next => run { s with globals := s.globals.assign name value } next
  | .pause next => run s next
  | .spin next =>
    match s.stopAfter with
    | some (limit, c) => run { s with checks := max (s.checks + 1) (limit + 1) } (next c)
    | none => run s (next .cancelled)

end Script
end RemoteEval
