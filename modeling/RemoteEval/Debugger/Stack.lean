import RemoteEval.Error
import RemoteEval.Language.Condition

/-!
The debug levels open in one worker. Each was opened by a condition, and offers restarts: those of
the condition, then for an interrupt one that takes it back, then one for every level below that
unwinds to it, and last one that unwinds to the top.

Levels are kept innermost first; the number of a level is how many are open with it.
-/
namespace RemoteEval

/-- Where a level was opened: in the evaluation of a request, or at the prompt of the level below,
by an interrupt. -/
inductive Origin (ρ : Type) where
  | evaluation (request : ρ)
  | prompt
  deriving DecidableEq, Repr

inductive RestartKind where
  | language (index : Nat)
  | retry
  | continue
  | unwind (level : Nat)
  deriving DecidableEq, Repr

structure OfferedRestart where
  view : RestartView
  kind : RestartKind
  deriving DecidableEq, Repr

structure DebugLevel (ρ : Type) where
  condition : Condition
  origin : Origin ρ
  restarts : List OfferedRestart
  deriving DecidableEq, Repr

namespace DebugLevel

def description (l : DebugLevel ρ) : String := l.condition.message

def restartViews (l : DebugLevel ρ) : List RestartView := l.restarts.map OfferedRestart.view

end DebugLevel

def interruptRestart (origin : Origin ρ) (level : Nat) : OfferedRestart :=
  match origin with
  | .evaluation _ => ⟨⟨"RETRY", "Evaluate the interrupted form again."⟩, .retry⟩
  | .prompt => ⟨⟨"CONTINUE", s!"Return to debug level {level - 1}."⟩, .continue⟩

def unwindRestarts : Nat → List OfferedRestart
  | 0 => []
  | 1 => [⟨⟨"ABORT", "Return to top level."⟩, .unwind 0⟩]
  | n + 2 => ⟨⟨"ABORT", s!"Return to debug level {n + 1}."⟩, .unwind (n + 1)⟩ :: unwindRestarts (n + 1)

def offeredRestarts (c : Condition) (origin : Origin ρ) (level : Nat) : List OfferedRestart :=
  c.restarts.mapIdx (fun i r => ⟨⟨r.name, r.description⟩, .language i⟩) ++
  (if c.kind = .interrupt then [interruptRestart origin level] else []) ++
  unwindRestarts level

inductive RestartRefusal where
  | notInDebugger
  | otherLevel (asked current : Nat)
  | noSuchRestart (index level : Nat)
  deriving DecidableEq, Repr

def RestartRefusal.message : RestartRefusal → String
  | .notInDebugger => "not in the debugger"
  | .otherLevel asked current =>
    s!"restart for level {asked} requested, current level is {current}"
  | .noSuchRestart index level => s!"no restart {index} at level {level}"

def RestartRefusal.toError (r : RestartRefusal) : Error := .debugMachine r.message

abbrev DebugStack (ρ : Type) := List (DebugLevel ρ)

namespace DebugStack

def level (s : DebugStack ρ) : Nat := s.length

def current? (s : DebugStack ρ) : Option (DebugLevel ρ) := s.head?

def enter (s : DebugStack ρ) (c : Condition) (origin : Origin ρ) : DebugStack ρ :=
  ⟨c, origin, offeredRestarts c origin (s.level + 1)⟩ :: s

def leave (s : DebugStack ρ) : Option (DebugLevel ρ) × DebugStack ρ := (s.head?, s.tail)

def restart (s : DebugStack ρ) (level index : Nat) : Except RestartRefusal RestartKind :=
  match s with
  | [] => .error .notInDebugger
  | current :: _ =>
    if level ≠ s.level then .error (.otherLevel level s.level)
    else match current.restarts[index]? with
      | some r => .ok r.kind
      | none => .error (.noSuchRestart index level)

def findRestart (s : DebugStack ρ) (name : String) : Option RestartKind := do
  let current ← s.current?
  (current.restarts.find? (·.view.name == name)).map OfferedRestart.kind

def RestartKind.isUnwind : RestartKind → Bool
  | .unwind _ => true
  | _ => false

def abortRestart (s : DebugStack ρ) : Option RestartKind := do
  let current ← s.current?
  (current.restarts.find? (RestartKind.isUnwind ·.kind)).map OfferedRestart.kind

end DebugStack
end RemoteEval
