import Mathlib.Algebra.Group.Nat.Defs
import Mathlib.Data.List.Nodup
import RemoteEval.Client.Machine
import RemoteEval.Proofs.Table

/-! The messages that a client takes and those that it sends. Each has one way in which it
changes the client; a message that can be taken in no way is out of step. What the user is
told on account of a message is left aside. -/
namespace RemoteEval

def Message.isPlain : Message → Bool
  | .debugConditionText .. | .output _ | .featureUpdate _ | .backgroundMessage _
  | .outputChannel _ => true
  | _ => false

namespace Client.Machine
variable {γ : Type} {c c' : Machine γ}

def isRequest (f : StackFrame γ) : Bool := !f.isDebugging

inductive Takes (c : Machine γ) : Message → Machine γ → Prop where
  | bound {id ref k} (waiting : c.unbound.get? id = some k) (idle : c.busy.get? ref = none) :
      Takes c (.workerAssigned id ref)
        ({ c with unbound := c.unbound.erase id }.setStack ref [.evaluating id k])
  | unreached {ref value id k} (waiting : c.unbound.get? id = some k) :
      Takes c (.returned ref value id) { c with unbound := c.unbound.erase id }
  | orphaned {ref value id k} (reached : c.unbound.get? id = none)
      (left : c.orphans.get? id = some (ref, k)) :
      Takes c (.returned ref value id) { c with orphans := c.orphans.erase id }
  | uncovered {ref value id k levels below} (reached : c.unbound.get? id = none)
      (owned : c.orphans.get? id = none) (stack : c.stack ref = levels ++ .evaluating id k :: below)
      (above : ∀ f ∈ levels, f.isDebugging = true) (nested : below ≠ [] ∨ levels = []) :
      Takes c (.returned ref value id) (c.setStack ref (levels ++ below))
  | opened {ref level description restarts backtrace stack}
      (next : level.toNat = c.debugLevel ref + 1) (busy : c.busy.get? ref = some stack) :
      Takes c (.debugEnter ref level description restarts backtrace)
        (c.setStack ref (.debugging ⟨level, description, restarts, backtrace⟩ :: stack))
  | activated {ref level} (innermost : (c.debugger ref).map DebuggerView.level = some level) :
      Takes c (.debugActivate ref level) c
  | closed {ref level requests view below}
      (stack : c.stack ref = requests ++ .debugging view :: below)
      (above : ∀ f ∈ requests, isRequest f = true) (same : view.level = level) :
      Takes c (.debugReturn ref level) ((c.orphan ref requests).setStack ref below)
  | asked {ref tag} :
      Takes c (.readStringRequest ref tag) { c with reads := c.reads.insert (ref, tag) () }
  | aborted {ref tag} (waiting : c.reads.contains (ref, tag) = true) :
      Takes c (.readAborted ref tag) { c with reads := c.reads.erase (ref, tag) }
  | told {m} (plain : m.isPlain = true) : Takes c m c

theorem splitWhile {α : Type} {p : α → Bool} {items rest : List α} {a : α}
    (stops : items.dropWhile p = a :: rest) :
    items = items.takeWhile p ++ a :: rest ∧ (∀ b ∈ items.takeWhile p, p b = true) ∧
      p a = false := by
  refine ⟨by rw [← stops, List.takeWhile_append_dropWhile], ?_, ?_⟩
  · exact List.all_eq_true.mp List.all_takeWhile
  · induction items with
    | nil => contradiction
    | cons b later ih =>
      rw [List.dropWhile_cons] at stops
      split at stops
      · exact ih stops
      next no =>
        cases stops
        simpa using no

theorem joinWhile {α : Type} {p : α → Bool} {first : List α} {a : α} (rest : List α)
    (above : ∀ b ∈ first, p b = true) (stop : p a = false) :
    (first ++ a :: rest).takeWhile p = first ∧ (first ++ a :: rest).dropWhile p = a :: rest := by
  simp [List.takeWhile_append_of_pos above, List.dropWhile_append_of_pos above, stop]

theorem uncoverEq {id : RequestId} {stack rest : List (StackFrame γ)} {k : Option γ} :
    uncover id stack = some (k, rest) ↔
      ∃ levels below, stack = levels ++ .evaluating id k :: below ∧
        (∀ f ∈ levels, f.isDebugging = true) ∧ (below ≠ [] ∨ levels = []) ∧
        rest = levels ++ below := by
  constructor
  · intro found
    unfold uncover at found
    dsimp only at found
    split at found
    next top continuation below stops =>
      obtain ⟨⟨same, nested⟩, made⟩ := Option.ite_none_right_eq_some.mp found
      cases made
      obtain ⟨whole, above, _⟩ := splitWhile stops
      exact ⟨_, below, same ▸ whole, above, nested, rfl⟩
    · contradiction
  · rintro ⟨levels, below, rfl, above, nested, rfl⟩
    have stop : (StackFrame.evaluating id k : StackFrame γ).isDebugging = false := rfl
    obtain ⟨taken, dropped⟩ := joinWhile below above stop
    unfold uncover
    simp only [taken, dropped]
    exact if_pos ⟨trivial, nested⟩

theorem reactTakes {m : Message} {effects : List (Effect γ)}
    (taken : c.react m = (.ok effects, c')) : Takes c m c' := by
  cases m with
  | workerAssigned id ref =>
    simp only [react, bind] at taken
    split at taken
    · cases taken
    next k waiting =>
      split at taken
      · cases taken
      next idle =>
        cases taken
        exact .bound waiting (by simpa [Table.contains] using idle)
  | returned ref value id =>
    simp only [react, takeRequest] at taken
    split at taken
    next k waiting =>
      cases taken
      exact .unreached waiting
    next reached =>
      split at taken
      next owner k left =>
        split at taken
        next same =>
          cases taken
          exact .orphaned reached (same ▸ left)
        · cases taken
      next owned =>
        split at taken
        next k rest found =>
          cases taken
          obtain ⟨levels, below, stack, above, nested, rfl⟩ := uncoverEq.mp found
          exact .uncovered reached owned stack above nested
        · cases taken
  | debugEnter ref level description restarts backtrace =>
    simp only [react, openLevel] at taken
    split at taken
    · cases taken
    next next =>
      split at taken
      · cases taken
      next stack busy =>
        cases taken
        exact .opened (Decidable.not_not.mp next) busy
  | debugActivate ref level =>
    simp only [react] at taken
    split at taken
    next innermost =>
      cases taken
      exact .activated innermost
    · cases taken
  | debugReturn ref level =>
    simp only [react, closeLevel] at taken
    split at taken
    next view below stops =>
      split at taken
      next same =>
        cases taken
        obtain ⟨stack, above, _⟩ := splitWhile stops
        exact .closed stack above same
      · cases taken
    · cases taken
  | readStringRequest ref tag =>
    cases taken
    exact .asked
  | readAborted ref tag =>
    simp only [react] at taken
    split at taken
    next waiting =>
      cases taken
      exact .aborted waiting
    · cases taken
  | request | interrupt | readStringReply => cases taken
  | _ =>
    cases taken
    exact .told rfl

theorem takesReact {m : Message} (takes : Takes c m c') :
    ∃ effects, c.react m = (.ok effects, c') := by
  cases takes with
  | bound waiting idle =>
    exact ⟨[], by simp [react, bind, waiting, Table.contains, idle, Except.map]⟩
  | unreached waiting => exact ⟨_, by simp only [react, takeRequest, waiting]; rfl⟩
  | orphaned reached left =>
    exact ⟨_, by simp only [react, takeRequest, reached, left, if_true]; rfl⟩
  | @uncovered ref value id k levels below reached owned stack above nested =>
    have found : uncover id (c.stack ref) = some (k, levels ++ below) :=
      uncoverEq.mpr ⟨levels, below, stack, above, nested, rfl⟩
    exact ⟨_, by simp only [react, takeRequest, reached, owned, found]; rfl⟩
  | opened next busy =>
    exact ⟨_, by simp only [react, openLevel, next, busy, ne_eq, not_true, if_false]; rfl⟩
  | activated innermost => exact ⟨_, by simp only [react, innermost, if_true]; rfl⟩
  | @closed ref level requests view below stack above same =>
    have stop : isRequest (StackFrame.debugging view : StackFrame γ) = false := rfl
    obtain ⟨taken, dropped⟩ := joinWhile below above stop
    rw [← stack] at taken dropped
    unfold isRequest at taken dropped
    exact ⟨_, by simp only [react, closeLevel, taken, dropped, same, if_true]; rfl⟩
  | asked => exact ⟨_, rfl⟩
  | aborted waiting => exact ⟨_, by simp only [react, waiting, if_true]; rfl⟩
  | told plain =>
    cases m with
    | debugConditionText | output | featureUpdate | backgroundMessage | outputChannel =>
      exact ⟨_, rfl⟩
    | _ => contradiction

theorem handleTakes {m : Message} :
    (∃ effects, c.handle m = (.ok effects, c')) ↔ Takes c m c' := by
  constructor
  · rintro ⟨effects, taken⟩
    rcases result : c.react m with ⟨verdict, after⟩
    simp only [handle, result, Prod.mk.injEq] at taken
    obtain ⟨verdict', rfl⟩ := taken
    cases verdict with
    | error e => cases verdict'
    | ok _ => exact reactTakes result
  · intro takes
    obtain ⟨effects, taken⟩ := takesReact takes
    exact ⟨effects, by simp [handle, taken, Except.mapError]⟩

theorem handleError {m : Message} :
    (∃ e, (c.handle m).1 = .error e) ↔ ∀ c', ¬ Takes c m c' := by
  rcases result : c.handle m with ⟨verdict, after⟩
  cases verdict with
  | error e =>
    refine ⟨fun _ c' takes => ?_, fun _ => ⟨e, rfl⟩⟩
    obtain ⟨_, taken⟩ := handleTakes.mpr takes
    rw [result] at taken
    cases taken
  | ok effects =>
    refine ⟨fun ⟨_, wrong⟩ => ?_, fun never => ?_⟩
    · cases wrong
    · exact absurd (handleTakes.mp ⟨effects, result⟩) (never after)

/- The calls that are accepted, with the message that each of them sends. -/
inductive Sends (c : Machine γ) : Message → Machine γ → Prop where
  | fresh {form package k} :
      Sends c (.request form package .new (c.lastId + 1))
        { c with lastId := c.lastId + 1, unbound := c.unbound.insert (c.lastId + 1) k }
  | nested {form package ref view below k} (prompt : c.stack ref = .debugging view :: below) :
      Sends c (.request form package (.worker ref) (c.lastId + 1))
        ({ c with lastId := c.lastId + 1 }.setStack ref
          (.evaluating (c.lastId + 1) k :: .debugging view :: below))
  | interrupt {ref} : Sends c (.interrupt ref) c
  | reply {ref tag text} (waiting : c.reads.contains (ref, tag) = true) :
      Sends c (.readStringReply ref tag text) { c with reads := c.reads.erase (ref, tag) }

theorem nextNumber (n : Nat) : n.toUInt64 + 1 = (n + 1).toUInt64 := by simp [Nat.toUInt64]

theorem numbersDistinct {n : Nat} (few : n < 2 ^ 64) :
    ((List.range n).map fun i => (i + 1).toUInt64).Nodup := by
  refine List.Nodup.map_on (fun i inI j inJ same => ?_) List.nodup_range
  have numbers := congrArg UInt64.toNat same
  simp only [Nat.toUInt64, UInt64.toNat_ofNat', List.mem_range] at numbers inI inJ
  omega

theorem evaluateSends {form package worker k id} {m : Message}
    (accepted : c.evaluate form package worker k = (.ok (id, m), c')) : Sends c m c' := by
  cases worker with
  | none =>
    cases accepted
    exact .fresh
  | some ref =>
    simp only [evaluate, top] at accepted
    split at accepted
    next level prompt =>
      cases accepted
      split at prompt
      · contradiction
      next f below stack =>
        cases f with
        | evaluating => contradiction
        | debugging view =>
          rw [stack]
          exact .nested stack
    · cases accepted

theorem returnStringSends {ref tag text} {m : Message}
    (accepted : c.returnString ref tag text = (.ok m, c')) : Sends c m c' := by
  unfold returnString at accepted
  split at accepted
  next waiting =>
    cases accepted
    exact .reply waiting
  · cases accepted

section Stacks
variable (c : Machine γ) (ref other : WorkerRef) (stack frames : List (StackFrame γ))

@[simp] theorem stackSetStack :
    (c.setStack ref stack).stack other = if other = ref then stack else c.stack other := by
  unfold setStack
  split
  next empty =>
    rw [List.isEmpty_iff.mp empty]
    by_cases same : other = ref <;> simp [Machine.stack, same]
  · by_cases same : other = ref
    · simp [Machine.stack, same]
    · simp [Machine.stack, same, Ne.symm same]

@[simp] theorem unboundSetStack : (c.setStack ref stack).unbound = c.unbound := by
  unfold setStack
  split <;> rfl

@[simp] theorem orphansSetStack : (c.setStack ref stack).orphans = c.orphans := by
  unfold setStack
  split <;> rfl

@[simp] theorem lastIdSetStack : (c.setStack ref stack).lastId = c.lastId := by
  unfold setStack
  split <;> rfl

theorem busySetStack : (c.setStack ref stack).busy.get? other =
    if other = ref then (if stack = [] then none else some stack) else c.busy.get? other := by
  unfold setStack
  cases stack with
  | nil => simp
  | cons f rest => simp [eq_comm]

theorem readsSetStack (tag : Tag) : (c.setStack ref stack).reads.get? (other, tag) =
    if stack = [] ∧ other = ref then none else c.reads.get? (other, tag) := by
  unfold setStack
  cases stack with
  | nil => by_cases same : other = ref <;> simp [same]
  | cons f rest => simp

theorem orphanRest : (c.orphan ref frames).busy = c.busy ∧
    (c.orphan ref frames).unbound = c.unbound ∧ (c.orphan ref frames).reads = c.reads ∧
    (c.orphan ref frames).lastId = c.lastId := by
  induction frames generalizing c with
  | nil => exact ⟨rfl, rfl, rfl, rfl⟩
  | cons f rest ih =>
    cases f with
    | evaluating id k => exact ih _
    | debugging view => exact ih c

theorem stackOrphan : (c.orphan ref frames).stack other = c.stack other := by
  rw [Machine.stack, (orphanRest ..).1]
  rfl

def owner? (c : Machine γ) (id : RequestId) : Option WorkerRef := (c.orphans.get? id).map Prod.fst

theorem ownerOf {c : Machine γ} {id : RequestId} {entry : WorkerRef × Option γ}
    (left : c.orphans.get? id = some entry) : c.owner? id = some entry.1 := by
  rw [owner?, left]
  rfl

@[simp] theorem ownerSetStack (id : RequestId) :
    (c.setStack ref stack).owner? id = c.owner? id := by
  simp [owner?]

theorem ownerOrphan (id : RequestId) : (c.orphan ref frames).owner? id =
    if id ∈ requestIds frames then some ref else c.owner? id := by
  induction frames generalizing c with
  | nil => rfl
  | cons f rest ih =>
    cases f with
    | debugging view => exact ih c
    | evaluating own k =>
      rw [show c.orphan ref (.evaluating own k :: rest) =
        { c with orphans := c.orphans.insert own (ref, k) }.orphan ref rest from rfl, ih]
      by_cases same : own = id
      · simp [requestIds, owner?, same]
      · simp [requestIds, owner?, same, Ne.symm same]

end Stacks

theorem Takes.lastId {m : Message} (takes : Takes c m c') : c'.lastId = c.lastId := by
  cases takes with
  | bound | uncovered | opened => simp
  | closed => simp [(orphanRest ..).2.2.2]
  | _ => rfl

def Tidy (c : Machine γ) : Prop := ∀ ref, c.busy.get? ref ≠ some []

theorem Tidy.idle (tidy : c.Tidy) {ref : WorkerRef} :
    c.busy.get? ref = none ↔ c.stack ref = [] := by
  have full := tidy ref
  unfold stack
  cases busy : c.busy.get? ref with
  | none => simp
  | some frames =>
    rw [busy] at full
    simpa using full

theorem tidySetStack (tidy : c.Tidy) (ref : WorkerRef)
    (stack : List (StackFrame γ)) : (c.setStack ref stack).Tidy := by
  intro other
  unfold Machine.setStack
  cases stack with
  | nil =>
    by_cases same : other = ref
    · simp [same]
    · simpa [same] using tidy other
  | cons f rest =>
    by_cases same : ref = other
    · simp [same]
    · simpa [same] using tidy other

theorem Takes.tidy {m : Message} (takes : Takes c m c') (tidy : c.Tidy) : c'.Tidy := by
  cases takes with
  | bound | uncovered | opened =>
    refine tidySetStack ?_ _ _
    exact tidy
  | unreached | orphaned | activated | asked | aborted | told => exact tidy
  | closed =>
    refine tidySetStack (fun ref => ?_) _ _
    rw [(orphanRest ..).1]
    exact tidy ref

theorem Sends.tidy {m : Message} (sends : Sends c m c') (tidy : c.Tidy) : c'.Tidy := by
  cases sends with
  | nested =>
    refine tidySetStack ?_ _ _
    exact tidy
  | fresh | interrupt | reply => exact tidy

end Client.Machine
end RemoteEval
