import Mathlib.Algebra.Order.Group.Multiset
import Mathlib.Tactic.Abel
import RemoteEval.Proofs.Client.Messages

/-! Where a client keeps the requests that it owes the user an answer for, and how each call
moves them: from one table to another, to the user with an answer, or, if a message is refused
that had already taken its request away, to nowhere. -/
namespace RemoteEval.Client
variable {γ : Type}

abbrev Request (γ : Type) := RequestId × Option γ

def StackFrame.request? : StackFrame γ → Option (Request γ)
  | .evaluating id k => some (id, k)
  | .debugging _ => none

def Effect.answered? : Effect γ → Option RequestId
  | .returned _ id _ _ => some id
  | _ => none

/- The request that is out of its table when the message is refused. -/
def Desync.dropped : Desync → List RequestId
  | .busyWorker _ id | .wrongOwner id _ _ => [id]
  | _ => []

/- The effects answer just these requests, and with a value each gets its own continuation. -/
structure Settles (effects : List (Effect γ)) (settled : Multiset (Request γ)) : Prop where
  ids : settled.map Prod.fst = effects.filterMap Effect.answered?
  carried : ∀ {ref id value k}, .returned ref id value k ∈ effects →
    ∃ own, (id, own) ∈ settled ∧ k = Machine.continuationFor value own

theorem settlesNone {effects : List (Effect γ)} (silent : ∀ e ∈ effects, e.answered? = none) :
    Settles effects 0 where
  ids := by rw [List.filterMap_eq_nil_iff.mpr silent]; rfl
  carried member := by simpa [Effect.answered?] using silent _ member

theorem settlesOne (ref : Option WorkerRef) (id : RequestId) (value : Outcome) (own : Option γ) :
    Settles [.returned ref id value (Machine.continuationFor value own)] {(id, own)} where
  ids := by simp [Effect.answered?]
  carried member := by
    cases List.mem_singleton.mp member
    exact ⟨own, Multiset.mem_singleton_self _, rfl⟩

theorem Settles.append {first later : List (Effect γ)} {before after : Multiset (Request γ)}
    (one : Settles first before) (other : Settles later after) :
    Settles (first ++ later) (before + after) where
  ids := by rw [Multiset.map_add, one.ids, other.ids, List.filterMap_append, Multiset.coe_add]
  carried member := by
    rcases List.mem_append.mp member with early | late
    · obtain ⟨own, inside, same⟩ := one.carried early
      exact ⟨own, Multiset.mem_add.mpr (.inl inside), same⟩
    · obtain ⟨own, inside, same⟩ := other.carried late
      exact ⟨own, Multiset.mem_add.mpr (.inr inside), same⟩

theorem answersLength (effects : List (Effect γ)) (id : RequestId) :
    (effects.filter fun e => e.answered? == some id).length =
      (effects.filterMap Effect.answered?).count id := by
  rw [List.count_filterMap, List.countP_eq_length_filter]

namespace Machine
variable {c c' : Machine γ}

def requestsOf (stack : List (StackFrame γ)) : List (Request γ) :=
  stack.filterMap StackFrame.request?

section Frames
variable (stack below : List (StackFrame γ))

@[simp] theorem requestsNil : requestsOf ([] : List (StackFrame γ)) = [] := rfl

@[simp] theorem requestsEvaluating (id : RequestId) (k : Option γ) :
    requestsOf (.evaluating id k :: stack) = (id, k) :: requestsOf stack := rfl

@[simp] theorem requestsDebugging (view : DebuggerView) :
    requestsOf (.debugging view :: stack) = requestsOf stack := rfl

@[simp] theorem requestsAppend :
    requestsOf (stack ++ below) = requestsOf stack ++ requestsOf below := List.filterMap_append

theorem requestsIds : (requestsOf stack).map Prod.fst = requestIds stack := by
  induction stack with
  | nil => rfl
  | cons f rest ih =>
    cases f with
    | evaluating id k => exact congrArg (id :: ·) ih
    | debugging view => exact ih

end Frames

def owed (c : Machine γ) : Multiset (Request γ) :=
  (c.unbound.toList : Multiset (Request γ)) +
    (c.busy.values.flatMap requestsOf : List (Request γ)) +
    (c.orphans.toList.map fun e => (e.1, e.2.2) : List (Request γ))

def owedIds (c : Machine γ) : Multiset RequestId := c.owed.map Prod.fst

theorem owedOutstanding (c : Machine γ) : c.owedIds = (c.outstanding.map Prod.snd) := by
  simp only [owedIds, owed, outstanding, Multiset.map_coe, Multiset.coe_add,
    List.map_append, List.map_flatMap, List.map_map, requestsIds, Table.keys, Table.values,
    Table.toList, List.flatMap_map, Function.comp_def, List.map_id']

section Places
variable (c) (ref : WorkerRef)

theorem owedStack :
    c.owed = requestsOf (c.stack ref) + { c with busy := c.busy.erase ref }.owed := by
  unfold stack
  cases busy : c.busy.get? ref with
  | none => simp [Table.eraseAbsent busy]
  | some frames =>
    have exchanged := Multiset.coe_eq_coe.mpr ((Table.erasePerm busy).flatMap_right requestsOf)
    rw [List.flatMap_cons, ← Multiset.coe_add] at exchanged
    simp only [owed, exchanged, Option.getD_some]
    abel

theorem eraseSetStack (frames : List (StackFrame γ)) :
    (c.setStack ref frames).busy.erase ref = c.busy.erase ref := by
  unfold setStack
  split
  · exact Table.eraseAbsent (by simp)
  · exact Table.insertErase ..

theorem owedSetStack (frames : List (StackFrame γ)) :
    (c.setStack ref frames).owed =
      requestsOf frames + { c with busy := c.busy.erase ref }.owed := by
  rw [owedStack _ ref, stackSetStack, if_pos rfl]
  simp only [owed, eraseSetStack, unboundSetStack, orphansSetStack]

theorem owedUnbound {id : RequestId} {k : Option γ} (found : c.unbound.get? id = some k) :
    c.owed = (id, k) ::ₘ { c with unbound := c.unbound.erase id }.owed := by
  have exchanged := Multiset.coe_eq_coe.mpr (Table.entriesErase found)
  simp only [owed, exchanged, ← Multiset.cons_coe, Multiset.cons_add]

theorem owedOrphan {id : RequestId} {k : Option γ} (found : c.orphans.get? id = some (ref, k)) :
    c.owed = (id, k) ::ₘ { c with orphans := c.orphans.erase id }.owed := by
  have exchanged := Multiset.coe_eq_coe.mpr ((Table.entriesErase found).map fun e => (e.1, e.2.2))
  simp only [owed, exchanged, List.map_cons, ← Multiset.cons_coe, Multiset.add_cons]

theorem owedInsert {id : RequestId} (k : Option γ) (fresh : c.unbound.get? id = none) :
    { c with unbound := c.unbound.insert id k }.owed = (id, k) ::ₘ c.owed := by
  have found : (c.unbound.insert id k).get? id = some k := by simp
  rw [owedUnbound { c with unbound := c.unbound.insert id k } found, Table.insertErase,
    Table.eraseAbsent fresh]

theorem owedLeft {id : RequestId} (k : Option γ) (fresh : c.orphans.get? id = none) :
    { c with orphans := c.orphans.insert id (ref, k) }.owed = (id, k) ::ₘ c.owed := by
  have found : (c.orphans.insert id (ref, k)).get? id = some (ref, k) := by simp
  rw [owedOrphan { c with orphans := c.orphans.insert id (ref, k) } ref found, Table.insertErase,
    Table.eraseAbsent fresh]

theorem freshUnbound {id : RequestId} (fresh : id ∉ c.owedIds) : c.unbound.get? id = none := by
  cases found : c.unbound.get? id with
  | none => rfl
  | some k => exact absurd (by simp [owedIds, owedUnbound c found]) fresh

theorem freshOrphan {id : RequestId} (fresh : id ∉ c.owedIds) : c.orphans.get? id = none := by
  cases found : c.orphans.get? id with
  | none => rfl
  | some entry => exact absurd (by simp [owedIds, owedOrphan c entry.1 found]) fresh

end Places

theorem stackApart (distinct : c.owedIds.Nodup) (ref : WorkerRef) :
    ((requestsOf (c.stack ref)).map Prod.fst).Nodup ∧
      ∀ id ∈ (requestsOf (c.stack ref)).map Prod.fst, c.orphans.get? id = none := by
  rw [owedIds, owedStack c ref, Multiset.map_add, Multiset.nodup_add] at distinct
  obtain ⟨here, _, apart⟩ := distinct
  refine ⟨here, fun id member => ?_⟩
  exact freshOrphan { c with busy := c.busy.erase ref }
    (Multiset.disjoint_left.mp apart (Multiset.mem_coe.mpr member))

theorem orphanOwed (ref : WorkerRef) (frames : List (StackFrame γ))
    (distinct : ((requestsOf frames).map Prod.fst).Nodup)
    (fresh : ∀ id ∈ (requestsOf frames).map Prod.fst, c.orphans.get? id = none) :
    (c.orphan ref frames).owed = requestsOf frames + c.owed := by
  induction frames generalizing c with
  | nil => exact (zero_add _).symm
  | cons f rest ih =>
    cases f with
    | debugging view => exact ih distinct fresh
    | evaluating id k =>
      obtain ⟨other, distinct⟩ := List.nodup_cons.mp distinct
      obtain ⟨absent, fresh⟩ := List.forall_mem_cons.mp fresh
      refine (ih (c := { c with orphans := c.orphans.insert id (ref, k) }) distinct ?_).trans ?_
      · intro later inside
        have apart : id ≠ later := fun same => other (same ▸ inside)
        simpa [apart] using fresh later inside
      · rw [owedLeft c ref k absent]
        simp [← Multiset.cons_coe, Multiset.cons_add]

/- The requests of `gone` are no longer owed; all else that is owed still is. -/
structure Releases (c c' : Machine γ) (gone : Multiset (Request γ)) : Prop where
  owed : c.owed = gone + c'.owed
  lastId : c'.lastId = c.lastId

theorem releasesNone (c : Machine γ) : c.Releases c 0 := ⟨(zero_add _).symm, rfl⟩

theorem owedExchange (frames : List (StackFrame γ)) (gone new : Multiset (Request γ))
    {ref : WorkerRef} {stack : List (StackFrame γ)} (before : c.stack ref = stack)
    (exchanged : gone + requestsOf frames = new + requestsOf stack) :
    gone + (c.setStack ref frames).owed = new + c.owed := by
  rw [owedStack c ref, owedSetStack, before, ← add_assoc, exchanged, add_assoc]

theorem takenReleases {ref : WorkerRef} {id : RequestId} {owner : Option WorkerRef} {k : Option γ}
    (taken : c.takeRequest ref id = (.ok (owner, k), c')) : c.Releases c' {(id, k)} := by
  unfold takeRequest at taken
  split at taken
  next waiting =>
    cases taken
    exact ⟨owedUnbound c waiting, rfl⟩
  · split at taken
    next left =>
      split at taken
      · cases taken
        exact ⟨owedOrphan c _ left, rfl⟩
      · cases taken
    · split at taken
      next found =>
        cases taken
        obtain ⟨levels, below, stack, above, nested, rfl⟩ := uncoverEq.mp found
        refine ⟨?_, lastIdSetStack ..⟩
        refine ((owedExchange _ _ 0 stack ?_).trans (zero_add _)).symm
        rw [zero_add, Multiset.singleton_add, Multiset.cons_coe]
        exact Multiset.coe_eq_coe.mpr (by simpa using List.perm_middle.symm)
      · cases taken

theorem Takes.releases {m : Message} (takes : Takes c m c') (distinct : c.owedIds.Nodup)
    (silent : ∀ ref value id, m ≠ .returned ref value id) : c.Releases c' 0 := by
  refine ⟨?_, takes.lastId⟩
  rw [zero_add]
  cases takes with
  | unreached | orphaned | uncovered => exact absurd rfl (silent _ _ _)
  | activated | told | asked | aborted => rfl
  | @opened ref _ _ _ _ stack next busy =>
    have before : c.stack ref = stack := by simp [Machine.stack, busy]
    simpa using (owedExchange (.debugging _ :: stack) 0 0 before (by simp)).symm
  | @bound id ref k waiting idle =>
    have empty : c.stack ref = [] := by simp [stack, idle]
    have moved := owedExchange (c := { c with unbound := c.unbound.erase id }) [.evaluating id k]
      0 {(id, k)} empty (by simp)
    rw [zero_add] at moved
    exact (owedUnbound c waiting).trans moved.symm
  | @closed ref level requests view below stack above same =>
    obtain ⟨apart, fresh⟩ := stackApart distinct ref
    rw [stack, requestsAppend, List.map_append] at apart fresh
    have orphaned := orphanOwed (c := c) ref requests (List.nodup_append.mp apart).1
      fun id member => fresh id (List.mem_append_left _ member)
    have moved := owedExchange below (requestsOf requests) 0
      ((stackOrphan c ref ref requests).trans stack) (by simp)
    rw [orphaned, zero_add] at moved
    exact (add_left_cancel moved).symm

theorem reactSilent {m : Message} {effects : List (Effect γ)}
    (taken : c.react m = (.ok effects, c')) (other : ∀ ref value id, m ≠ .returned ref value id) :
    ∀ e ∈ effects, e.answered? = none := by
  cases m with
  | returned => exact absurd rfl (other _ _ _)
  | workerAssigned id ref =>
    rcases result : c.bind id ref with ⟨_ | _, _⟩ <;> simp only [react, result] at taken <;>
      cases taken
    simp
  | debugEnter ref level description restarts backtrace =>
    rcases result : c.openLevel ref ⟨level, description, restarts, backtrace⟩ with ⟨_ | _, _⟩ <;>
      simp only [react, result] at taken <;> cases taken
    simp [Effect.answered?]
  | debugReturn ref level =>
    rcases result : c.closeLevel ref level with ⟨_ | _, _⟩ <;>
      simp only [react, result] at taken <;> cases taken
    simp [Effect.answered?]
  | debugActivate | readAborted =>
    simp only [react] at taken
    split at taken <;> cases taken
    simp [Effect.answered?]
  | request | interrupt | readStringReply => cases taken
  | _ =>
    cases taken
    simp [Effect.answered?]

theorem reactReleases {m : Message} {effects : List (Effect γ)} (distinct : c.owedIds.Nodup)
    (taken : c.react m = (.ok effects, c')) :
    ∃ settled, Settles effects settled ∧ c.Releases c' settled := by
  cases m with
  | returned ref value id =>
    simp only [react] at taken
    rcases result : c.takeRequest ref id with ⟨_ | ⟨owner, k⟩, after⟩ <;> rw [result] at taken
    · cases taken
    · cases taken
      exact ⟨_, settlesOne owner id value k, takenReleases result⟩
  | _ =>
    have silent := reactSilent taken (by simp)
    exact ⟨0, settlesNone silent, (reactTakes taken).releases distinct (by simp)⟩

theorem reactDrops {m : Message} {d : Desync} (refused : c.react m = (.error d, c')) :
    ∃ lost : Multiset (Request γ), lost.map Prod.fst = d.dropped ∧ c.Releases c' lost := by
  cases m with
  | workerAssigned id ref =>
    simp only [react, bind] at refused
    split at refused
    · cases refused
      exact ⟨0, rfl, releasesNone c⟩
    next k waiting =>
      split at refused
      · cases refused
        exact ⟨{(id, k)}, rfl, owedUnbound c waiting, rfl⟩
      · cases refused
  | returned ref value id =>
    simp only [react, takeRequest] at refused
    split at refused
    · cases refused
    · split at refused
      next owner k left =>
        split at refused
        · cases refused
        · cases refused
          exact ⟨{(id, k)}, rfl, owedOrphan c owner left, rfl⟩
      · split at refused
        · cases refused
        · cases refused
          exact ⟨0, rfl, releasesNone c⟩
  | debugEnter ref level description restarts backtrace =>
    simp only [react, openLevel] at refused
    split at refused
    · cases refused
      exact ⟨0, rfl, releasesNone c⟩
    · split at refused
      · cases refused
        exact ⟨0, rfl, releasesNone c⟩
      · cases refused
  | debugReturn ref level =>
    simp only [react, closeLevel] at refused
    split at refused
    · split at refused
      · cases refused
      · cases refused
        exact ⟨0, rfl, releasesNone c⟩
    · cases refused
      exact ⟨0, rfl, releasesNone c⟩
  | debugActivate | readAborted =>
    simp only [react] at refused
    split at refused <;> cases refused
    exact ⟨0, rfl, releasesNone c⟩
  | request | interrupt | readStringReply =>
    cases refused
    exact ⟨0, rfl, releasesNone c⟩
  | _ => cases refused

theorem handleReleases {m : Message} {effects : List (Effect γ)} (distinct : c.owedIds.Nodup)
    (taken : c.handle m = (.ok effects, c')) :
    ∃ settled, Settles effects settled ∧ c.Releases c' settled := by
  rcases result : c.react m with ⟨_ | told, after⟩ <;> simp only [handle, result] at taken <;>
    cases taken
  exact reactReleases distinct result

theorem handleDrops {m : Message} {e : Error} (refused : c.handle m = (.error e, c')) :
    ∃ d : Desync, e = d.toError ∧
      ∃ lost : Multiset (Request γ), lost.map Prod.fst = d.dropped ∧ c.Releases c' lost := by
  rcases result : c.react m with ⟨d | _, after⟩ <;> simp only [handle, result] at refused <;>
    cases refused
  exact ⟨d, rfl, reactDrops result⟩

theorem handleLastId (c : Machine γ) (m : Message) : (c.handle m).2.lastId = c.lastId := by
  rcases result : c.handle m with ⟨_ | effects, after⟩
  · obtain ⟨_, _, _, _, released⟩ := handleDrops result
    exact released.lastId
  · exact (handleTakes.mp ⟨effects, result⟩).lastId

theorem evaluateNumber {form package : String} {worker : Option WorkerRef} {k : Option γ}
    {id : RequestId} {m : Message}
    (accepted : c.evaluate form package worker k = (.ok (id, m), c')) :
    id = c.lastId + 1 ∧ c'.lastId = c.lastId + 1 := by
  unfold evaluate at accepted
  split at accepted
  · cases accepted
    exact ⟨rfl, rfl⟩
  · split at accepted <;> cases accepted
    exact ⟨rfl, lastIdSetStack ..⟩

theorem evaluateOwed {form package : String} {worker : Option WorkerRef} {k : Option γ}
    {id : RequestId} {m : Message} (fresh : c.lastId + 1 ∉ c.owedIds)
    (accepted : c.evaluate form package worker k = (.ok (id, m), c')) :
    c'.owed = (id, k) ::ₘ c.owed := by
  cases worker with
  | none =>
    cases accepted
    exact owedInsert c k (freshUnbound c fresh)
  | some ref =>
    simp only [evaluate] at accepted
    split at accepted <;> cases accepted
    have same : { c with lastId := c.lastId + 1 }.stack ref = c.stack ref := rfl
    have pushed := owedExchange (.evaluating (c.lastId + 1) k :: c.stack ref) 0
      {(c.lastId + 1, k)} same (by simp)
    rwa [zero_add] at pushed

theorem evaluateRefused {form package : String} {worker : Option WorkerRef} {k : Option γ}
    {e : Error} (refused : c.evaluate form package worker k = (.error e, c')) : c' = c := by
  unfold evaluate at refused
  split at refused
  · cases refused
  · split at refused <;> cases refused
    rfl

theorem replyReleases (c : Machine γ) (ref : WorkerRef) (tag : Tag) (text : String) :
    c.Releases (c.returnString ref tag text).2 0 := by
  unfold returnString
  split
  · exact ⟨(zero_add _).symm, rfl⟩
  · exact releasesNone c

theorem replyOutstanding (c : Machine γ) (ref : WorkerRef) (tag : Tag) (text : String) :
    (c.returnString ref tag text).2.outstanding = c.outstanding := by
  unfold returnString
  split <;> rfl

section Abort
variable (c : Machine γ) (reason : String)

theorem abortOwed : (c.abortAll reason).2.owed = 0 := rfl

theorem abortAnswered :
    (c.abortAll reason).1.filterMap Effect.answered? = c.outstanding.map Prod.snd := by
  simp [abortAll, List.filterMap_map, Function.comp_def, Effect.answered?, List.filterMap_eq_map']

theorem abortOnce (distinct : c.owedIds.Nodup) (id : RequestId) :
    ((c.abortAll reason).1.filter fun e => e.answered? == some id).length =
      if id ∈ c.outstanding.map Prod.snd then 1 else 0 := by
  rw [owedOutstanding, Multiset.coe_nodup] at distinct
  rw [answersLength, abortAnswered, distinct.count]

theorem abortSettles : Settles (c.abortAll reason).1 c.owed where
  ids := by rw [abortAnswered, ← owedOutstanding, owedIds]
  carried member := by
    obtain ⟨place, inside, made⟩ := List.mem_map.mp member
    cases made
    have owing : place.2 ∈ c.owedIds := by
      rw [owedOutstanding]
      exact List.mem_map_of_mem inside
    obtain ⟨⟨_, own⟩, here, rfl⟩ := Multiset.mem_map.mp owing
    exact ⟨own, here, rfl⟩

end Abort

end Machine
end RemoteEval.Client
