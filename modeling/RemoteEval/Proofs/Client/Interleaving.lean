import RemoteEval.Proofs.Client.Nesting

/-! Messages about different workers, in either order. What a message reads and changes is the
part of its worker and of a few requests: the one it names and those on the worker's stack. The
parts of two messages about different workers have nothing in common, since no request is in two
places. So the messages can change places, and with them two whole streams of messages. How long
the server keeps a message is not seen. -/
namespace RemoteEval

def Message.worker? : Message → Option WorkerRef
  | .request _ _ (.worker ref) _ | .interrupt ref | .readStringReply ref _ _
  | .workerAssigned _ ref | .returned ref _ _ | .debugEnter ref _ _ _ _ | .debugActivate ref _
  | .debugReturn ref _ | .debugConditionText ref _ | .readStringRequest ref _
  | .readAborted ref _ => some ref
  | _ => none

def Message.requestId? : Message → Option RequestId
  | .request _ _ _ id | .workerAssigned id _ | .returned _ _ id => some id
  | _ => none

namespace Client
variable {γ : Type}

structure Part where
  worker : WorkerRef → Prop
  request : RequestId → Prop

namespace Part

instance : LE Part :=
  ⟨fun p q => (∀ ref, p.worker ref → q.worker ref) ∧ ∀ id, p.request id → q.request id⟩

def all : Part := ⟨fun _ => True, fun _ => True⟩

def without (p q : Part) : Part :=
  ⟨fun ref => p.worker ref ∧ ¬ q.worker ref, fun id => p.request id ∧ ¬ q.request id⟩

def outside (p : Part) : Part := all.without p

end Part

namespace Machine
variable {c d c' d' : Machine γ} {p q : Part}

/- Two machines look the same on a part. -/
structure Agree (p : Part) (c d : Machine γ) : Prop where
  busy : ∀ {ref}, p.worker ref → c.busy.get? ref = d.busy.get? ref
  reads : ∀ {ref}, p.worker ref → ∀ tag, c.reads.get? (ref, tag) = d.reads.get? (ref, tag)
  unbound : ∀ {id}, p.request id → c.unbound.get? id = d.unbound.get? id
  orphans : ∀ {id}, p.request id → c.orphans.get? id = d.orphans.get? id

namespace Agree

theorem refl (p : Part) (c : Machine γ) : Agree p c c :=
  ⟨fun _ => rfl, fun _ _ => rfl, fun _ => rfl, fun _ => rfl⟩

theorem symm (agree : Agree p c d) : Agree p d c :=
  ⟨fun inside => (agree.busy inside).symm, fun inside tag => (agree.reads inside tag).symm,
    fun inside => (agree.unbound inside).symm, fun inside => (agree.orphans inside).symm⟩

theorem trans (agree : Agree p c d) (next : Agree p d d') : Agree p c d' :=
  ⟨fun inside => (agree.busy inside).trans (next.busy inside),
    fun inside tag => (agree.reads inside tag).trans (next.reads inside tag),
    fun inside => (agree.unbound inside).trans (next.unbound inside),
    fun inside => (agree.orphans inside).trans (next.orphans inside)⟩

theorem mono (agree : Agree q c d) (less : p ≤ q) : Agree p c d :=
  ⟨fun inside => agree.busy (less.1 _ inside), fun inside => agree.reads (less.1 _ inside),
    fun inside => agree.unbound (less.2 _ inside), fun inside => agree.orphans (less.2 _ inside)⟩

theorem cover (inside : Agree p c d) (rest : Agree (q.without p) c d) : Agree q c d where
  busy {ref} member := by
    by_cases here : p.worker ref
    · exact inside.busy here
    · exact rest.busy ⟨member, here⟩
  reads {ref} member tag := by
    by_cases here : p.worker ref
    · exact inside.reads here tag
    · exact rest.reads ⟨member, here⟩ tag
  unbound {id} member := by
    by_cases here : p.request id
    · exact inside.unbound here
    · exact rest.unbound ⟨member, here⟩
  orphans {id} member := by
    by_cases here : p.request id
    · exact inside.orphans here
    · exact rest.orphans ⟨member, here⟩

theorem whole (agree : Agree .all c d) (lastId : c.lastId = d.lastId) : c = d := by
  have busy : c.busy = d.busy := Table.ext fun _ => agree.busy trivial
  have reads : c.reads = d.reads := Table.ext fun (_, tag) => agree.reads trivial tag
  have unbound : c.unbound = d.unbound := Table.ext fun _ => agree.unbound trivial
  have orphans : c.orphans = d.orphans := Table.ext fun _ => agree.orphans trivial
  cases c
  cases d
  simp_all

theorem stack (agree : Agree p c d) {ref : WorkerRef} (here : p.worker ref) :
    c.stack ref = d.stack ref := by
  unfold Machine.stack
  rw [agree.busy here]

end Agree

section Changes
variable (ref : WorkerRef) (id : RequestId) (tag : Tag) (stack frames : List (StackFrame γ))

theorem Agree.setStack (agree : Agree p c d) :
    Agree p (c.setStack ref stack) (d.setStack ref stack) where
  busy here := by rw [busySetStack, busySetStack, agree.busy here]
  reads here tag := by rw [readsSetStack, readsSetStack, agree.reads here tag]
  unbound here := by rw [unboundSetStack, unboundSetStack, agree.unbound here]
  orphans here := by rw [orphansSetStack, orphansSetStack, agree.orphans here]

theorem setStackOutside (c : Machine γ) (inside : p.worker ref) :
    Agree p.outside c (c.setStack ref stack) where
  busy {other} out := by
    have apart : other ≠ ref := fun same => out.2 (same ▸ inside)
    rw [busySetStack, if_neg apart]
  reads {other} out tag := by
    have apart : other ≠ ref := fun same => out.2 (same ▸ inside)
    rw [readsSetStack, if_neg (fun both => apart both.2)]
  unbound _ := by rw [unboundSetStack]
  orphans _ := by rw [orphansSetStack]

theorem Agree.eraseUnbound (agree : Agree p c d) :
    Agree p { c with unbound := c.unbound.erase id } { d with unbound := d.unbound.erase id } :=
  { agree with
    unbound := fun here => by rw [Table.getErase, Table.getErase, agree.unbound here] }

theorem eraseUnboundOutside (c : Machine γ) (inside : p.request id) :
    Agree p.outside c { c with unbound := c.unbound.erase id } :=
  { Agree.refl p.outside c with
    unbound := fun {other} out => by
      have apart : other ≠ id := fun same => out.2 (same ▸ inside)
      rw [Table.getErase, if_neg (mt Table.rankEq.mp apart)] }

theorem Agree.eraseOrphan (agree : Agree p c d) :
    Agree p { c with orphans := c.orphans.erase id } { d with orphans := d.orphans.erase id } :=
  { agree with
    orphans := fun here => by rw [Table.getErase, Table.getErase, agree.orphans here] }

theorem eraseOrphanOutside (c : Machine γ) (inside : p.request id) :
    Agree p.outside c { c with orphans := c.orphans.erase id } :=
  { Agree.refl p.outside c with
    orphans := fun {other} out => by
      have apart : other ≠ id := fun same => out.2 (same ▸ inside)
      rw [Table.getErase, if_neg (mt Table.rankEq.mp apart)] }

theorem Agree.insertOrphan (agree : Agree p c d) (entry : WorkerRef × Option γ) :
    Agree p { c with orphans := c.orphans.insert id entry }
      { d with orphans := d.orphans.insert id entry } :=
  { agree with
    orphans := fun here => by rw [Table.getInsert, Table.getInsert, agree.orphans here] }

theorem insertOrphanOutside (c : Machine γ) (entry : WorkerRef × Option γ)
    (inside : p.request id) :
    Agree p.outside c { c with orphans := c.orphans.insert id entry } :=
  { Agree.refl p.outside c with
    orphans := fun {other} out => by
      have apart : id ≠ other := fun same => out.2 (same ▸ inside)
      rw [Table.getInsert, if_neg (mt Table.rankEq.mp apart)] }

theorem Agree.orphan (agree : Agree p c d) :
    Agree p (c.orphan ref frames) (d.orphan ref frames) := by
  induction frames generalizing c d with
  | nil => exact agree
  | cons f rest ih =>
    cases f with
    | debugging view => exact ih agree
    | evaluating id k => exact ih (agree.insertOrphan id (ref, k))

theorem orphanOutside (c : Machine γ) (inside : ∀ id ∈ requestIds frames, p.request id) :
    Agree p.outside c (c.orphan ref frames) := by
  induction frames generalizing c with
  | nil => exact .refl _ c
  | cons f rest ih =>
    cases f with
    | debugging view => exact ih c inside
    | evaluating id k =>
      obtain ⟨own, others⟩ := List.forall_mem_cons.mp inside
      exact (insertOrphanOutside id c (ref, k) own).trans (ih _ others)

theorem Agree.insertRead (agree : Agree p c d) :
    Agree p { c with reads := c.reads.insert (ref, tag) () }
      { d with reads := d.reads.insert (ref, tag) () } :=
  { agree with
    reads := fun here own => by rw [Table.getInsert, Table.getInsert, agree.reads here own] }

theorem insertReadOutside (c : Machine γ) (inside : p.worker ref) :
    Agree p.outside c { c with reads := c.reads.insert (ref, tag) () } :=
  { Agree.refl p.outside c with
    reads := fun {other} out own => by
      have apart : (ref, tag) ≠ (other, own) := fun same => out.2 ((Prod.mk.inj same).1 ▸ inside)
      rw [Table.getInsert, if_neg (mt Table.rankEq.mp apart)] }

theorem Agree.eraseRead (agree : Agree p c d) :
    Agree p { c with reads := c.reads.erase (ref, tag) }
      { d with reads := d.reads.erase (ref, tag) } :=
  { agree with
    reads := fun here own => by rw [Table.getErase, Table.getErase, agree.reads here own] }

theorem eraseReadOutside (c : Machine γ) (inside : p.worker ref) :
    Agree p.outside c { c with reads := c.reads.erase (ref, tag) } :=
  { Agree.refl p.outside c with
    reads := fun {other} out own => by
      have apart : (other, own) ≠ (ref, tag) := fun same => out.2 ((Prod.mk.inj same).1 ▸ inside)
      rw [Table.getErase, if_neg (mt Table.rankEq.mp apart)] }

end Changes

def part (c : Machine γ) (m : Message) : Part where
  worker ref := m.worker? = some ref
  request id := m.requestId? = some id ∨
    ∃ ref, m.worker? = some ref ∧ id ∈ requestIds (c.stack ref)

theorem reactLocal {m : Message} (worker : ∀ ref, m.worker? = some ref → p.worker ref)
    (request : ∀ id, m.requestId? = some id → p.request id) (agree : Agree p c d) :
    (c.react m).1 = (d.react m).1 ∧ Agree p (c.react m).2 (d.react m).2 := by
  cases m with
  | workerAssigned id ref =>
    have waiting := agree.unbound (request id rfl)
    have busy := agree.busy (worker ref rfl)
    rcases found : d.unbound.get? id with _ | k <;> rw [found] at waiting
    · simp only [react, bind, waiting, found]
      exact ⟨trivial, agree⟩
    · rcases known : d.busy.get? ref with _ | frames <;> rw [known] at busy <;>
        simp only [react, bind, waiting, found, Table.contains, busy, known]
      · exact ⟨rfl, (agree.eraseUnbound id).setStack ref [.evaluating id k]⟩
      · exact ⟨rfl, agree.eraseUnbound id⟩
  | returned ref value id =>
    have waiting := agree.unbound (request id rfl)
    have left := agree.orphans (request id rfl)
    have stack := agree.stack (worker ref rfl)
    rcases found : d.unbound.get? id with _ | k <;> rw [found] at waiting
    · rcases owned : d.orphans.get? id with _ | ⟨owner, k⟩ <;> rw [owned] at left
      · simp only [react, takeRequest, waiting, found, left, owned, stack, top]
        cases uncover id (d.stack ref) with
        | some taken => exact ⟨rfl, agree.setStack ref taken.2⟩
        | none => exact ⟨rfl, agree⟩
      · simp only [react, takeRequest, waiting, found, left, owned]
        by_cases own : owner = ref
        · rw [if_pos own, if_pos own]
          exact ⟨rfl, agree.eraseOrphan id⟩
        · rw [if_neg own, if_neg own]
          exact ⟨rfl, agree.eraseOrphan id⟩
    · simp only [react, takeRequest, waiting, found]
      exact ⟨trivial, agree.eraseUnbound id⟩
  | debugEnter ref level description restarts backtrace =>
    have stack := agree.stack (worker ref rfl)
    have busy := agree.busy (worker ref rfl)
    by_cases next : level.toNat = (d.stack ref).countP StackFrame.isDebugging + 1
    · rcases known : d.busy.get? ref with _ | frames <;> rw [known] at busy <;>
        simp only [react, openLevel, debugLevel, stack, next, ne_eq, not_true, if_false, busy,
          known]
      · exact ⟨trivial, agree⟩
      · exact ⟨trivial, agree.setStack ref _⟩
    · simp only [react, openLevel, debugLevel, stack, next, ne_eq, not_false_eq_true, if_true]
      exact ⟨trivial, agree⟩
  | debugActivate ref level =>
    have stack := agree.stack (worker ref rfl)
    by_cases innermost :
        ((d.stack ref).findSome? StackFrame.view?).map DebuggerView.level = some level <;>
      simp only [react, debugger, stack, innermost, if_true, if_false] <;> exact ⟨trivial, agree⟩
  | debugReturn ref level =>
    have stack := agree.stack (worker ref rfl)
    simp only [react, closeLevel, stack]
    split
    next view below _ =>
      by_cases same : view.level = level
      · simp only [if_pos same]
        exact ⟨trivial, (agree.orphan ref _).setStack ref below⟩
      · simp only [if_neg same]
        exact ⟨trivial, agree⟩
    · exact ⟨rfl, agree⟩
  | readStringRequest ref tag => exact ⟨rfl, agree.insertRead ref tag⟩
  | readAborted ref tag =>
    have reads := agree.reads (worker ref rfl) tag
    rcases found : d.reads.get? (ref, tag) with _ | _ <;> rw [found] at reads <;>
      simp only [react, Table.contains, reads, found]
    · exact ⟨rfl, agree⟩
    · exact ⟨rfl, agree.eraseRead ref tag⟩
  | _ => exact ⟨rfl, agree⟩

theorem reactOutside (c : Machine γ) (m : Message) :
    Agree (c.part m).outside c (c.react m).2 := by
  have same : Agree (c.part m).outside c c := .refl _ c
  cases m with
  | workerAssigned id ref =>
    have erased := eraseUnboundOutside (p := c.part (.workerAssigned id ref)) id c (.inl rfl)
    simp only [react, bind]
    split
    · exact same
    · split
      · exact erased
      next k _ _ => exact erased.trans (setStackOutside ref [.evaluating id k] _ rfl)
  | returned ref value id =>
    simp only [react, takeRequest]
    split
    · exact eraseUnboundOutside id c (.inl rfl)
    · split
      · split <;> exact eraseOrphanOutside id c (.inl rfl)
      · split
        next k rest _ => exact setStackOutside ref rest c rfl
        · exact same
  | debugEnter ref level description restarts backtrace =>
    have own : (c.part (.debugEnter ref level description restarts backtrace)).worker ref := rfl
    simp only [react, openLevel]
    split
    · exact same
    · split
      · exact same
      next frames _ => exact setStackOutside ref (.debugging _ :: frames) c own
  | debugActivate ref level =>
    simp only [react]
    split <;> exact same
  | debugReturn ref level =>
    have left : ∀ id ∈ requestIds ((c.stack ref).takeWhile fun f => !f.isDebugging),
        (c.part (.debugReturn ref level)).request id := fun id member =>
      .inr ⟨ref, rfl, ((List.takeWhile_sublist _).filterMap _).subset member⟩
    simp only [react, closeLevel]
    split
    · split
      · exact (orphanOutside ref _ c left).trans (setStackOutside ref _ _ rfl)
      · exact same
    · exact same
  | readStringRequest ref tag => exact insertReadOutside ref tag c rfl
  | readAborted ref tag =>
    simp only [react]
    split
    · exact eraseReadOutside ref tag c rfl
    · exact same
  | _ => exact same

/- The request is on the worker's stack, or it was left there by a level that closed. -/
def With (c : Machine γ) (ref : WorkerRef) (id : RequestId) : Prop :=
  id ∈ requestIds (c.stack ref) ∨ c.owner? id = some ref

section Places
variable {ref other : WorkerRef} {id : RequestId}

theorem unboundOwed {k : Option γ} (waiting : c.unbound.get? id = some k) : id ∈ c.owedIds := by
  simp [owedIds, owedUnbound c waiting]

theorem stackOwed (here : id ∈ requestIds (c.stack ref)) : id ∈ c.owedIds := by
  rw [owedIds, owedStack c ref, Multiset.map_add, Multiset.map_coe, requestsIds]
  exact Multiset.mem_add.mpr (.inl here)

theorem ownerOwed (left : c.owner? id = some ref) : id ∈ c.owedIds := by
  obtain ⟨⟨owner, k⟩, found, rfl⟩ := Option.map_eq_some_iff.mp left
  simp [owedIds, owedOrphan c owner found]

theorem With.owed (placed : c.With ref id) : id ∈ c.owedIds := by
  rcases placed with here | left
  · exact stackOwed here
  · exact ownerOwed left

theorem stackAlone (distinct : c.owedIds.Nodup) (here : id ∈ requestIds (c.stack ref)) :
    id ∉ { c with busy := c.busy.erase ref }.owedIds := by
  rw [owedIds, owedStack c ref, Multiset.map_add, Multiset.map_coe, requestsIds,
    Multiset.nodup_add] at distinct
  exact Multiset.disjoint_left.mp distinct.2.2 here

theorem With.reached (placed : c.With ref id) (distinct : c.owedIds.Nodup) :
    c.unbound.get? id = none := by
  rcases placed with here | left
  · exact freshUnbound { c with busy := c.busy.erase ref } (stackAlone distinct here)
  · obtain ⟨⟨owner, k⟩, found, rfl⟩ := Option.map_eq_some_iff.mp left
    rw [owedIds, owedOrphan c owner found, Multiset.map_cons, Multiset.nodup_cons] at distinct
    exact freshUnbound { c with orphans := c.orphans.erase id } distinct.1

theorem With.once (placed : c.With ref id) (again : c.With other id)
    (distinct : c.owedIds.Nodup) : ref = other := by
  by_contra apart
  have elsewhere {ref other : WorkerRef} (apart : ref ≠ other)
      (here : id ∈ requestIds (c.stack ref)) (again : c.With other id) : False := by
    have still : { c with busy := c.busy.erase ref }.With other id := by
      simpa [With, Machine.stack, owner?, Ne.symm apart] using again
    exact stackAlone distinct here still.owed
  rcases placed with here | left
  · exact elsewhere apart here again
  · rcases again with there | right
    · exact elsewhere (Ne.symm apart) there (.inr left)
    · exact apart (Option.some.inj (left.symm.trans right))

end Places

theorem Takes.before {m : Message} {id : RequestId} (takes : Takes c m c')
    (about : (c.part m).request id) :
    (∃ k, c.unbound.get? id = some k) ∨ ∃ ref, m.worker? = some ref ∧ c.With ref id := by
  rcases about with named | ⟨ref, own, here⟩
  · cases takes with
    | bound waiting | unreached waiting =>
      cases named
      exact .inl ⟨_, waiting⟩
    | orphaned reached left =>
      cases named
      exact .inr ⟨_, rfl, .inr (ownerOf left)⟩
    | uncovered reached owned stack =>
      cases named
      exact .inr ⟨_, rfl, .inl (by simp [stack, requestIds])⟩
    | @told m plain =>
      cases m <;> contradiction
    | _ => cases named
  · exact .inr ⟨ref, own, .inl here⟩

theorem answeredGone {ref : WorkerRef} {value : Outcome} {id : RequestId}
    (distinct : c.owedIds.Nodup) (takes : Takes c (.returned ref value id) c') :
    id ∉ c'.owedIds := by
  obtain ⟨effects, taken⟩ := takesReact takes
  simp only [react] at taken
  rcases result : c.takeRequest ref id with ⟨_ | ⟨owner, k⟩, after⟩ <;> rw [result] at taken <;>
    cases taken
  rw [owedIds, (takenReleases result).owed, Multiset.map_add, Multiset.nodup_add] at distinct
  exact Multiset.disjoint_left.mp distinct.2.2 (by simp)

theorem Takes.after {m : Message} {id : RequestId} (takes : Takes c m c')
    (distinct : c.owedIds.Nodup) (about : (c.part m).request id) :
    id ∉ c'.owedIds ∨ ∃ ref, m.worker? = some ref ∧ c'.With ref id := by
  have gone {ref value id} (same : m = .returned ref value id) : id ∉ c'.owedIds := by
    subst same
    exact answeredGone distinct takes
  cases takes with
  | @bound own ref k waiting idle =>
    rcases about with named | ⟨_, own, here⟩
    · cases named
      exact .inr ⟨ref, rfl, .inl (by simp [requestIds])⟩
    · cases own
      simp [stack, idle, requestIds] at here
  | unreached waiting =>
    rcases about with named | ⟨ref, own, here⟩
    · cases named
      exact .inl (gone rfl)
    · exact .inr ⟨ref, own, .inl here⟩
  | orphaned reached left =>
    rcases about with named | ⟨ref, own, here⟩
    · cases named
      exact .inl (gone rfl)
    · exact .inr ⟨ref, own, .inl here⟩
  | @uncovered ref value own k levels below reached owned stack above nested =>
    by_cases same : own = id
    · subst same
      exact .inl (gone rfl)
    · rcases about with named | ⟨_, mine, here⟩
      · cases named
        contradiction
      · cases mine
        refine .inr ⟨ref, rfl, .inl ?_⟩
        rw [stackSetStack, if_pos rfl]
        rw [stack] at here
        simpa [requestIds, Ne.symm same] using here
  | @opened ref level description restarts backtrace stack next busy =>
    rcases about with named | ⟨_, mine, here⟩
    · cases named
    · cases mine
      refine .inr ⟨ref, rfl, .inl ?_⟩
      rw [stackSetStack, if_pos rfl]
      simpa [Machine.stack, busy, requestIds] using here
  | @closed ref level requests view below stack above same =>
    rcases about with named | ⟨_, mine, here⟩
    · cases named
    · cases mine
      refine .inr ⟨ref, rfl, ?_⟩
      rw [stack] at here
      unfold With
      rw [stackSetStack, if_pos rfl, ownerSetStack, ownerOrphan]
      by_cases left : id ∈ requestIds requests
      · exact .inr (if_pos left)
      · rw [requestIds, List.filterMap_append, List.mem_append] at here
        exact .inl (by simpa [requestIds] using here.resolve_left left)
  | activated | asked | aborted =>
    rcases about with named | ⟨ref, own, here⟩
    · cases named
    · exact .inr ⟨ref, own, .inl here⟩
  | @told m plain =>
    rcases about with named | ⟨ref, own, here⟩
    · cases m <;> contradiction
    · exact .inr ⟨ref, own, .inl here⟩

theorem partsApart {m m' : Message} {id : RequestId}
    (distinct : c'.owedIds.Nodup) (before : c.owedIds.Nodup) (takes : Takes c m c')
    (next : Takes c' m' d) (apart : m.worker? ≠ m'.worker?) (about : (c.part m).request id) :
    ¬ (c'.part m').request id := by
  intro again
  rcases takes.after before about with gone | ⟨ref, own, placed⟩
  · rcases next.before again with ⟨k, waiting⟩ | ⟨_, _, placed⟩
    · exact gone (unboundOwed waiting)
    · exact gone placed.owed
  · rcases next.before again with ⟨k, waiting⟩ | ⟨ref', own', placed'⟩
    · rw [placed.reached distinct] at waiting
      cases waiting
    · exact apart (own.trans ((placed.once placed' distinct) ▸ own'.symm))

theorem handleOk {m : Message} {effects : List (Effect γ)} :
    c.handle m = (.ok effects, c') ↔ c.react m = (.ok effects, c') := by
  rcases result : c.react m with ⟨d | told, after⟩ <;> simp [handle, result, Except.mapError]

theorem handleOutside {m : Message} {effects : List (Effect γ)}
    (taken : c.handle m = (.ok effects, c')) : Agree (c.part m).outside c c' := by
  have outside := reactOutside c m
  rwa [handleOk.mp taken] at outside

theorem handleDistinct {m : Message} {effects : List (Effect γ)} (distinct : c.owedIds.Nodup)
    (taken : c.handle m = (.ok effects, c')) : c'.owedIds.Nodup := by
  obtain ⟨_, _, released⟩ := handleReleases distinct taken
  rw [owedIds, released.owed, Multiset.map_add] at distinct
  exact (Multiset.nodup_add.mp distinct).2.1

theorem partLocal {m : Message} (agree : Agree (c.part m) c d) : d.part m ≤ c.part m := by
  refine ⟨fun ref own => own, fun id about => about.imp_right ?_⟩
  rintro ⟨ref, own, here⟩
  exact ⟨ref, own, agree.stack own ▸ here⟩

theorem handleLocal {m : Message} {effects : List (Effect γ)} (agree : Agree (c.part m) c d)
    (taken : c.handle m = (.ok effects, c')) :
    ∃ d', d.handle m = (.ok effects, d') ∧ Agree (c.part m) c' d' ∧
      Agree (c.part m).outside d d' := by
  have react := handleOk.mp taken
  obtain ⟨verdict, alike⟩ := reactLocal (p := c.part m) (fun _ own => own) (fun _ named => Or.inl named) agree
  rw [react] at verdict alike
  have rest := (reactOutside d m).mono (p := (c.part m).outside) ⟨fun _ out => out, fun _ out =>
    ⟨trivial, fun about => out.2 ((partLocal agree).2 _ about)⟩⟩
  exact ⟨(d.react m).2, handleOk.mpr (Prod.ext verdict.symm rfl), alike, rest⟩

theorem handleSwap {m m' : Message} {effects effects' : List (Effect γ)}
    (distinct : c.owedIds.Nodup) (apart : m.worker? ≠ m'.worker?)
    (first : c.handle m = (.ok effects, c')) (second : c'.handle m' = (.ok effects', d)) :
    ∃ d', c.handle m' = (.ok effects', d') ∧ d'.handle m = (.ok effects, d) := by
  have takes := handleTakes.mp ⟨effects, first⟩
  have next := handleTakes.mp ⟨effects', second⟩
  have later := handleDistinct distinct first
  have requests {id} (about : (c.part m).request id) : ¬ (c'.part m').request id :=
    partsApart later distinct takes next apart about
  have workers {ref} (own : (c.part m).worker ref) : ¬ (c'.part m').worker ref :=
    fun also => apart (own.trans also.symm)
  have here : c.part m ≤ (c'.part m').outside :=
    ⟨fun _ own => ⟨trivial, workers own⟩, fun _ about => ⟨trivial, requests about⟩⟩
  have there : c'.part m' ≤ (c.part m).outside :=
    ⟨fun _ own => ⟨trivial, fun also => workers also own⟩,
      fun _ about => ⟨trivial, fun also => requests also about⟩⟩
  have moved := handleOutside first
  have kept := handleOutside second
  obtain ⟨d', early, same, still⟩ := handleLocal (moved.mono there).symm second
  obtain ⟨e, late, own, rest⟩ := handleLocal (still.mono here) first
  suffices equal : e = d from ⟨d', early, equal ▸ late⟩
  have lastId : e.lastId = d.lastId := by
    have one := (handleTakes.mp ⟨_, early⟩).lastId
    have other := (handleTakes.mp ⟨_, late⟩).lastId
    rw [other, one, next.lastId, takes.lastId]
  refine Agree.whole ?_ lastId
  -- On the part of `m'` and on that of `m`, and where neither changes anything.
  refine Agree.cover ((rest.mono there).symm.trans same.symm) (Agree.trans (d := c') ?_ kept)
  refine Agree.cover own.symm (p := c.part m) ?_
  have neither : (c'.part m').outside.without (c.part m) ≤ (c.part m).outside :=
    ⟨fun _ out => ⟨trivial, out.2⟩, fun _ out => ⟨trivial, out.2⟩⟩
  have nor : (c'.part m').outside.without (c.part m) ≤ (c'.part m').outside :=
    ⟨fun _ out => out.1, fun _ out => out.1⟩
  exact ((rest.mono neither).symm.trans (still.mono nor).symm).trans (moved.mono neither)

inductive Hears : Machine γ → List (Message × List (Effect γ)) → Machine γ → Prop where
  | nil (c : Machine γ) : Hears c [] c
  | cons {c c' d m effects told} (taken : c.handle m = (.ok effects, c'))
      (rest : Hears c' told d) : Hears c ((m, effects) :: told) d

namespace Hears

theorem front {first later : List (Message × List (Effect γ))} {m : Message}
    {effects : List (Effect γ)} (distinct : c.owedIds.Nodup)
    (apart : ∀ e ∈ first, e.1.worker? ≠ m.worker?)
    (hears : Hears c (first ++ (m, effects) :: later) d) :
    Hears c ((m, effects) :: (first ++ later)) d := by
  induction first generalizing c with
  | nil => exact hears
  | cons e first ih =>
    obtain ⟨other, others⟩ := List.forall_mem_cons.mp apart
    cases hears with
    | cons taken rest =>
      cases ih (handleDistinct distinct taken) others rest with
      | cons next rest =>
        obtain ⟨_, early, late⟩ := handleSwap distinct other taken next
        exact .cons early (.cons late rest)

end Hears

def about (worker : Option WorkerRef) (told : List (Message × List (Effect γ))) :
    List (Message × List (Effect γ)) :=
  told.filter fun e => e.1.worker? == worker

theorem aboutFront {first later : List (Message × List (Effect γ))}
    {e : Message × List (Effect γ)} (apart : ∀ f ∈ first, f.1.worker? ≠ e.1.worker?)
    (worker : Option WorkerRef) :
    about worker (first ++ e :: later) = about worker (e :: (first ++ later)) := by
  unfold about
  by_cases own : e.1.worker? = worker
  · have none : first.filter (fun f => f.1.worker? == worker) = [] :=
      List.filter_eq_nil_iff.mpr fun f member => by simpa [← own] using apart f member
    simp [own, none]
  · simp [own]

theorem Hears.reorder {told : List (Message × List (Effect γ))} {messages : List Message}
    (distinct : c.owedIds.Nodup) (hears : Hears c told d)
    (same : ∀ worker, messages.filter (·.worker? == worker) =
      (about worker told).map Prod.fst) :
    ∃ told', told'.map Prod.fst = messages ∧ Hears c told' d ∧
      ∀ worker, about worker told' = about worker told := by
  induction messages generalizing c told with
  | nil =>
    cases told with
    | nil => exact ⟨[], rfl, hears, fun _ => rfl⟩
    | cons e told => simpa [about] using same e.1.worker?
  | cons m messages ih =>
    have own := same m.worker?
    rw [List.filter_cons_of_pos (by simp), eq_comm, List.map_eq_cons_iff] at own
    obtain ⟨⟨m, effects⟩, others, next, rfl, _⟩ := own
    obtain ⟨first, later, rfl, apart, _, _⟩ := List.filter_eq_cons_iff.mp next
    have apart : ∀ e ∈ first, e.1.worker? ≠ m.worker? := fun e member => by
      simpa using apart e member
    cases hears.front distinct apart with
    | cons taken rest =>
      have less worker : messages.filter (·.worker? == worker) =
          (about worker (first ++ later)).map Prod.fst := by
        have both := same worker
        rw [aboutFront apart, about, List.filter_cons, List.filter_cons] at both
        by_cases mine : m.worker? = worker
        · simpa [mine, about] using both
        · simpa [mine, about] using both
      obtain ⟨told, order, hears, alike⟩ := ih (handleDistinct distinct taken) rest less
      refine ⟨(m, effects) :: told, congrArg (m :: ·) order, .cons taken hears, fun worker => ?_⟩
      rw [aboutFront apart, about, about, List.filter_cons, List.filter_cons]
      have tail := alike worker
      unfold about at tail
      rw [tail]

end Machine

namespace Ledger
open Machine

/- After any calls, two messages about different workers have the same effects in either order
and leave the same client behind. So do whole streams of messages, as long as the messages about
each worker come in the same order. -/
theorem interleavingsAgree {calls : List (Call γ)} {l : Ledger γ} (ran : run calls = l)
    (few : l.issued.length < 2 ^ 64) :
    (∀ m m' effects effects' c d, m.worker? ≠ m'.worker? →
      l.machine.handle m = (.ok effects, c) → c.handle m' = (.ok effects', d) →
      ∃ c', l.machine.handle m' = (.ok effects', c') ∧ c'.handle m = (.ok effects, d)) ∧
    ∀ told messages d, Hears l.machine told d →
      (∀ worker, messages.filter (·.worker? == worker) = (about worker told).map Prod.fst) →
      ∃ told', told'.map Prod.fst = messages ∧ Hears l.machine told' d ∧
        ∀ worker, about worker told' = about worker told := by
  obtain ⟨settled, lost, books, numbers⟩ := Reached.books ⟨calls, ran⟩ few
  have distinct := Multiset.nodup_of_le books.owedBelow (Multiset.coe_nodup.mpr numbers)
  refine ⟨fun m m' effects effects' c d apart first second => ?_, fun told messages d hears same => ?_⟩
  · exact handleSwap distinct apart first second
  · exact hears.reorder distinct same

def waitingCalls : List (Call Nat) :=
  [.evaluate "(foo)" "USER" none (some 10), .handle (.workerAssigned 1 1),
    .handle (.debugEnter 1 1 "Undefined function foo." [] []),
    .evaluate "(+ 1 2)" "USER" (some 1) (some 20), .evaluate "(bar)" "USER" none (some 30)]

theorem waitingAgree :
    (run waitingCalls).issued.length < 2 ^ 64 ∧ ∃ c d c',
      (run waitingCalls).machine.handle (.debugReturn 1 1) = (.ok [.exitDebugger 1 1], c) ∧
      c.handle (.workerAssigned 3 2) = (.ok [], d) ∧
      (run waitingCalls).machine.handle (.workerAssigned 3 2) = (.ok [], c') ∧
      c'.handle (.debugReturn 1 1) = (.ok [.exitDebugger 1 1], d) := by
  have few : (run waitingCalls).issued.length < 2 ^ 64 := by decide
  have ran : run waitingCalls = run waitingCalls := rfl
  obtain ⟨swaps, _⟩ := interleavingsAgree ran few
  have first : (run waitingCalls).machine.handle (.debugReturn 1 1) =
      (.ok [.exitDebugger 1 1], _) := rfl
  have second : ((run waitingCalls).machine.handle (.debugReturn 1 1)).2.handle
      (.workerAssigned 3 2) = (.ok [], _) := rfl
  obtain ⟨c', early, late⟩ := swaps _ _ _ _ _ _ (by decide) first second
  exact ⟨few, _, _, c', first, second, early, late⟩

end Ledger
end Client
end RemoteEval
