import RemoteEval.Proofs.Exchange.Run

/-! Where the client keeps its requests. One that was sent for a new worker waits until a
worker is assigned, and is then the outermost one of that worker. One that was sent to a
worker is on the stack of that worker or is an orphan, until its answer is heard. For this
requests must have different numbers. -/
namespace RemoteEval

open Client (Machine DebuggerView StackFrame)
open Client.Machine (requestIds isRequest)

variable {γ : Type}

/- A stack has the outermost request at its bottom, and other requests only at prompts. -/
inductive Based (outermost : RequestId) : List (StackFrame γ) → Prop where
  | bottom {k} : Based outermost [.evaluating outermost k]
  | level {view stack} (rest : Based outermost stack) : Based outermost (.debugging view :: stack)
  | request {id k view stack} (rest : Based outermost (.debugging view :: stack)) :
      Based outermost (.evaluating id k :: .debugging view :: stack)

namespace Based
variable {outermost : RequestId} {stack : List (StackFrame γ)}

theorem outermostMem (based : Based outermost stack) : outermost ∈ requestIds stack := by
  induction based with
  | bottom => exact List.mem_singleton_self _
  | level _ ih => exact ih
  | request _ ih => exact List.mem_cons_of_mem _ ih

theorem topmost (based : Based outermost stack) : ∃ levels id k below,
    stack = levels ++ .evaluating id k :: below ∧ (∀ f ∈ levels, f.isDebugging = true) ∧
    requestIds stack = id :: requestIds below := by
  induction based with
  | @bottom k => exact ⟨[], outermost, k, [], rfl, by simp, rfl⟩
  | @level view stack rest ih =>
    obtain ⟨levels, id, k, below, parts, above, ids⟩ := ih
    refine ⟨.debugging view :: levels, id, k, below, by simp [parts], ?_, ids⟩
    exact List.forall_mem_cons.mpr ⟨rfl, above⟩
  | @request id k view stack => exact ⟨[], id, k, .debugging view :: stack, rfl, by simp, rfl⟩

theorem under {f : StackFrame γ} (based : Based outermost (f :: stack)) (more : stack ≠ []) :
    Based outermost stack := by
  cases based with
  | bottom => contradiction
  | level rest => exact rest
  | request rest => exact rest

theorem covers {levels below : List (StackFrame γ)} {id k}
    (based : Based outermost (levels ++ .evaluating id k :: below)) (other : id ≠ outermost) :
    below ≠ [] := by
  induction levels with
  | nil =>
    cases based with
    | bottom => exact absurd rfl other
    | request => simp
  | cons f rest ih => exact ih (Based.under based (by simp))

theorem uncover {levels below : List (StackFrame γ)} {id k}
    (based : Based outermost (levels ++ .evaluating id k :: below))
    (above : ∀ f ∈ levels, f.isDebugging = true) (nested : below ≠ []) :
    Based outermost (levels ++ below) := by
  induction levels with
  | nil =>
    cases based with
    | bottom => contradiction
    | request rest => exact rest
  | cons f rest ih =>
    obtain ⟨first, others⟩ := List.forall_mem_cons.mp above
    cases f with
    | evaluating => contradiction
    | debugging view =>
      cases based with
      | level inner => exact .level (ih inner others)

theorem close {requests below : List (StackFrame γ)} {view}
    (based : Based outermost (requests ++ .debugging view :: below)) : Based outermost below := by
  induction requests with
  | nil =>
    cases based with
    | level rest => exact rest
  | cons f rest ih => exact ih (based.under (by simp))

end Based

theorem requestIdsAppend (first second : List (StackFrame γ)) :
    requestIds (first ++ second) = requestIds first ++ requestIds second :=
  List.filterMap_append

theorem sourceOnce {α β : Type} {f : α → Option β} {xs : List α} (distinct : (xs.filterMap f).Nodup)
    {x y : α} {b : β} (first : x ∈ xs) (second : y ∈ xs) (gives : f x = some b)
    (same : f y = some b) : x = y := by
  induction xs with
  | nil => contradiction
  | cons head rest ih =>
    have later : ∀ {z}, f head = some b → z ∈ rest → f z = some b → False := by
      intro z here there again
      rw [List.filterMap_cons_some here] at distinct
      exact (List.nodup_cons.mp distinct).1 (List.mem_filterMap.mpr ⟨z, there, again⟩)
    rcases List.mem_cons.mp first with rfl | first'
    · rcases List.mem_cons.mp second with rfl | second'
      · rfl
      · exact (later gives second' same).elim
    · rcases List.mem_cons.mp second with rfl | second'
      · exact (later same first' gives).elim
      · refine ih ?_ first' second'
        exact distinct.sublist ((List.sublist_cons_self head rest).filterMap _)

theorem oneRequest {sent : List Message} (distinct : (sent.filterMap Message.requested?).Nodup)
    {m n : Message} {id : RequestId} (first : m ∈ sent) (second : n ∈ sent)
    (asks : m.requested? = some id) (same : n.requested? = some id) : m = n :=
  sourceOnce distinct first second asks same

section Distinct
variable {sent : List Message} (distinct : (sent.filterMap Message.requested?).Nodup)
include distinct

theorem freshNotNested {id : RequestId} {ref : WorkerRef} (fresh : Fresh sent id) :
    ¬ Nested sent ref id := by
  obtain ⟨_, _, first⟩ := fresh
  rintro ⟨_, _, second⟩
  cases oneRequest distinct first second rfl rfl

theorem nestedOnce {id : RequestId} {ref other : WorkerRef} (first : Nested sent ref id)
    (second : Nested sent other id) : ref = other := by
  obtain ⟨_, _, first⟩ := first
  obtain ⟨_, _, second⟩ := second
  cases oneRequest distinct first second rfl rfl
  rfl

end Distinct

inductive Seated (sent : List Message) (ref : WorkerRef) :
    Option RequestId → List (StackFrame γ) → Prop where
  | vacant : Seated sent ref none []
  | taken {outermost stack} (based : Based outermost stack) (once : (requestIds stack).Nodup)
      (errands : ∀ id ∈ requestIds stack, id = outermost ∨ Nested sent ref id) :
      Seated sent ref (some outermost) stack

/- The requests sent, those assigned and those answered as far as heard, and the outermost
request of each reference, against the client. -/
structure Places (sent : List Message) (assigned answered : List RequestId)
    (outer : WorkerRef → Option RequestId) (c : Machine γ) : Prop where
  seated : ∀ ref, Seated sent ref (outer ref) (c.stack ref)
  outermost : ∀ {ref id}, outer ref = some id → id ∈ assigned
  fresh : ∀ {id}, id ∈ assigned → Fresh sent id
  unbound : ∀ {id}, (c.unbound.get? id).isSome ↔ Fresh sent id ∧ id ∉ assigned
  orphaned : ∀ {id owner}, c.owner? id = some owner →
    Nested sent owner id ∧ id ∉ requestIds (c.stack owner)
  placed : ∀ {ref id}, Nested sent ref id → id ∉ answered →
    c.owner? id = some ref ∨ id ∈ requestIds (c.stack ref)

namespace Places
variable {sent : List Message} {assigned answered : List RequestId}
  {outer : WorkerRef → Option RequestId} {c : Machine γ}

theorem based (places : Places sent assigned answered outer c) {ref : WorkerRef}
    {outermost : RequestId} (known : outer ref = some outermost) :
    Based outermost (c.stack ref) ∧ (requestIds (c.stack ref)).Nodup ∧
    ∀ id ∈ requestIds (c.stack ref), id = outermost ∨ Nested sent ref id := by
  have seat := places.seated ref
  rw [known] at seat
  cases seat with
  | taken based once errands => exact ⟨based, once, errands⟩

theorem vacant (places : Places sent assigned answered outer c) {ref : WorkerRef}
    (free : outer ref = none) : c.stack ref = [] := by
  have seat := places.seated ref
  rw [free] at seat
  generalize c.stack ref = stack at seat
  cases seat
  rfl

theorem notNested (places : Places sent assigned answered outer c)
    (distinct : (sent.filterMap Message.requested?).Nodup) {ref other : WorkerRef}
    {outermost : RequestId} (known : outer ref = some outermost) :
    ¬ Nested sent other outermost :=
  freshNotNested distinct (places.fresh (places.outermost known))

theorem occupied (places : Places sent assigned answered outer c) {ref : WorkerRef}
    (busy : c.stack ref ≠ []) : ∃ outermost, outer ref = some outermost := by
  cases known : outer ref with
  | none => exact absurd (places.vacant known) busy
  | some outermost => exact ⟨outermost, rfl⟩

theorem reached (places : Places sent assigned answered outer c) {id : RequestId}
    (away : Fresh sent id → id ∈ assigned) : c.unbound.get? id = none := by
  cases waiting : c.unbound.get? id with
  | none => rfl
  | some k =>
    obtain ⟨fresh, missing⟩ := places.unbound.mp (by rw [waiting]; rfl)
    exact absurd (away fresh) missing

theorem bind (places : Places sent assigned answered outer c)
    (distinct : (sent.filterMap Message.requested?).Nodup) {ref : WorkerRef} {id : RequestId}
    {k : Option γ} (free : outer ref = none) (waiting : c.unbound.get? id = some k)
    {outer' : WorkerRef → Option RequestId} (own : outer' ref = some id)
    (others : ∀ other, other ≠ ref → outer' other = outer other) :
    Places sent (assigned ++ [id]) answered outer'
      ({ c with unbound := c.unbound.erase id }.setStack ref [.evaluating id k]) := by
  obtain ⟨fresh, missing⟩ := places.unbound.mp (by rw [waiting]; rfl)
  refine ⟨fun other => ?_, fun {other one} known => ?_, fun {one} member => ?_, fun {one} => ?_,
    fun {one owner} left => ?_, fun {other one} nested owed => ?_⟩
  · rw [Machine.stackSetStack]
    by_cases this : other = ref
    · rw [if_pos this, this, own]
      exact .taken .bottom (List.nodup_singleton _) fun one member =>
        .inl (List.mem_singleton.mp member)
    · rw [if_neg this, others other this]
      exact places.seated other
  · by_cases this : other = ref
    · rw [this, own] at known
      simp [← Option.some.inj known]
    · rw [others other this] at known
      exact List.mem_append_left _ (places.outermost known)
  · rcases List.mem_append.mp member with before | new
    · exact places.fresh before
    · rw [List.mem_singleton.mp new]
      exact fresh
  · simp only [Machine.unboundSetStack, Table.getErase, Table.rankEq, List.mem_append,
      List.mem_singleton, not_or]
    by_cases this : one = id
    · simp [this]
    · simp only [this, if_false, not_false_eq_true, and_true]
      exact places.unbound
  · rw [Machine.ownerSetStack] at left
    obtain ⟨nested, apart⟩ := places.orphaned left
    refine ⟨nested, ?_⟩
    rw [Machine.stackSetStack]
    split
    · intro member
      exact freshNotNested distinct fresh (List.mem_singleton.mp member ▸ nested)
    · exact apart
  · rw [Machine.stackSetStack, Machine.ownerSetStack]
    have before := places.placed nested owed
    by_cases this : other = ref
    · subst this
      rw [places.vacant free] at before
      exact .inl (before.resolve_right List.not_mem_nil)
    · rw [if_neg this]
      exact before

theorem forget (places : Places sent assigned answered outer c) (id : RequestId) :
    Places sent assigned (answered ++ [id]) outer { c with orphans := c.orphans.erase id } := by
  refine ⟨places.seated, places.outermost, places.fresh, places.unbound, fun {one owner} left => ?_,
    fun {ref one} nested owed => ?_⟩
  · simp only [Machine.owner?, Table.getErase, Table.rankEq] at left
    split at left
    · contradiction
    · exact places.orphaned left
  · obtain ⟨before, different⟩ : one ∉ answered ∧ one ≠ id := by simpa using owed
    refine (places.placed nested before).imp_left fun left => ?_
    simpa [Machine.owner?, different] using left

theorem shrink (places : Places sent assigned answered outer c) {ref : WorkerRef}
    {stack : List (StackFrame γ)} {gone : List RequestId}
    {outer' : WorkerRef → Option RequestId} (seat : Seated sent ref (outer' ref) stack)
    (fewer : requestIds stack ⊆ requestIds (c.stack ref))
    (lost : ∀ id ∈ requestIds (c.stack ref), Nested sent ref id → id ∈ requestIds stack ∨ id ∈ gone)
    (kept : ∀ {id}, outer' ref = some id → outer ref = some id)
    (others : ∀ other, other ≠ ref → outer' other = outer other) :
    Places sent assigned (answered ++ gone) outer' (c.setStack ref stack) := by
  refine ⟨fun other => ?_, fun {other one} known => ?_, places.fresh, ?_,
    fun {one owner} left => ?_, fun {other one} nested owed => ?_⟩
  · rw [Machine.stackSetStack]
    by_cases this : other = ref
    · rw [if_pos this, this]
      exact seat
    · rw [if_neg this, others other this]
      exact places.seated other
  · by_cases this : other = ref
    · rw [this] at known
      exact places.outermost (kept known)
    · rw [others other this] at known
      exact places.outermost known
  · rw [Machine.unboundSetStack]
    exact places.unbound
  · rw [Machine.ownerSetStack] at left
    obtain ⟨nested, apart⟩ := places.orphaned left
    refine ⟨nested, ?_⟩
    rw [Machine.stackSetStack]
    split
    next same => exact fun member => apart (same ▸ fewer member)
    · exact apart
  · rw [List.mem_append, not_or] at owed
    rw [Machine.stackSetStack, Machine.ownerSetStack]
    refine (places.placed nested owed.1).imp_right fun member => ?_
    split
    next same =>
      subst same
      exact (lost one member nested).resolve_right owed.2
    · exact member

theorem close (places : Places sent assigned answered outer c)
    (distinct : (sent.filterMap Message.requested?).Nodup) {ref : WorkerRef}
    {requests below : List (StackFrame γ)} {view : DebuggerView}
    (stack : c.stack ref = requests ++ .debugging view :: below) :
    Places sent assigned answered outer ((c.orphan ref requests).setStack ref below) := by
  obtain ⟨outermost, known⟩ := places.occupied (show c.stack ref ≠ [] by simp [stack])
  obtain ⟨based, once, errands⟩ := places.based known
  have ids : requestIds (c.stack ref) = requestIds requests ++ requestIds below := by
    rw [stack, requestIdsAppend]
    rfl
  rw [stack] at based
  rw [ids] at once errands
  obtain ⟨_, still, apart⟩ := List.nodup_append.mp once
  have left : ∀ {id}, id ∈ requestIds requests → Nested sent ref id := by
    intro id member
    refine (errands id (List.mem_append_left _ member)).resolve_left ?_
    rintro rfl
    exact apart _ member _ based.close.outermostMem rfl
  refine ⟨fun other => ?_, places.outermost, places.fresh, ?_, fun {id owner} own => ?_,
    fun {other id} nested owed => ?_⟩
  · rw [Machine.stackSetStack, Machine.stackOrphan]
    by_cases this : other = ref
    · rw [if_pos this, this, known]
      exact .taken based.close still fun id member => errands id (List.mem_append_right _ member)
    · rw [if_neg this]
      exact places.seated other
  · rw [Machine.unboundSetStack, (Machine.orphanRest ..).2.1]
    exact places.unbound
  · rw [Machine.ownerSetStack, Machine.ownerOrphan] at own
    rw [Machine.stackSetStack, Machine.stackOrphan]
    split at own
    next new =>
      cases own
      rw [if_pos rfl]
      exact ⟨left new, fun member => apart _ new _ member rfl⟩
    · obtain ⟨nested, free⟩ := places.orphaned own
      refine ⟨nested, ?_⟩
      split
      next same =>
        rw [same, ids] at free
        exact fun member => free (List.mem_append_right _ member)
      · exact free
  · rw [Machine.ownerSetStack, Machine.ownerOrphan, Machine.stackSetStack, Machine.stackOrphan]
    by_cases new : id ∈ requestIds requests
    · rw [if_pos new, nestedOnce distinct (left new) nested]
      exact .inl rfl
    · rw [if_neg new]
      refine (places.placed nested owed).imp_right fun member => ?_
      split
      next same =>
        rw [same, ids] at member
        exact (List.mem_append.mp member).resolve_left new
      · exact member

end Places

theorem nestedSnoc {sent : List Message} {m : Message} {ref : WorkerRef} {id : RequestId} :
    Nested (sent ++ [m]) ref id ↔
      Nested sent ref id ∨ ∃ form package, m = .request form package (.worker ref) id := by
  simp only [Nested, List.mem_append, List.mem_singleton, exists_or, eq_comm]

theorem freshSnoc {sent : List Message} {m : Message} {id : RequestId} :
    Fresh (sent ++ [m]) id ↔ Fresh sent id ∨ ∃ form package, m = .request form package .new id := by
  simp only [Fresh, List.mem_append, List.mem_singleton, exists_or, eq_comm]

theorem Seated.more {sent more : List Message} {ref outermost} {stack : List (StackFrame γ)}
    (seated : Seated sent ref outermost stack) (subset : sent ⊆ more) :
    Seated more ref outermost stack := by
  cases seated with
  | vacant => exact .vacant
  | taken based once errands =>
    exact .taken based once fun id member => (errands id member).imp_right (·.more subset)

theorem unsent {sent : List Message} {m : Message} {id : RequestId}
    (distinct : ((sent ++ [m]).filterMap Message.requested?).Nodup)
    (asks : m.requested? = some id) : ¬ Fresh sent id ∧ ∀ ref, ¬ Nested sent ref id := by
  rw [List.filterMap_append, List.nodup_append] at distinct
  have apart : id ∉ sent.filterMap Message.requested? := fun member =>
    distinct.2.2 id member id (by simp [asks]) rfl
  constructor
  · rintro ⟨form, package, member⟩
    exact apart (List.mem_filterMap.mpr ⟨_, member, rfl⟩)
  · rintro ref ⟨form, package, member⟩
    exact apart (List.mem_filterMap.mpr ⟨_, member, rfl⟩)

namespace Places
variable {sent : List Message} {assigned answered : List RequestId}
  {outer : WorkerRef → Option RequestId} {c c' : Machine γ} {m : Message}

theorem call (places : Places sent assigned answered outer c)
    (foreign : ∀ form package ref id, m ≠ .request form package (.worker ref) id)
    (sameStack : c'.stack = c.stack) (orphans : c'.owner? = c.owner?)
    (unbound : ∀ {id}, (c'.unbound.get? id).isSome ↔ Fresh (sent ++ [m]) id ∧ id ∉ assigned) :
    Places (sent ++ [m]) assigned answered outer c' := by
  have subset : sent ⊆ sent ++ [m] := List.subset_append_left ..
  have same : ∀ {ref id}, Nested (sent ++ [m]) ref id ↔ Nested sent ref id := by
    intro ref id
    refine nestedSnoc.trans (or_iff_left ?_)
    rintro ⟨form, package, this⟩
    exact foreign form package ref id this
  refine ⟨fun ref => ?_, places.outermost, fun member => (places.fresh member).more subset, unbound,
    fun {id owner} own => ?_, fun {ref id} nested owed => ?_⟩
  · rw [sameStack]
    exact (places.seated ref).more subset
  · rw [orphans] at own
    rw [sameStack, same]
    exact places.orphaned own
  · rw [sameStack, orphans]
    exact places.placed (same.mp nested) owed

theorem callNested (places : Places sent assigned answered outer c) {form package ref id k}
    (distinct : ((sent ++ [Message.request form package (.worker ref) id]).filterMap
      Message.requested?).Nodup)
    {view : DebuggerView} {below : List (StackFrame γ)}
    (prompt : c.stack ref = .debugging view :: below) :
    Places (sent ++ [Message.request form package (.worker ref) id]) assigned answered outer
      (c.setStack ref (.evaluating id k :: .debugging view :: below)) := by
  have subset : sent ⊆ sent ++ [Message.request form package (.worker ref) id] :=
    List.subset_append_left ..
  obtain ⟨notFresh, notNested⟩ := unsent distinct rfl
  have new : Nested (sent ++ [Message.request form package (.worker ref) id]) ref id :=
    nestedSnoc.mpr (.inr ⟨form, package, rfl⟩)
  have ids : requestIds (.evaluating id k :: .debugging view :: below) =
      id :: requestIds (c.stack ref) := by
    rw [prompt]
    rfl
  have alike : ∀ {one}, Fresh (sent ++ [Message.request form package (.worker ref) id]) one ↔
      Fresh sent one := by
    intro one
    refine freshSnoc.trans (or_iff_left ?_)
    rintro ⟨_, _, this⟩
    cases this
  obtain ⟨outermost, known⟩ := places.occupied (show c.stack ref ≠ [] by simp [prompt])
  obtain ⟨based, once, errands⟩ := places.based known
  refine ⟨fun other => ?_, places.outermost, fun member => (places.fresh member).more subset, ?_,
    fun {one owner} own => ?_, fun {other one} nested owed => ?_⟩
  · rw [Machine.stackSetStack]
    by_cases this : other = ref
    · rw [if_pos this, this, known]
      refine .taken (.request (prompt ▸ based)) ?_ ?_
      · rw [ids]
        refine List.nodup_cons.mpr ⟨fun member => ?_, once⟩
        rcases errands id member with rfl | nested
        · exact notFresh (places.fresh (places.outermost known))
        · exact notNested ref nested
      · rw [ids]
        exact List.forall_mem_cons.mpr ⟨.inr new, fun one member =>
          (errands one member).imp_right (·.more subset)⟩
    · rw [if_neg this]
      exact (places.seated other).more subset
  · intro one
    rw [Machine.unboundSetStack, alike]
    exact places.unbound
  · rw [Machine.ownerSetStack] at own
    obtain ⟨nested, apart⟩ := places.orphaned own
    refine ⟨nested.more subset, ?_⟩
    rw [Machine.stackSetStack]
    split
    next same =>
      rw [ids, List.mem_cons, not_or]
      subst same
      exact ⟨fun this => notNested owner (this ▸ nested), apart⟩
    · exact apart
  · rw [Machine.ownerSetStack, Machine.stackSetStack]
    rcases nestedSnoc.mp nested with before | ⟨_, _, this⟩
    · refine (places.placed before owed).imp_right fun member => ?_
      split
      next same =>
        rw [ids]
        exact List.mem_cons_of_mem _ (same ▸ member)
      · exact member
    · cases this
      rw [if_pos rfl, ids]
      exact .inr List.mem_cons_self

theorem sends (places : Places sent assigned answered outer c)
    (distinct : ((sent ++ [m]).filterMap Message.requested?).Nodup) (sends : c.Sends m c') :
    Places (sent ++ [m]) assigned answered outer c' := by
  cases sends with
  | interrupt | reply =>
    refine places.call (by simp) rfl rfl fun {id} => ?_
    rw [freshSnoc, or_iff_left (by simp)]
    exact places.unbound
  | nested prompt =>
    have numbered : Places sent assigned answered outer { c with lastId := c.lastId + 1 } :=
      ⟨places.seated, places.outermost, places.fresh, places.unbound, places.orphaned,
        places.placed⟩
    exact numbered.callNested distinct prompt
  | @fresh form package k =>
    refine places.call (by simp) rfl rfl fun {id} => ?_
    obtain ⟨notFresh, _⟩ := unsent distinct rfl
    simp only [Table.getInsert, Table.rankEq, freshSnoc]
    by_cases this : c.lastId + 1 = id
    · rw [if_pos this, ← this]
      exact iff_of_true rfl
        ⟨.inr ⟨form, package, rfl⟩, fun member => notFresh (places.fresh member)⟩
    · rw [if_neg this, or_iff_left (by simp [this])]
      exact places.unbound

end Places

end RemoteEval
