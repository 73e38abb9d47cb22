import Mathlib.Algebra.Group.Nat.Defs
import RemoteEval.Proofs.Session.Exit
import RemoteEval.Proofs.Session.Protocol

/-! Every request has one answer or is still owed one. The requests that came are, up to
their order, the requests that were answered together with those that live workers hold.
This needs the requests to have different numbers, and nothing else: not that answers
arrive, nor that they fit a frame. -/
namespace RemoteEval

namespace Session

def held (s : Session) : List RequestId := (s.workers.values.map Worker.held).flatten

theorem heldErase {s : Session} {worker : WorkerId} {w : Worker}
    (found : s.workers.get? worker = some w) :
    s.held.Perm (w.held ++ ((s.workers.erase worker).values.map Worker.held).flatten) := by
  simpa [held] using ((Table.erasePerm found).map Worker.held).flatten

theorem memSessionHeld {s : Session} {id : RequestId} :
    id ∈ s.held ↔ ∃ worker w, s.workers.get? worker = some w ∧ id ∈ w.held := by
  simp only [held, List.mem_flatten, List.mem_map, Table.memValues]
  constructor
  · rintro ⟨_, ⟨w, ⟨worker, found⟩, rfl⟩, member⟩
    exact ⟨worker, w, found, member⟩
  · rintro ⟨worker, w, found, member⟩
    exact ⟨w.held, ⟨w, ⟨worker, found⟩, rfl⟩, member⟩

theorem heldByOne {s : Session} (distinct : s.held.Nodup) {one other : WorkerId} {w v : Worker}
    {id : RequestId} (first : s.workers.get? one = some w) (inFirst : id ∈ w.held)
    (second : s.workers.get? other = some v) (inSecond : id ∈ v.held) : one = other := by
  by_contra different
  have apart := ((heldErase first).nodup_iff.mp distinct)
  have still : (s.workers.erase one).get? other = some v := by
    simp [Ne.symm different, second]
  have elsewhere : id ∈ held { s with workers := s.workers.erase one } :=
    memSessionHeld.mpr ⟨other, v, still, inSecond⟩
  exact (List.nodup_append.mp apart).2.2 id inFirst id elsewhere rfl

theorem fewIds {ids : List RequestId} (distinct : ids.Nodup) : ids.length ≤ 2 ^ 64 := by
  have numbers : (ids.map UInt64.toNat).Nodup :=
    List.Pairwise.map UInt64.toNat
      (fun _ _ different same => different (UInt64.toNat_inj.mp same)) distinct
  have below : ids.map UInt64.toNat ⊆ List.range (2 ^ 64) := by
    intro n member
    obtain ⟨id, _, rfl⟩ := List.mem_map.mp member
    exact List.mem_range.mpr id.toNat_lt
  simpa using (List.subperm_of_subset numbers below).length_le

def Owns (s : Session) (id : RequestId) (ref : WorkerRef) : Prop :=
  ∃ worker w, s.workers.get? worker = some w ∧ w.me = ref ∧ id ∈ w.held

/- The books of a session: what was asked for, what was answered, and how many workers
there have been. -/
structure Accounts (requested answered : List RequestId) (spawned : Nat) (s : Session) :
    Prop where
  live : ∀ {ref worker}, s.registry.live.get? ref = some worker →
    ∃ w, s.workers.get? worker = some w ∧ w.me = ref ∧ w.attached = true
  known : ∀ {worker ref}, s.registry.refOf worker = some ref → worker.toNat < spawned
  older : ∀ {worker w}, s.workers.get? worker = some w → worker.toNat < spawned
  next : s.nextWorker = spawned.toUInt64
  few : spawned ≤ requested.length
  balance : requested.Perm (answered ++ s.held)
  inFlight : ∀ id ref, s.inFlight.get? id = some ref ↔ s.Owns id ref

namespace Accounts
variable {requested answered : List RequestId} {spawned : Nat} {s : Session}

theorem heldDistinct (books : Accounts requested answered spawned s)
    (distinct : requested.Nodup) : s.held.Nodup :=
  (List.nodup_append.mp (books.balance.nodup_iff.mp distinct)).2.1

theorem nextNumber (books : Accounts requested answered spawned s) {id : RequestId}
    (distinct : (requested ++ [id]).Nodup) : s.nextWorker.toNat = spawned := by
  have total := fewIds distinct
  have few := books.few
  simp only [List.length_append, List.length_singleton] at total
  rw [books.next, Nat.toUInt64, UInt64.toNat_ofNat']
  omega

theorem nextAbsent (books : Accounts requested answered spawned s) {id : RequestId}
    (distinct : (requested ++ [id]).Nodup) : s.workers.get? s.nextWorker = none := by
  cases found : s.workers.get? s.nextWorker with
  | none => rfl
  | some w =>
    have less := books.older found
    rw [books.nextNumber distinct] at less
    exact absurd less (Nat.lt_irrefl spawned)

theorem nextUnknown (books : Accounts requested answered spawned s) {id : RequestId}
    (distinct : (requested ++ [id]).Nodup) : s.registry.refOf s.nextWorker = none := by
  cases known : s.registry.refOf s.nextWorker with
  | none => rfl
  | some ref =>
    have less := books.known known
    rw [books.nextNumber distinct] at less
    exact absurd less (Nat.lt_irrefl spawned)

end Accounts

def heldBy (w : Option Worker) : List RequestId := (w.map Worker.held).getD []

/- One worker came, went or changed; the others are as they were, save that one may have
been cut off. -/
structure Exchanged (s s' : Session) (worker : WorkerId) (old new : Option Worker) : Prop where
  before : s.workers.get? worker = old
  after : s'.workers.get? worker = new
  others : ∀ other, other ≠ worker →
    (s'.workers.get? other).map Worker.inward = (s.workers.get? other).map Worker.inward

namespace Exchanged
variable {s s' : Session} {worker : WorkerId} {old new : Option Worker}

theorem reverse (exchanged : Exchanged s s' worker old new) : Exchanged s' s worker new old :=
  ⟨exchanged.after, exchanged.before, fun other different =>
    (exchanged.others other different).symm⟩

theorem other (exchanged : Exchanged s s' worker old new) {one : WorkerId}
    (different : one ≠ worker) {v : Worker} (found : s'.workers.get? one = some v) :
    ∃ w, s.workers.get? one = some w ∧ v.inward = w.inward := by
  have same := exchanged.others one different
  rw [found, Option.map_some] at same
  obtain ⟨w, before, equal⟩ := Option.map_eq_some_iff.mp same.symm
  exact ⟨w, before, equal.symm⟩

theorem held (exchanged : Exchanged s s' worker old new) :
    ∃ rest, s.held.Perm (heldBy old ++ rest) ∧ s'.held.Perm (heldBy new ++ rest) := by
  have split : ∀ {u : Session} {w : Option Worker}, u.workers.get? worker = w →
      u.held.Perm (heldBy w ++ ((u.workers.erase worker).values.map Worker.held).flatten) := by
    intro u w found
    cases w with
    | some w => exact heldErase found
    | none => rw [Table.eraseAbsent found]; exact .refl _
  have same : (s'.workers.erase worker).values.map Worker.held =
      (s.workers.erase worker).values.map Worker.held := by
    refine Table.valuesMap fun other => ?_
    by_cases this : other = worker
    · simp [this]
    · have equal := congrArg (Option.map Worker.held) (exchanged.others other this)
      simpa [this, Option.map_map, Function.comp_def] using equal
  have after := split exchanged.after
  rw [same] at after
  exact ⟨_, split exchanged.before, after⟩

/- Requests `came` and requests `gone` were answered, all at one worker. Whatever became
of it, nothing is lost and nothing is counted twice. -/
theorem balances (exchanged : Exchanged s s' worker old new)
    {requested answered came gone : List RequestId} (balance : requested.Perm (answered ++ s.held))
    (moved : (heldBy old ++ came).Perm (gone ++ heldBy new)) :
    (requested ++ came).Perm ((answered ++ gone) ++ s'.held) := by
  obtain ⟨rest, before, after⟩ := exchanged.held
  calc requested ++ came
    _ |>.Perm ((answered ++ (heldBy old ++ rest)) ++ came) :=
      (balance.trans (before.append_left _)).append_right _
    _ |>.Perm (answered ++ (heldBy old ++ came) ++ rest) := by
      simpa only [List.append_assoc] using
        (List.perm_append_comm.append_left (heldBy old)).append_left answered
    _ |>.Perm (answered ++ (gone ++ heldBy new) ++ rest) :=
      (moved.append_left _).append_right _
    _ |>.Perm ((answered ++ gone) ++ s'.held) := by
      simpa only [List.append_assoc] using (after.symm.append_left gone).append_left answered

theorem owns (exchanged : Exchanged s s' worker old new)
    {requested answered came gone : List RequestId} (distinct : (requested ++ came).Nodup)
    (balance : requested.Perm (answered ++ s.held))
    (moved : (heldBy old ++ came).Perm (gone ++ heldBy new))
    (same : ∀ w v, old = some w → new = some v → v.me = w.me)
    (inFlight : ∀ id ref, s.inFlight.get? id = some ref ↔ s.Owns id ref)
    (settled : ∀ id, s'.inFlight.get? id = if id ∈ gone then none
      else if id ∈ came then new.map Worker.me else s.inFlight.get? id)
    (id : RequestId) (ref : WorkerRef) :
    s'.inFlight.get? id = some ref ↔ s'.Owns id ref := by
  have apart := (exchanged.balances balance moved).nodup_iff.mp distinct
  obtain ⟨_, alone, disjoint⟩ := List.nodup_append.mp apart
  have memHeldBy : ∀ {w : Option Worker}, id ∈ heldBy w ↔ ∃ v, w = some v ∧ id ∈ v.held := by
    intro w
    cases w <;> simp [heldBy]
  rw [settled id]
  by_cases answered' : id ∈ gone
  · rw [if_pos answered']
    refine ⟨by simp, fun ⟨one, w, found, _, member⟩ => ?_⟩
    exact absurd rfl (disjoint id (List.mem_append_right _ answered') id
      (memSessionHeld.mpr ⟨one, w, found, member⟩))
  rw [if_neg answered']
  have stays : id ∈ heldBy old ∨ id ∈ came ↔ id ∈ heldBy new := by
    have both := moved.mem_iff (a := id)
    simpa only [List.mem_append, answered', false_or] using both
  by_cases arrived : id ∈ came
  · rw [if_pos arrived]
    obtain ⟨v, rfl, member⟩ := memHeldBy.mp (stays.mp (.inr arrived))
    constructor
    · intro me
      exact ⟨worker, v, exchanged.after, by simpa using me, member⟩
    · rintro ⟨one, w, found, me, inside⟩
      cases heldByOne alone found inside exchanged.after member
      rw [exchanged.after] at found
      cases found
      exact congrArg some me
  · rw [if_neg arrived, inFlight id ref]
    simp only [arrived, or_false] at stays
    constructor
    · rintro ⟨one, w, found, me, inside⟩
      by_cases this : one = worker
      · rw [this, exchanged.before] at found
        obtain ⟨v, rfl, member⟩ := memHeldBy.mp (stays.mp (memHeldBy.mpr ⟨w, found, inside⟩))
        exact ⟨worker, v, exchanged.after, (same w v found rfl).trans me, member⟩
      · obtain ⟨v, found, alike⟩ := exchanged.reverse.other this found
        exact ⟨one, v, found, (Worker.inwardMe alike).symm.trans me,
          Worker.inwardHeld alike ▸ inside⟩
    · rintro ⟨one, w, found, me, inside⟩
      by_cases this : one = worker
      · rw [this, exchanged.after] at found
        obtain ⟨v, rfl, member⟩ := memHeldBy.mp (stays.mpr (memHeldBy.mpr ⟨w, found, inside⟩))
        exact ⟨worker, v, exchanged.before, (same v w rfl found).symm.trans me, member⟩
      · obtain ⟨v, found, alike⟩ := exchanged.other this found
        exact ⟨one, v, found, (Worker.inwardMe alike).symm.trans me,
          Worker.inwardHeld alike ▸ inside⟩

end Exchanged

theorem mailHeld (event : Event) (w : Worker) :
    (mail event w).held = w.held ++ event.request?.toList.map Request.id := by
  cases event <;> simp [mail, Worker.held, Worker.stance, Worker.task, Stance.held, Stance.chain,
    Worker.queue, Event.request?]

theorem exchangedInsert {s s' : Session} {worker : WorkerId} {w : Worker}
    (workers : s'.workers = s.workers.insert worker w) :
    Exchanged s s' worker (s.workers.get? worker) (some w) := by
  refine ⟨rfl, by simp [workers], fun other different => ?_⟩
  simp [workers, Ne.symm different]

namespace Accounts
variable {requested answered came gone : List RequestId} {spawned total : Nat} {s s' : Session}
  {worker : WorkerId} {old new : Option Worker} {w : Worker}
  {inFlight : Table RequestId WorkerRef} {side : Option String}

theorem exchange (books : Accounts requested answered spawned s)
    (exchanged : Exchanged s s' worker old new) (distinct : (requested ++ came).Nodup)
    (moved : (heldBy old ++ came).Perm (gone ++ heldBy new))
    (same : ∀ w v, old = some w → new = some v → v.me = w.me)
    (settled : ∀ id, s'.inFlight.get? id = if id ∈ gone then none
      else if id ∈ came then new.map Worker.me else s.inFlight.get? id)
    (live : ∀ {ref one}, s'.registry.live.get? ref = some one →
      ∃ w, s'.workers.get? one = some w ∧ w.me = ref ∧ w.attached = true)
    (known : ∀ {one ref}, s'.registry.refOf one = some ref → one.toNat < total)
    (number : ∀ v, new = some v → worker.toNat < total)
    (next : s'.nextWorker = total.toUInt64) (more : spawned ≤ total)
    (few : total ≤ (requested ++ came).length) :
    Accounts (requested ++ came) (answered ++ gone) total s' where
  live := live
  known := known
  older {one v} found := by
    by_cases this : one = worker
    · subst this
      exact number v (exchanged.after.symm.trans found)
    · obtain ⟨u, before, -⟩ := exchanged.other this found
      exact Nat.lt_of_lt_of_le (books.older before) more
  next := next
  few := few
  balance := exchanged.balances books.balance moved
  inFlight := exchanged.owns distinct books.balance moved same books.inFlight settled

theorem spawn (books : Accounts requested answered spawned s) {request : Request} {ref registry}
    (allocated : s.registry.allocate s.nextWorker = (ref, registry))
    (distinct : (requested ++ [request.id]).Nodup)
    (settled : ∀ id, inFlight.get? id = (s.inFlight.insert request.id ref).get? id) :
    Accounts (requested ++ [request.id]) (answered ++ []) (spawned + 1)
      { s with
        nextWorker := s.nextWorker + 1
        registry
        workers := s.workers.insert s.nextWorker (.start ref request)
        inFlight
        side } := by
  classical
  have absent := books.nextAbsent distinct
  have number := books.nextNumber distinct
  have unknown := books.nextUnknown distinct
  obtain ⟨known, -⟩ | ⟨-, free, fresh, rfl⟩ := Registry.allocateCases allocated
  · rw [unknown] at known
    contradiction
  refine books.exchange (exchangedInsert rfl) distinct ?_ ?_ ?_ ?_ ?_ ?_ ?_ (Nat.le_succ _) ?_
  · rw [absent]
    exact .refl _
  · simp [absent]
  · intro id
    simp only [settled, Table.getInsert, Table.rankEq, List.not_mem_nil, if_false,
      List.mem_singleton, Option.map_some, eq_comm, Worker.start]
  · intro other holder live
    simp only [Table.getInsert, Table.rankEq] at live ⊢
    by_cases this : ref = other
    · simp only [this, if_true, Option.some.injEq] at live
      exact ⟨.start ref request, by simp [live], this, rfl⟩
    · rw [if_neg this] at live
      obtain ⟨w, found, me⟩ := books.live live
      have different : s.nextWorker ≠ holder := by
        rintro rfl
        rw [absent] at found
        contradiction
      exact ⟨w, by rw [if_neg different]; exact found, me⟩
  · intro one other known
    simp only [Registry.refOf, Table.getInsert, Table.rankEq] at known
    split at known
    next this =>
      rw [← this, number]
      exact Nat.lt_succ_self spawned
    · exact Nat.lt_succ_of_lt (books.known known)
  · intro v _
    omega
  · simp [books.next, Nat.toUInt64]
  · simpa using books.few

theorem liveInsert (books : Accounts requested answered spawned s) {v : Worker}
    (found : s.workers.get? worker = some w) (me : v.me = w.me) (attached : v.attached = w.attached)
    {ref : WorkerRef} {one : WorkerId} (live : s.registry.live.get? ref = some one) :
    ∃ u, (s.workers.insert worker v).get? one = some u ∧ u.me = ref ∧ u.attached = true := by
  obtain ⟨u, there, known, reached⟩ := books.live live
  by_cases this : worker = one
  · subst this
    rw [found] at there
    cases there
    exact ⟨v, by simp, me.trans known, attached.trans reached⟩
  · exact ⟨u, by simp [this, there], known, reached⟩

theorem post (books : Accounts requested answered spawned s) (event : Event) (interrupted : Bool)
    (found : s.workers.get? worker = some w)
    (distinct : (requested ++ event.request?.toList.map Request.id).Nodup)
    (settled : ∀ id, inFlight.get? id = if id ∈ event.request?.toList.map Request.id
      then some w.me else s.inFlight.get? id) :
    Accounts (requested ++ event.request?.toList.map Request.id) (answered ++ []) spawned
      { s with
        workers := s.workers.insert worker (mail event { w with interrupted })
        inFlight
        side } := by
  have me : (mail event { w with interrupted }).me = w.me := rfl
  refine books.exchange (exchangedInsert rfl) distinct ?_ ?_ ?_ (books.liveInsert found me rfl)
    books.known (fun _ _ => books.older found) books.next (Nat.le_refl _) ?_
  · rw [found]
    simp only [heldBy, mailHeld, Option.map_some, Option.getD_some, List.nil_append]
    exact .refl _
  · intro u v old new
    rw [found] at old
    cases old
    cases new
    rfl
  · intro id
    simp only [settled, List.not_mem_nil, if_false]
    rfl
  · have := books.few
    simp only [List.length_append]
    omega

theorem dismiss (books : Accounts requested answered spawned s)
    (inward : ∀ one, (s'.workers.get? one).map Worker.inward =
      (s.workers.get? one).map Worker.inward)
    (live : ∀ {ref one}, s'.registry.live.get? ref = some one →
      ∃ w, s'.workers.get? one = some w ∧ w.me = ref ∧ w.attached = true)
    (known : ∀ {one ref}, s'.registry.refOf one = some ref → one.toNat < spawned)
    (next : s'.nextWorker = s.nextWorker) (distinct : (requested ++ came).Nodup)
    (settled : ∀ id, s'.inFlight.get? id = if id ∈ came then none else s.inFlight.get? id) :
    Accounts (requested ++ came) (answered ++ came) spawned s' := by
  have held (v : Option Worker) : heldBy v = ((v.map Worker.inward).map Worker.held).getD [] := by
    cases v <;> rfl
  have exchanged : Exchanged s s' 0 (s.workers.get? 0) (s'.workers.get? 0) :=
    ⟨rfl, rfl, fun one _ => inward one⟩
  refine books.exchange exchanged distinct ?_ ?_ ?_ live known ?_ (next.trans books.next)
    (Nat.le_refl _) ?_
  · rw [held (s'.workers.get? 0), inward 0, ← held]
    exact List.perm_append_comm
  · intro w v old new
    have alike := inward 0
    rw [old, new] at alike
    exact Worker.inwardMe (Option.some.inj alike)
  · intro id
    simp only [settled]
    split <;> simp_all
  · intro v found
    have alike := inward 0
    rw [found] at alike
    obtain ⟨w, before, -⟩ := Option.map_eq_some_iff.mp alike.symm
    exact books.older before
  · have := books.few
    simp only [List.length_append]
    omega

theorem routed (books : Accounts requested answered spawned s) {m said}
    (routed : Routed s m said s') (distinct : (requested ++ m.requested?.toList).Nodup)
    (settled : ∀ id, inFlight.get? id =
      if id ∈ said.filterMap Message.answered? then none else s'.inFlight.get? id) :
    Accounts (requested ++ m.requested?.toList) (answered ++ said.filterMap Message.answered?)
      (spawned + m.spawns.toNat) { s' with inFlight, side } := by
  have unmoved {ids : List RequestId} (different : (requested ++ ids).Nodup)
      (gone : ∀ id, inFlight.get? id = if id ∈ ids then none else s.inFlight.get? id) :
      Accounts (requested ++ ids) (answered ++ ids) spawned { s with inFlight, side } :=
    books.dismiss (fun _ => rfl) books.live books.known rfl different gone
  cases routed with
  | @spawned form package id ref registry allocated =>
    have spawned : (requested ++ [Request.id ⟨form, package, id⟩]).Nodup := distinct
    exact books.spawn allocated spawned (by simpa [Message.answered?] using settled)
  | @queued form package ref id worker w live found =>
    have me : w.me = ref := by
      obtain ⟨v, same, me, -⟩ := books.live live
      rw [found] at same
      cases same
      exact me
    refine books.post (.request ⟨form, package, id⟩) w.interrupted found distinct fun other => ?_
    simp [settled, Event.request?, me, eq_comm]
  | unknown absent =>
    refine unmoved distinct fun other => ?_
    simp [settled, Message.requested?, Message.answered?]
  | @posted m event worker w interrupted found other news =>
    rw [other] at distinct ⊢
    rw [Message.spawnsRequested other]
    have posted : Accounts (requested ++ event.request?.toList.map Request.id) (answered ++ [])
        spawned { s with
          workers := s.workers.insert worker (mail event { w with interrupted })
          inFlight
          side } :=
      books.post event interrupted found (by simpa [news] using distinct)
        (by simpa [news] using settled)
    simpa [news] using posted
  | noted text other =>
    rw [other] at distinct ⊢
    rw [Message.spawnsRequested other]
    exact unmoved distinct (by simpa [Message.answered?] using settled)

theorem absorbed (books : Accounts requested answered spawned s) (distinct : requested.Nodup)
    (sound : w.Sound) {service globals t} (found : s.workers.get? worker = some w)
    (acted : w.act service globals = some t) :
    Accounts requested (answered ++ t.said.filterMap Utterance.answered?) spawned
      (s.absorb worker t).2 := by
  obtain ⟨-, me, attached, owed⟩ := Worker.actKeeps sound acted
  let after : Session := { s with workers := s.workers.insert worker t.worker }
  obtain ⟨inFlight, side, effect, settled⟩ := after.deliverAllEq t.said
  suffices done : Accounts (requested ++ []) (answered ++ t.said.filterMap Utterance.answered?)
      spawned { after with inFlight, side } by
    rw [absorb, effect]
    simpa using done
  refine books.exchange (exchangedInsert rfl) (by simpa using distinct) ?_ ?_ ?_
    (books.liveInsert found me attached) books.known (fun _ _ => books.older found) books.next
    (Nat.le_refl _) (by simpa using books.few)
  · simpa [found, heldBy] using owed
  · intro u v old new
    rw [found] at old
    cases old
    cases new
    exact me
  · intro id
    simp only [settled, List.not_mem_nil, if_false]
    rfl

theorem released (books : Accounts requested answered spawned s) (distinct : requested.Nodup)
    (ref : WorkerRef) : Accounts requested answered spawned (s.release ref) := by
  suffices done : Accounts (requested ++ []) (answered ++ []) spawned (s.release ref) by
    simpa using done
  have kept := s.releaseEq ref
  refine books.dismiss (fun one => ?_) (fun {other one} live => ?_) (fun {one other} known => ?_) ?_
    (by simpa using distinct) fun id => ?_
  · rw [releaseGet, Option.map_map]
    refine Option.map_congr fun v _ => ?_
    simp only [Function.comp_apply]
    split <;> rfl
  · rw [releaseRegistry, Registry.releaseLive] at live
    obtain ⟨apart, live⟩ := Option.ite_none_left_eq_some.mp live
    obtain ⟨w, found, me, attached⟩ := books.live live
    refine ⟨w, ?_, me, attached⟩
    rw [releaseGet, found, Option.map_some, if_neg]
    -- the holder of this reference has another one
    intro holds
    obtain ⟨v, same, its, -⟩ := books.live holds
    rw [found] at same
    cases same
    exact apart (me.symm.trans its)
  · rw [releaseRegistry] at known
    exact books.known ((Registry.releaseRefs ..).mp known).2
  · rw [kept]
  · rw [kept]
    simp

theorem releasedUnlisted (books : Accounts requested answered spawned s)
    (found : s.workers.get? worker = some w) (ref : WorkerRef) :
    (s.release w.me).registry.live.get? ref ≠ some worker := by
  intro live
  rw [releaseRegistry, Registry.releaseLive] at live
  obtain ⟨apart, live⟩ := Option.ite_none_left_eq_some.mp live
  obtain ⟨v, same, me, -⟩ := books.live live
  rw [found] at same
  cases same
  exact apart me.symm

theorem ended (books : Accounts requested answered spawned s) (distinct : requested.Nodup)
    (found : s.workers.get? worker = some w)
    (unlisted : ∀ ref, s.registry.live.get? ref ≠ some worker)
    (settled : ∀ id, inFlight.get? id = if id ∈ w.held then none else s.inFlight.get? id) :
    Accounts requested (answered ++ w.held) spawned
      { s with workers := s.workers.erase worker, inFlight, side } := by
  have exchanged : Exchanged s { s with workers := s.workers.erase worker, inFlight, side } worker
      (some w) none := by
    refine ⟨found, by simp, fun other different => ?_⟩
    simp [different]
  suffices done : Accounts (requested ++ []) (answered ++ w.held) spawned
      { s with workers := s.workers.erase worker, inFlight, side } by simpa using done
  have live {ref one} (live : s.registry.live.get? ref = some one) :
      ∃ w, (s.workers.erase worker).get? one = some w ∧ w.me = ref ∧ w.attached = true := by
    obtain ⟨v, there, its⟩ := books.live live
    have different : one ≠ worker := by
      rintro rfl
      exact unlisted ref live
    exact ⟨v, by simpa [different] using there, its⟩
  refine books.exchange exchanged (by simpa using distinct) ?_ ?_ ?_ live books.known ?_ books.next
    (Nat.le_refl _) (by simpa using books.few)
  · simp [heldBy]
  · intro w v old new
    cases new
  · intro id
    simp [settled]
  · intro v new
    cases new

theorem drained (books : Accounts requested answered spawned s) (distinct : requested.Nodup)
    (found : s.workers.get? worker = some w) (fit : w.Fit) (finished : w.isFinished = true)
    (unlisted : ∀ ref, s.registry.live.get? ref ≠ some worker) :
    Accounts requested (answered ++ (Turn.lastWords w).filterMap Utterance.answered?) spawned
      (s.drain worker).2 := by
  let after : Session := { s with workers := s.workers.erase worker }
  obtain ⟨inFlight, side, effect, settled⟩ := after.deliverAllEq (Turn.lastWords w)
  rw [drainFound found, effect, Worker.heldLeaving fit finished]
  rw [Worker.heldLeaving fit finished] at settled
  exact books.ended distinct found unlisted settled

theorem completed (books : Accounts requested answered spawned s) (distinct : requested.Nodup)
    (sound : w.Sound) {globals t} (found : s.workers.get? worker = some w)
    (moved : w.step s.service globals = some t) :
    Accounts requested (answered ++ t.said.filterMap Utterance.answered?) spawned
      (s.complete worker t).2 := by
  rw [Worker.stepWhole, Option.map_eq_some_iff] at moved
  obtain ⟨u, acted, rfl⟩ := moved
  obtain ⟨fit, -⟩ := Worker.actKeeps sound acted
  have answered := books.absorbed distinct sound found acted
  rw [completeParts found acted]
  cases finished : u.worker.isFinished with
  | false => simpa [Turn.leaveAwake finished] using answered
  | true =>
    let after : Session := { s with workers := s.workers.insert worker u.worker }
    obtain ⟨inFlight, side, effect, -⟩ := after.deliverAllEq u.said
    have there : (s.absorb worker u).2.workers.get? worker = some u.worker := by
      rw [absorb, effect]
      simp [after]
    obtain ⟨v, found', alike⟩ : ∃ v, ((s.absorb worker u).2.release u.worker.me).workers.get? worker =
        some v ∧ v.inward = u.worker.inward := by
      rw [releaseGet, there]
      refine ⟨_, rfl, ?_⟩
      split <;> rfl
    have words : Turn.lastWords v = Turn.lastWords u.worker :=
      show Turn.lastWords v.inward = Turn.lastWords u.worker.inward by rw [alike]
    have gone := (answered.released distinct u.worker.me).drained distinct found'
      (Worker.inwardFit alike fit) ((Worker.inwardFinished alike).trans finished)
      (answered.releasedUnlisted there)
    rw [words, List.append_assoc] at gone
    rw [if_pos rfl, Turn.leave, if_pos finished, Turn.saidRetire, List.filterMap_append]
    exact gone

theorem fresh (service : Service) (side : Option String) :
    ({ service, side } : Session).Accounts [] [] 0 where
  live := nofun
  known := nofun
  older := nofun
  next := rfl
  few := Nat.le_refl 0
  balance := .refl _
  inFlight := by simp [Owns]

theorem paced (books : Accounts requested answered spawned s) (pace : Pace) :
    Accounts requested answered spawned (s.paced pace) :=
  ⟨books.live, books.known, books.older, books.next, books.few, books.balance, books.inFlight⟩

end Accounts
end Session

namespace Log

def requested (l : Log) : List RequestId := l.received.filterMap Message.requested?

def answered (l : Log) : List RequestId := l.entries.filterMap fun e => e.deed.answered?

def spawned (l : Log) : Nat := l.received.countP Message.spawns

structure Balanced (l : Log) : Prop
    extends Session.Accounts l.requested l.answered l.spawned l.session where
  orderly : l.Orderly

theorem stepRequested (l : Log) (move : Move) :
    (l.step move).requested = l.requested ++ move.requested?.toList := by
  cases move with
  | receive m =>
    simp only [requested, step, filterMapSnoc, Move.requested?]
  | work worker pace globals =>
    rcases l.stepWork worker pace globals with same | ⟨_, _, _, _, _, _, effect, _⟩
    · simp [same, Move.requested?]
    · simp [effect, requested, Move.requested?]
  | loseSide | cancel | cutOff | closeWriter => simp [requested, step, Move.requested?]

theorem openingBalanced (service : Service) (port : UInt16) : (opening service port).Balanced := by
  obtain ⟨side, session⟩ := openingSession service port
  have silent : (opening service port).answered = [] := by
    rw [← connectUnanswered service port, answered, opening, List.filterMap_map]
    rfl
  refine ⟨?_, openingOrderly service port⟩
  rw [silent, session]
  exact .fresh service side

theorem stepBalanced {l : Log} {move : Move} (balanced : l.Balanced)
    (ongoing : move.isTeardown = false) (distinct : (l.step move).requested.Nodup) :
    (l.step move).Balanced := by
  have orderly := stepOrderly balanced.orderly move
  cases move with
  | cancel | cutOff | closeWriter => contradiction
  | loseSide =>
    exact ⟨⟨balanced.live, balanced.known, balanced.older, balanced.next, balanced.few,
      balanced.balance, balanced.inFlight⟩, orderly⟩
  | receive m =>
    refine ⟨?_, orderly⟩
    obtain ⟨inFlight, side, effect, settled⟩ := l.stepReceive m
    have requested : (l.step (.receive m)).requested = l.requested ++ m.requested?.toList :=
      l.stepRequested (.receive m)
    have answered : (l.step (.receive m)).answered =
        l.answered ++ (l.session.route m).1.filterMap Message.answered? := by
      rw [effect, Log.answered, List.filterMap_append, Session.remarks, List.filterMap_map]
      rfl
    have spawned : (l.step (.receive m)).spawned = l.spawned + m.spawns.toNat := by
      rw [effect, Log.spawned, List.countP_append, List.countP_singleton]
      cases m.spawns <;> rfl
    rw [requested] at distinct
    rw [requested, answered, spawned, effect]
    exact balanced.routed (l.session.routeRouted m) distinct settled
  | work worker pace globals =>
    refine ⟨?_, orderly⟩
    rcases l.stepComplete worker pace globals with same | ⟨w, t, found, moved, effect⟩
    · rw [same]
      exact balanced.toAccounts
    · have answered : (l.step (.work worker pace globals)).answered =
          l.answered ++ t.said.filterMap Utterance.answered? := by
        rw [effect, Log.answered, List.filterMap_append, List.filterMap_map]
        exact congrArg (l.answered ++ ·) (w.deedsAnswered t)
      rw [effect] at distinct
      rw [answered, effect]
      exact (balanced.paced pace).completed distinct (balanced.orderly.sound found) found moved

end Log
end RemoteEval
