import RemoteEval.Proofs.Session.Protocol
import RemoteEval.Proofs.Exchange.Flow

/-! The channel to the client as a whole. What has been put into it so far fits, message
by message; and when all of it has been read, a reference is bound to a worker exactly if
that worker is there, and the bond is up to date with it. References must not run over
for this, and the requests that came must have different numbers. -/
namespace RemoteEval

namespace Registry
variable {ω : Type} [Key ω] {r : Registry ω}

/- New references rise, from one. They run over at zero, which is never reached as long
as no reference is zero. -/
structure Ordered (r : Registry ω) : Prop where
  apart : ∀ {ref}, r.free.get? ref = some () → r.live.get? ref = none
  used : ∀ {ref}, (r.free.get? ref).isSome ∨ (r.live.get? ref).isSome →
    ref ≠ 0 ∧ (r.fresh = 0 ∨ ref < r.fresh)

theorem succAbove (ref : WorkerRef) : ref + 1 = 0 ∨ ref < ref + 1 := by
  rw [UInt32.lt_iff_toNat_lt, ← UInt32.toNat_inj, UInt32.toNat_add]
  have small := ref.toNat_lt
  show (ref.toNat + 1) % 2 ^ 32 = 0 ∨ ref.toNat < (ref.toNat + 1) % 2 ^ 32
  omega

theorem allocateOrdered {worker : ω} {ref : WorkerRef} {r' : Registry ω} (ordered : r.Ordered)
    (unknown : r.refOf worker = none) (allocated : r.allocate worker = (ref, r'))
    (proper : ref ≠ 0) :
    r.live.get? ref = none ∧ r'.live = r.live.insert ref worker ∧ r'.Ordered := by
  unfold allocate at allocated
  rw [unknown] at allocated
  dsimp only at allocated
  split at allocated
  next first rest keys =>
    cases allocated
    obtain ⟨_, given⟩ := Table.memKeys.mp (show first ∈ r.free.keys by simp [keys])
    refine ⟨ordered.apart given, rfl, fun {other} back => ?_, fun {other} taken => ?_⟩
    · simp only [Table.getErase, Table.rankEq, Option.ite_none_left_eq_some] at back
      simpa [Ne.symm back.1] using ordered.apart back.2
    · by_cases same : other = first
      · subst same
        exact ordered.used (.inl (by simp [given]))
      · simp only [Table.getErase, Table.getInsert, Table.rankEq, same, Ne.symm same,
          if_false] at taken
        exact ordered.used taken
  · cases allocated
    have unused : ∀ {other}, (r.free.get? other).isSome ∨ (r.live.get? other).isSome →
        other < r.fresh := fun taken => ((ordered.used taken).2).resolve_left proper
    have new : r.live.get? r.fresh = none := by
      cases live : r.live.get? r.fresh with
      | none => rfl
      | some holder => exact absurd (unused (.inr (by simp [live]))) (UInt32.lt_irrefl _)
    refine ⟨new, rfl, fun {other} back => ?_, fun {other} taken => ?_⟩
    · have less := unused (.inl (Option.isSome_of_eq_some back))
      have different : r.fresh ≠ other := fun same => UInt32.lt_irrefl _ (same ▸ less)
      simpa [different] using ordered.apart back
    · by_cases same : r.fresh = other
      · exact ⟨same ▸ proper, same ▸ succAbove r.fresh⟩
      · simp only [Table.getInsert, Table.rankEq, same, if_false] at taken
        exact ⟨(ordered.used taken).1,
          (succAbove r.fresh).imp_right (UInt32.lt_trans (unused taken))⟩

theorem releaseOrdered (ordered : r.Ordered) (ref : WorkerRef) : (r.release ref).2.Ordered := by
  unfold release
  cases live : r.live.get? ref with
  | none => exact ordered
  | some holder =>
    refine ⟨fun {other} back => ?_, fun {other} taken => ?_⟩
    · by_cases same : other = ref
      · simp [same]
      · simp only [Table.getInsert, Table.rankEq, Ne.symm same, if_false] at back
        simpa [same] using ordered.apart back
    · by_cases same : other = ref
      · subst same
        exact ordered.used (.inr (by simp [live]))
      · simp only [Table.getErase, Table.getInsert, Table.rankEq, same, Ne.symm same,
          if_false] at taken
        exact ordered.used taken

end Registry

theorem Standing.keep {received more : List Message} {β β' : Bonds} {author a}
    (standing : Standing received β author a) (subset : received ⊆ more)
    (same : β' author.ref = β author.ref) : Standing more β' author a := by
  cases standing with
  | bound bond worker tracks errands =>
    exact .bound (same.trans bond) worker tracks fun id member =>
      (errands id member).imp_right (·.more subset)
  | gone task free errands =>
    exact .gone task (same.trans free) fun id member => (errands id member).more subset

theorem Standing.mailed {received : List Message} {β : Bonds} {author} {w : Worker} {asked}
    {event : Event} (standing : Standing received β author (w.stance asked))
    (awake : w.isFinished = false)
    (errand : ∀ request, event.request? = some request → Nested received author.ref request.id) :
    Standing received β author ((Session.mail event w).stance asked) := by
  have held : ∀ id ∈ ((Session.mail event w).stance asked).held,
      id ∈ (w.stance asked).held ∨ Nested received author.ref id := by
    intro id member
    rw [Worker.stanceHeld, Session.mailHeld, List.mem_append] at member
    refine member.imp_right fun came => ?_
    obtain ⟨request, taken, rfl⟩ := List.mem_map.mp came
    exact errand request (by simpa using taken)
  cases standing with
  | bound bond worker tracks errands =>
    refine .bound bond worker ⟨tracks.present, tracks.grounded, tracks.levels, tracks.asked,
      tracks.outermost⟩ fun id member => ?_
    rcases held id member with before | nested
    · exact errands id before
    · exact .inr nested
  | gone task =>
    rw [Worker.goneFinished.mp task] at awake
    contradiction

/- Bonds and workers are the same, seen from the two ends of a channel that is empty. -/
structure Agrees (received : List Message) (β : Bonds) (s : Session) : Prop where
  ordered : s.registry.Ordered
  known : ∀ {ref b}, β ref = some b → ∃ w, s.workers.get? b.worker = some w ∧ w.me = ref
  live : ∀ {worker w}, s.workers.get? worker = some w →
    w.attached = true ∧ s.registry.live.get? w.me = some worker
  standing : ∀ {worker w}, s.workers.get? worker = some w →
    ∃ asked, w.awaits asked ∧ Standing received β ⟨worker, w.me⟩ (w.stance asked)

namespace Agrees
variable {received more : List Message} {β : Bonds} {s : Session}

theorem sameWorker (agrees : Agrees received β s) {one other : WorkerId} {w v : Worker}
    (first : s.workers.get? one = some w) (second : s.workers.get? other = some v)
    (me : w.me = v.me) : one = other := by
  have here := (agrees.live first).2
  rw [me, (agrees.live second).2] at here
  exact (Option.some.inj here).symm

theorem unbound (agrees : Agrees received β s) {ref : WorkerRef} (absent : s.worker? ref = none) :
    β ref = none := by
  cases bond : β ref with
  | none => rfl
  | some b =>
    obtain ⟨w, found, rfl⟩ := agrees.known bond
    obtain ⟨attached, live⟩ := agrees.live found
    simp [Session.worker?, live, found, attached] at absent

theorem spawned (agrees : Agrees received β s) (absent : s.workers.get? s.nextWorker = none)
    (unknown : s.registry.refOf s.nextWorker = none) {ref registry}
    (allocated : s.registry.allocate s.nextWorker = (ref, registry)) (proper : ref ≠ 0)
    (subset : received ⊆ more) (request : Request) :
    β ref = none ∧ ∀ inFlight side,
    Agrees more (β.hear ⟨some ⟨s.nextWorker, ref⟩, .workerAssigned request.id ref, []⟩)
      { s with
        nextWorker := s.nextWorker + 1
        registry
        workers := s.workers.insert s.nextWorker (.start ref request)
        inFlight
        side } := by
  obtain ⟨free, live, ordered⟩ := Registry.allocateOrdered agrees.ordered unknown allocated proper
  have vacant : ∀ {worker w}, s.workers.get? worker = some w → w.me ≠ ref := by
    rintro worker w found rfl
    rw [(agrees.live found).2] at free
    contradiction
  have older : ∀ {worker w}, s.workers.get? worker = some w → s.nextWorker ≠ worker := by
    rintro worker w found rfl
    rw [absent] at found
    contradiction
  have nobody : β ref = none := by
    cases bond : β ref with
    | none => rfl
    | some b =>
      obtain ⟨w, found, me⟩ := agrees.known bond
      exact absurd me (vacant found)
  have split : ∀ {worker w},
      (s.workers.insert s.nextWorker (.start ref request)).get? worker = some w →
      (worker = s.nextWorker ∧ w = .start ref request) ∨ s.workers.get? worker = some w := by
    intro worker w found
    simp only [Table.getInsert, Table.rankEq] at found
    split at found
    next same => exact .inl ⟨same.symm, (Option.some.inj found).symm⟩
    · exact .inr found
  refine ⟨nobody, fun _ _ => ⟨ordered, fun {other b} bond => ?_,
    fun {worker w} found => ?_, fun {worker w} found => ?_⟩⟩
  · simp only [Bonds.hear] at bond
    split at bond
    next same =>
      cases bond
      exact ⟨.start ref request, by simp, same.symm⟩
    · obtain ⟨w, found, me⟩ := agrees.known bond
      exact ⟨w, by simp [older found, found], me⟩
  · rw [live]
    rcases split found with ⟨rfl, rfl⟩ | before
    · exact ⟨rfl, by simp [Worker.start]⟩
    · simpa [Ne.symm (vacant before)] using agrees.live before
  · rcases split found with ⟨rfl, rfl⟩ | before
    · have bond : β.hear ⟨some ⟨s.nextWorker, ref⟩, .workerAssigned request.id ref, []⟩ ref =
          some { worker := s.nextWorker, outermost := request.id } := by simp [Bonds.hear]
      refine ⟨none, by simp [Worker.awaits, Worker.start], .bound bond rfl
        ⟨by simp [Worker.stance, Worker.task, Worker.start], trivial, rfl, rfl, rfl⟩
        fun id member => .inl ?_⟩
      simpa [Worker.start, Worker.stance, Worker.task, Stance.held, Stance.chain, Task.request?,
        DebugStack.openers, Worker.queue] using member
    · obtain ⟨asked, awaits, standing⟩ := agrees.standing before
      exact ⟨asked, awaits, standing.keep subset (by simp [Bonds.hear, vacant before])⟩

theorem replaced (agrees : Agrees received β s) {β' : Bonds} {worker : WorkerId} {w v : Worker}
    (found : s.workers.get? worker = some w) (me : v.me = w.me)
    (attached : v.attached = w.attached) (subset : received ⊆ more)
    (others : ∀ ref, ref ≠ w.me → β' ref = β ref)
    (known : ∀ {b}, β' w.me = some b → b.worker = worker)
    (standing : ∃ asked, v.awaits asked ∧ Standing more β' ⟨worker, v.me⟩ (v.stance asked))
    {inFlight side service} :
    Agrees more β' { s with workers := s.workers.insert worker v, inFlight, side, service } := by
  have split : ∀ {one u}, (s.workers.insert worker v).get? one = some u →
      (one = worker ∧ u = v) ∨ (one ≠ worker ∧ s.workers.get? one = some u) := by
    intro one u got
    simp only [Table.getInsert, Table.rankEq] at got
    split at got
    next same => exact .inl ⟨same.symm, (Option.some.inj got).symm⟩
    next other => exact .inr ⟨Ne.symm other, got⟩
  refine ⟨agrees.ordered, fun {ref b} bond => ?_, fun {one u} got => ?_, fun {one u} got => ?_⟩
  · by_cases this : ref = w.me
    · subst this
      exact ⟨v, by simp [known bond], me⟩
    · rw [others ref this] at bond
      obtain ⟨u, there, same⟩ := agrees.known bond
      have different : worker ≠ b.worker := by
        rintro rfl
        rw [found] at there
        cases there
        exact this same.symm
      exact ⟨u, by simp [different, there], same⟩
  · rcases split got with ⟨rfl, rfl⟩ | ⟨_, before⟩
    · rw [me, attached]
      exact agrees.live found
    · exact agrees.live before
  · rcases split got with ⟨rfl, rfl⟩ | ⟨different, before⟩
    · exact standing
    · obtain ⟨asked, awaits, before'⟩ := agrees.standing before
      refine ⟨asked, awaits, before'.keep subset (others u.me fun same => ?_)⟩
      exact different (agrees.sameWorker before found same)

theorem dismissed (agrees : Agrees received β s) {β' : Bonds} {worker : WorkerId} {w v : Worker}
    (found : s.workers.get? worker = some w) (me : v.me = w.me) (finished : v.isFinished = true)
    (others : ∀ ref, ref ≠ w.me → β' ref = β ref) (free : β' w.me = none) {inFlight side} :
    Agrees received β' { s.resume worker v with inFlight, side } := by
  have holder : s.registry.live.get? v.me = some worker := by
    rw [me]
    exact (agrees.live found).2
  have remains : ∀ {one}, one ≠ worker →
      (s.resume worker v).workers.get? one = s.workers.get? one := by
    intro one different
    simp [Session.resumeGet, different, finished, holder, Ne.symm different]
  have stays : ∀ {one u}, (s.resume worker v).workers.get? one = some u →
      s.workers.get? one = some u ∧ u.me ≠ w.me := by
    intro one u got
    by_cases this : one = worker
    · simp [Session.resumeGet, this, finished] at got
    · rw [remains this] at got
      exact ⟨got, fun same => this (agrees.sameWorker got found same)⟩
  refine ⟨?_, fun {ref b} bond => ?_, fun {one u} got => ?_, fun {one u} got => ?_⟩
  · simp only [Session.resumeRegistry, finished, if_true]
    exact Registry.releaseOrdered agrees.ordered v.me
  · have different : ref ≠ w.me := by
      rintro rfl
      rw [free] at bond
      contradiction
    rw [others ref different] at bond
    obtain ⟨u, there, same⟩ := agrees.known bond
    refine ⟨u, ?_, same⟩
    rw [← there]
    refine remains fun this => ?_
    rw [this, found] at there
    cases there
    exact different same.symm
  · obtain ⟨before, different⟩ := stays got
    simpa [Session.resumeLive, me, different] using agrees.live before
  · obtain ⟨before, different⟩ := stays got
    obtain ⟨asked, awaits, standing⟩ := agrees.standing before
    exact ⟨asked, awaits, standing.keep (List.Subset.refl _) (others u.me different)⟩

theorem later (agrees : Agrees received β s) (subset : received ⊆ more) {inFlight side} :
    Agrees more β { s with inFlight, side } := by
  refine ⟨agrees.ordered, agrees.known, agrees.live, fun found => ?_⟩
  obtain ⟨asked, awaits, standing⟩ := agrees.standing found
  exact ⟨asked, awaits, standing.keep subset rfl⟩

theorem posted (agrees : Agrees received β s) {worker : WorkerId} {w : Worker} {event : Event}
    (interrupted : Bool) (found : s.workers.get? worker = some w) (awake : w.isFinished = false)
    (subset : received ⊆ more)
    (errand : ∀ request, event.request? = some request → Nested more w.me request.id)
    {inFlight side} :
    Agrees more β { s with
      workers := s.workers.insert worker (Session.mail event { w with interrupted })
      inFlight
      side } := by
  obtain ⟨asked, awaits, standing⟩ := agrees.standing found
  have still : Standing more β ⟨worker, w.me⟩ ((Session.mail event w).stance asked) :=
    (standing.keep subset rfl).mailed awake errand
  refine agrees.replaced (v := Session.mail event { w with interrupted }) found rfl rfl subset
    (fun _ _ => rfl) (fun {b} bond => ?_) ⟨asked, awaits, still⟩
  obtain ⟨u, there, me⟩ := agrees.known bond
  exact agrees.sameWorker there found me

end Agrees

theorem Agrees.routed {received : List Message} {β : Bonds} {s s' : Session}
    {requested answered : List RequestId} {spawned : Nat} {m : Message} {said : List Message}
    (agrees : Agrees received β s) (books : s.Accounts requested answered spawned)
    (awake : ∀ {id w}, s.workers.get? id = some w → w.isFinished = false)
    (distinct : (requested ++ m.requested?.toList).Nodup) (routed : s.Routed m said s')
    {inFlight side} :
    Flows (received ++ [m]) β (said.map fun m => ⟨s.author? m, m, []⟩) ∧
    (AllRead (said.map fun m => ⟨s.author? m, m, []⟩) →
      Agrees (received ++ [m]) ((said.map fun m => ⟨s.author? m, m, []⟩).foldl Bonds.hear β)
        { s' with inFlight, side }) := by
  have subset : received ⊆ received ++ [m] := List.subset_append_left ..
  have new : m ∈ received ++ [m] := by simp
  cases routed with
  | @spawned form package id ref registry allocated =>
    have absent := books.nextAbsent distinct
    have next := fun proper => agrees.spawned absent (books.nextUnknown distinct) allocated proper
      subset ⟨form, package, id⟩
    have proper : (Message.workerAssigned id ref).readable → ref ≠ 0 := Message.readableInRange
    refine ⟨fun read => ⟨.assigned (next (proper read)).1 ⟨form, package, new⟩, trivial⟩,
      fun all => ?_⟩
    have read := all ⟨some ⟨s.nextWorker, ref⟩, .workerAssigned id ref, []⟩ List.mem_cons_self
    exact (next (proper read)).2 inFlight side
  | @queued form package ref id worker w live found =>
    have me : w.me = ref := by
      obtain ⟨v, same, me, -⟩ := books.live live
      rw [found] at same
      cases same
      exact me
    refine ⟨trivial, fun _ => agrees.posted w.interrupted found (awake found) subset ?_⟩
    rintro request ⟨⟩
    exact ⟨form, package, me ▸ new⟩
  | @unknown form package ref id absent =>
    exact ⟨fun _ => ⟨.unknown _ (agrees.unbound absent) ⟨form, package, new⟩, trivial⟩,
      fun _ => agrees.later subset⟩
  | @posted _ event worker w interrupted found other news =>
    refine ⟨trivial, fun _ => agrees.posted interrupted found (awake found) subset ?_⟩
    simp [news]
  | noted text other =>
    exact ⟨fun _ => ⟨.notice text, trivial⟩, fun _ => agrees.later subset⟩

theorem Agrees.worked {received : List Message} {β : Bonds} {s : Session}
    {requested answered : List RequestId} {spawned : Nat} (dedicated : Bool)
    (agrees : Agrees received β s) (books : s.Accounts requested answered spawned)
    (distinct : requested.Nodup) {worker : WorkerId} {w : Worker} (whole : w.Sound)
    {service globals t} (found : s.workers.get? worker = some w)
    (moved : w.step service globals = some t) {inFlight side} :
    Flows received β (parcelsOf dedicated ⟨worker, w.me⟩ (w.deeds t)) ∧
    (AllRead (parcelsOf dedicated ⟨worker, w.me⟩ (w.deeds t)) →
      Agrees received
        ((parcelsOf dedicated ⟨worker, w.me⟩ (w.deeds t)).foldl Bonds.hear β)
        { s.resume worker t.worker with inFlight, side }) := by
  obtain ⟨asked, awaits, standing⟩ := agrees.standing found
  obtain ⟨asked', conducts, awaits', sound, me, attached⟩ := Worker.stepConduct whole awaits moved
  have alone : (w.stance asked).held.Nodup :=
    (List.nodup_append.mp ((Session.heldErase found).nodup_iff.mp
      (books.heldDistinct distinct))).1
  obtain ⟨flows, reached⟩ := conducts.flows dedicated standing alone
  refine ⟨flows, fun all => ?_⟩
  obtain ⟨after, others⟩ := reached all
  cases finished : t.worker.isFinished with
  | true =>
    refine agrees.dismissed found me finished others ?_
    cases after with
    | gone _ free => exact free
    | bound _ _ tracks => exact absurd (Worker.goneFinished.mpr finished) tracks.present
  | false =>
    have stays : s.resume worker t.worker =
        { s with workers := s.workers.insert worker t.worker } := by
      simp [Session.resume, finished]
    rw [stays]
    refine agrees.replaced found me attached (List.Subset.refl _) others (fun {b} bond => ?_)
      ⟨asked', awaits', me ▸ after⟩
    cases after with
    | gone _ free =>
      rw [free] at bond
      contradiction
    | bound bond' same =>
      cases bond.symm.trans bond'
      exact same

def Message.assigned? : Message → Option RequestId
  | .workerAssigned id _ => some id
  | _ => none

def Message.fresh? : Message → Option RequestId
  | .request _ _ .new id => some id
  | _ => none

/- All that was put into the channel, against the log. -/
structure Conveys (l : Log) (parcels : List Parcel) : Prop where
  balanced : l.Balanced
  flows : Flows l.received (fun _ => none) parcels
  agrees : AllRead parcels → Agrees l.received (bonds parcels) l.session
  answered : parcels.filterMap (·.message.answered?) = l.answered
  assigned : parcels.filterMap (·.message.assigned?) = l.received.filterMap Message.fresh?

theorem parcelsAnswered (dedicated : Bool) (entries : List Entry) :
    (entries.filterMap (Entry.parcel? dedicated)).filterMap (·.message.answered?) =
      entries.filterMap fun e => e.deed.answered? := by
  rw [List.filterMap_filterMap]
  refine List.filterMap_congr fun e _ => ?_
  obtain ⟨author, deed⟩ := e
  cases deed with
  | started request => rfl
  | said spoken =>
    obtain ⟨utterance, levels⟩ := spoken
    cases utterance with
    | message m => rfl
    | output text => cases dedicated <;> rfl

theorem parcelsUnassigned (dedicated : Bool) (author : Author) {deeds : List Deed}
    (plain : ∀ deed ∈ deeds, deed.assigns = false) :
    (parcelsOf dedicated author deeds).filterMap (·.message.assigned?) = [] := by
  refine List.filterMap_eq_nil_iff.mpr fun p member => ?_
  obtain ⟨e, inside, made⟩ := List.mem_filterMap.mp member
  obtain ⟨deed, given, rfl⟩ := List.mem_map.mp inside
  have other := plain deed given
  cases deed with
  | started request => contradiction
  | said spoken =>
    obtain ⟨utterance, levels⟩ := spoken
    cases (Option.ite_none_right_eq_some.mp made).2
    cases utterance with
    | output text => rfl
    | message m =>
      cases m with
      | workerAssigned id ref => contradiction
      | _ => rfl

theorem Session.Routed.assigned {s s' : Session} {m : Message} {said : List Message}
    (routed : s.Routed m said s') : said.filterMap Message.assigned? = m.fresh?.toList := by
  cases routed with
  | posted _ _ other | noted _ other =>
    cases m with
    | request => contradiction
    | _ => rfl
  | _ => rfl

theorem remarksParcels (s : Session) (m : Message) (dedicated : Bool) :
    (s.remarks m).filterMap (Entry.parcel? dedicated) =
      (s.route m).1.map fun m => ⟨s.author? m, m, []⟩ := by
  rw [Session.remarks, List.filterMap_map]
  exact congrFun List.filterMap_eq_map _

namespace Conveys
variable {l : Log} {parcels new : List Parcel} {l' : Log}

theorem extended (conveys : Conveys l parcels) (balanced : l'.Balanced)
    (received : l.received ⊆ l'.received)
    (answered : l'.answered = l.answered ++ new.filterMap (·.message.answered?))
    (assigned : l'.received.filterMap Message.fresh? =
      l.received.filterMap Message.fresh? ++ new.filterMap (·.message.assigned?))
    (fits : AllRead parcels → Flows l'.received (bonds parcels) new ∧
      (AllRead new → Agrees l'.received (new.foldl Bonds.hear (bonds parcels)) l'.session)) :
    Conveys l' (parcels ++ new) := by
  refine ⟨balanced, flowsAppend.mpr ⟨conveys.flows.more received, fun all => (fits all).1⟩,
    fun all => ?_, ?_, ?_⟩
  · obtain ⟨before, after⟩ := List.forall_mem_append.mp all
    rw [bonds, List.foldl_append]
    exact (fits before).2 after
  · rw [List.filterMap_append, conveys.answered, answered]
  · rw [List.filterMap_append, conveys.assigned, assigned]

theorem received (conveys : Conveys l parcels) (m : Message) (dedicated : Bool)
    (distinct : (l.step (.receive m)).requested.Nodup) :
    Conveys (l.step (.receive m))
      (parcels ++ (l.session.remarks m).filterMap (Entry.parcel? dedicated)) := by
  have balanced := Log.stepBalanced conveys.balanced rfl distinct
  have asked : (l.requested ++ m.requested?.toList).Nodup := by
    rwa [show (l.step (.receive m)).requested = _ from l.stepRequested (.receive m)] at distinct
  obtain ⟨inFlight, side, effect, _⟩ := l.stepReceive m
  have routed := l.session.routeRouted m
  refine conveys.extended balanced (by simp [effect]) ?_ ?_ fun all => ?_
  · rw [effect, parcelsAnswered, Log.answered, List.filterMap_append]
    rfl
  · rw [effect, remarksParcels, List.filterMap_map, filterMapSnoc, ← routed.assigned]
    rfl
  · rw [effect, remarksParcels]
    exact (conveys.agrees all).routed conveys.balanced.toAccounts conveys.balanced.orderly.awake
      asked routed

theorem worked (conveys : Conveys l parcels) (worker : WorkerId) (pace : Pace) (globals : Globals)
    (dedicated : Bool) (distinct : (l.step (.work worker pace globals)).requested.Nodup) :
    Conveys (l.step (.work worker pace globals)) (parcels ++
      ((l.step (.work worker pace globals)).entries.drop l.entries.length).filterMap
        (Entry.parcel? dedicated)) := by
  have balanced := Log.stepBalanced conveys.balanced rfl distinct
  rcases l.stepWork worker pace globals with same | ⟨w, t, inFlight, side, found, moved, effect, _⟩
  · rw [same]
    simpa using conveys
  · rw [effect] at balanced distinct ⊢
    rw [List.drop_left]
    have whole := conveys.balanced.orderly.sound found
    obtain ⟨asked, awaits⟩ := w.awaitsSome
    obtain ⟨_, conducts, _⟩ := Worker.stepConduct whole awaits moved
    refine conveys.extended balanced (List.Subset.refl _) ?_ ?_ fun all => ?_
    · rw [parcelsAnswered, Log.answered, List.filterMap_append]
      rfl
    · have silent := parcelsUnassigned dedicated ⟨worker, w.me⟩ conducts.noAssignment
      rw [parcelsOf] at silent
      rw [silent, List.append_nil]
    · have before := conveys.agrees all
      have paced : Agrees l.received (bonds parcels) (l.session.paced pace) :=
        ⟨before.ordered, before.known, before.live, before.standing⟩
      exact paced.worked dedicated (conveys.balanced.paced pace) distinct whole found moved

end Conveys

theorem openingConveys (service : Service) (port : UInt16) :
    Conveys (.opening service port)
      ((Log.opening service port).entries.filterMap (Entry.parcel? false)) := by
  have said : (Log.opening service port).entries.filterMap (Entry.parcel? false) =
      (Session.connect service port).1.map fun m => ⟨none, m, []⟩ := by
    rw [Log.opening, List.filterMap_map]
    exact congrFun List.filterMap_eq_map _
  have nobody : ∀ said : List Message, bonds (said.map fun m => ⟨none, m, []⟩) = fun _ => none := by
    intro said
    induction said with
    | nil => rfl
    | cons m rest ih => exact ih
  obtain ⟨side, session⟩ := openingSession service port
  refine ⟨Log.openingBalanced service port, ?_, fun _ => ?_, parcelsAnswered .., ?_⟩
  · rw [said]
    unfold Session.connect
    dsimp only
    split
    · exact fun _ => ⟨.channel port, fun _ => ⟨.features _, trivial⟩⟩
    · exact fun _ => ⟨.features _, trivial⟩
  · rw [said, nobody, session]
    exact ⟨⟨by simp, by simp⟩, by simp, by simp, by simp⟩
  · rw [said, List.filterMap_map]
    refine List.filterMap_eq_nil_iff.mpr fun m member => ?_
    rcases connectSaid member with rfl | rfl <;> rfl

end RemoteEval
