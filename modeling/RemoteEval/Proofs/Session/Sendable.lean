import RemoteEval.Proofs.Session.Protocol
import RemoteEval.Proofs.Wire.RoundTrip
import RemoteEval.Proofs.Worker.Sendable

/-! Sessions that no teardown has reached, and whose client sends what was once decoded. Every
worker has only messages to say that can be read but for the depth of their values, and every
reference is a positive number. A move spends at most one reference, level and tag, so none of
them runs over in a run that is not longer than they are many. -/
namespace RemoteEval
open Message (wordLimit)

namespace Registry
variable {ω : Type} [Key ω] {r : Registry ω} {count : Nat}

def Used (r : Registry ω) (ref : WorkerRef) : Prop :=
  (r.free.get? ref).isSome ∨ (r.live.get? ref).isSome ∨ ∃ worker, r.refs.get? worker = some ref

/- No reference in use is zero, and the next new one is at most `count + 1`. -/
structure Within (r : Registry ω) (count : Nat) : Prop where
  fresh : 1 ≤ r.fresh.toNat ∧ r.fresh.toNat ≤ count + 1
  used : ∀ {ref}, r.Used ref → 1 ≤ ref

theorem Within.more (within : r.Within count) : r.Within (count + 1) :=
  ⟨⟨within.fresh.1, Nat.le_succ_of_le within.fresh.2⟩, within.used⟩

theorem usedEntered {worker : ω} {ref other : WorkerRef} {free : Table WorkerRef Unit}
    {fresh : WorkerRef} (given : ∀ {other}, (free.get? other).isSome → r.Used other)
    (used : Used ⟨r.live.insert ref worker, r.refs.insert worker ref, free, fresh⟩ other) :
    other = ref ∨ r.Used other := by
  classical
  by_cases same : other = ref
  · exact .inl same
  · refine .inr ?_
    obtain back | live | ⟨one, known⟩ := used
    · exact given back
    · exact .inr (.inl (by simpa [Ne.symm same] using live))
    · by_cases this : worker = one
      · exact absurd (by simpa [this] using known.symm) same
      · exact .inr (.inr ⟨one, by simpa [this] using known⟩)

theorem allocateWithin {worker : ω} {ref : WorkerRef} {r' : Registry ω}
    (within : r.Within count) (room : count + 2 < 4294967296)
    (allocated : r.allocate worker = (ref, r')) : 1 ≤ ref ∧ r'.Within (count + 1) := by
  obtain ⟨low, high⟩ := within.fresh
  unfold allocate at allocated
  split at allocated
  next known =>
    cases allocated
    exact ⟨within.used (.inr (.inr ⟨worker, known⟩)), ⟨low, by omega⟩, within.used⟩
  · dsimp only at allocated
    split at allocated
    next first rest keys =>
      cases allocated
      obtain ⟨_, given⟩ := Table.memKeys.mp (show first ∈ r.free.keys by simp [keys])
      have positive := within.used (.inl (Option.isSome_of_eq_some given))
      have kept {other : WorkerRef} (back : ((r.free.erase first).get? other).isSome) :
          r.Used other := by
        simp only [Table.getErase] at back
        split at back
        · contradiction
        · exact .inl back
      refine ⟨positive, ⟨low, Nat.le_succ_of_le high⟩, fun {other} taken => ?_⟩
      obtain rfl | before := usedEntered kept taken
      · exact positive
      · exact within.used before
    · cases allocated
      have positive : 1 ≤ r.fresh := UInt32.le_iff_toNat_le.mpr low
      have next : (r.fresh + 1).toNat = r.fresh.toNat + 1 := by
        rw [UInt32.toNat_add]
        change (r.fresh.toNat + 1) % 2 ^ 32 = r.fresh.toNat + 1
        omega
      refine ⟨positive, by rw [next]; omega, fun {other} taken => ?_⟩
      obtain rfl | before := usedEntered .inl taken
      · exact positive
      · exact within.used before

theorem usedReleased {ref other : WorkerRef} (used : (r.release ref).2.Used other) :
    r.Used other := by
  unfold release at used
  cases live : r.live.get? ref with
  | none => simpa only [live] using used
  | some holder =>
    rw [live] at used
    by_cases same : other = ref
    · exact same ▸ .inr (.inl (Option.isSome_of_eq_some live))
    · obtain back | there | ⟨one, known⟩ := used
      · exact .inl (by simpa [Ne.symm same] using back)
      · exact .inr (.inl (by simpa [same] using there))
      · simp only [Table.getErase] at known
        exact .inr (.inr ⟨one, (Option.ite_none_left_eq_some.mp known).2⟩)

theorem releaseWithin (within : r.Within count) (ref : WorkerRef) :
    (r.release ref).2.Within count := by
  refine ⟨?_, fun used => within.used (usedReleased used)⟩
  unfold release
  split <;> exact within.fresh

end Registry

theorem Worker.Settled.mailed {small : Prop} {count : Nat} {w : Worker}
    (settled : w.Settled small count) {event : Event}
    (fits : ∀ request, event = .request request → request.Fits) (interrupted : Bool) :
    (Session.mail event { w with interrupted }).Settled small count := by
  have clean := settled.clean
  refine ⟨⟨clean.me, clean.grounded, clean.openers, fun r mem => ?_, clean.depth, clean.tag⟩,
    settled.activity⟩
  simp only [queue, Session.mail, filterMapSnoc, ← List.append_assoc] at mem
  rcases List.mem_append.mp mem with older | new
  · exact clean.queue r older
  · cases event with
    | request request => exact fits r (by simpa [Event.request?, eq_comm] using new)
    | readReply | wake => simp [Event.request?] at new

def Move.Ordinary : Move → Prop
  | .receive m => ∃ frame, Frame.decode frame = .ok m
  | .work _ _ globals => globals.Proper
  | .loseSide => True
  | .cancel | .cutOff | .closeWriter => False

namespace Session

def turn? (s : Session) (id : WorkerId) (pace : Pace) (globals : Globals) : Option Turn := do
  (← s.workers.get? id).step (s.paced pace).service globals

theorem routeKeeps (s : Session) (m : Message) :
    (s.route m).2.writable = s.writable ∧ (s.route m).2.service = s.service ∧
      (s.route m).2.side = s.side ∧ (s.route m).2.state = s.state := by
  have routed := s.routeRouted m
  generalize s.route m = result at routed
  obtain ⟨said, after⟩ := result
  cases routed <;> exact ⟨rfl, rfl, rfl, rfl⟩

theorem resumeKeeps (s : Session) (id : WorkerId) (w : Worker) :
    (s.resume id w).writable = s.writable ∧ (s.resume id w).service = s.service ∧
      (s.resume id w).side = s.side ∧ (s.resume id w).state = s.state := by
  unfold resume release modifyWorker
  dsimp only
  repeat' split
  all_goals exact ⟨rfl, rfl, rfl, rfl⟩

structure Serves (small : Prop) (count : Nat) (s : Session) : Prop where
  language : s.service.language.Proper
  writable : s.writable = true
  registry : small → s.registry.Within count
  workers : ∀ {id w}, s.workers.get? id = some w → w.Settled small count

section
variable {small : Prop} {count : Nat} {s : Session}

theorem Serves.more (serves : s.Serves small count) : s.Serves small (count + 1) :=
  ⟨serves.language, serves.writable, fun n => (serves.registry n).more,
    fun found => (serves.workers found).more⟩

theorem Serves.inserted (serves : s.Serves small count) {worker : WorkerId} {w : Worker}
    (settled : w.Settled small count) {id : WorkerId} {v : Worker}
    (found : (s.workers.insert worker w).get? id = some v) : v.Settled small count := by
  by_cases same : worker = id
  · have this : w = v := by simpa [same] using found
    exact this ▸ settled
  · exact serves.workers (by simpa [same] using found)

theorem Serves.route (serves : s.Serves small count) (room : small → count + 2 < 4294967296)
    {m : Message} (able : m.transmissible = true) :
    (s.route m).2.Serves small (count + 1) ∧ ∀ said ∈ (s.route m).1, said.Sendable small := by
  have more := serves.more
  have numbers := Message.numbersFitIff.mp ((Message.transmissibleIff m).mp able).1
  have routed := s.routeRouted m
  generalize s.route m = result at routed
  obtain ⟨said, after⟩ := result
  cases routed with
  | @spawned form package id ref registry allocated =>
    have fits : Request.Fits ⟨form, package, id⟩ := by simpa [Request.Fits] using numbers.2.1
    have given (n : small) := Registry.allocateWithin (serves.registry n) (room n) allocated
    refine ⟨⟨serves.language, serves.writable, fun n => (given n).2,
      more.inserted (Worker.startSettled fits fun n => (given n).1)⟩, ?_⟩
    rw [List.forall_mem_singleton]
    refine ⟨by simp [Message.value?], fun n => Message.numbersFitIff.mpr ?_⟩
    simpa [show id.toNat < wordLimit from fits] using (given n).1
  | @queued form package ref id worker w live found =>
    have fits : Request.Fits ⟨form, package, id⟩ := by simpa [Request.Fits] using numbers.2.1
    have mailed : (mail (.request ⟨form, package, id⟩) w).Settled small (count + 1) :=
      (more.workers found).mailed (by rintro _ ⟨⟩; exact fits) w.interrupted
    exact ⟨⟨serves.language, serves.writable, more.registry, more.inserted mailed⟩, by simp⟩
  | @unknown form package ref id absent =>
    refine ⟨more, ?_⟩
    rw [List.forall_mem_singleton]
    exact ⟨by simp [Message.value?], fun _ => Message.numbersFitIff.mpr (by simpa using numbers)⟩
  | @posted _ event worker w interrupted found other news =>
    have mailed : (mail event { w with interrupted }).Settled small (count + 1) :=
      (more.workers found).mailed (by rintro _ rfl; simp [Event.request?] at news) interrupted
    exact ⟨⟨serves.language, serves.writable, more.registry, more.inserted mailed⟩, by simp⟩
  | noted text other =>
    refine ⟨more, ?_⟩
    rw [List.forall_mem_singleton]
    exact ⟨by simp [Message.value?], fun _ => rfl⟩

theorem Serves.turn (serves : s.Serves small count) (room : small → count + 2 < 4294967296)
    {id : WorkerId} (sound : ∀ {w}, s.workers.get? id = some w → w.Sound) {pace : Pace}
    {globals : Globals} (proper : globals.Proper) {t : Turn}
    (moved : s.turn? id pace globals = some t) : t.Settled small (count + 1) := by
  obtain ⟨w, found, stepped⟩ := Option.bind_eq_some_iff.mp moved
  have enough : small → count + 1 < wordLimit := fun n => by
    have := room n
    simp only [wordLimit]
    omega
  have language : (s.paced pace).service.language.Proper := serves.language
  exact Worker.stepSettled enough language (serves.workers found) (sound found) proper stepped

theorem Serves.resume (serves : s.Serves small count) (id : WorkerId) {w : Worker}
    (settled : w.Settled small count) : (s.resume id w).Serves small count := by
  obtain ⟨writable, service, _⟩ := s.resumeKeeps id w
  refine ⟨service ▸ serves.language, writable.trans serves.writable, fun n => ?_,
    fun {other v} found => ?_⟩
  · rw [resumeRegistry]
    split
    · exact Registry.releaseWithin (serves.registry n) w.me
    · exact serves.registry n
  · rw [resumeGet] at found
    split at found
    · obtain ⟨_, same⟩ := Option.ite_none_left_eq_some.mp found
      cases same
      exact settled
    · obtain ⟨old, kept, rfl⟩ := Option.map_eq_some_iff.mp found
      have before := serves.workers kept
      split
      · exact ⟨⟨before.clean.me, before.clean.grounded, before.clean.openers, before.clean.queue,
          before.clean.depth, before.clean.tag⟩, before.activity⟩
      · exact before

end

end Session

namespace Log
variable {small : Prop} {count : Nat} {l : Log}

theorem stepServes (serves : l.session.Serves small count) (orderly : l.Orderly)
    (room : small → count + 2 < 4294967296) {move : Move} (ordinary : move.Ordinary) :
    (l.step move).session.Serves small (count + 1) := by
  cases move with
  | receive m =>
    obtain ⟨frame, decoded⟩ := ordinary
    have able := Frame.decodedTransmissible (Frame.decodeOk decoded)
    obtain ⟨routed, _⟩ := serves.route room able
    obtain ⟨inFlight, side, effect, _⟩ := l.stepReceive m
    rw [effect]
    exact ⟨routed.language, routed.writable, routed.registry, routed.workers⟩
  | work id pace globals =>
    rcases l.stepWork id pace globals with same | ⟨w, t, inFlight, side, found, moved, effect, _⟩
    · rw [same]
      exact serves.more
    have turn : l.session.turn? id pace globals = some t := by simp [Session.turn?, found, moved]
    have settled := serves.turn room orderly.sound ordinary turn
    have paced : (l.session.paced pace).Serves small (count + 1) :=
      ⟨serves.language, serves.writable, serves.more.registry, serves.more.workers⟩
    have resumed := paced.resume id ⟨settled.clean.worker, settled.activity⟩
    rw [effect]
    exact ⟨resumed.language, resumed.writable, resumed.registry, resumed.workers⟩
  | loseSide => exact ⟨serves.language, serves.writable, serves.more.registry, serves.more.workers⟩
  | cancel | cutOff | closeWriter => exact ordinary.elim

theorem runServes (serves : l.session.Serves small count) (orderly : l.Orderly)
    {moves : List Move} (room : small → count + moves.length + 1 < 4294967296)
    (ordinary : ∀ move ∈ moves, move.Ordinary) :
    (l.run moves).session.Serves small (count + moves.length) := by
  induction moves generalizing l count with
  | nil => exact serves
  | cons move rest ih =>
    obtain ⟨first, others⟩ := List.forall_mem_cons.mp ordinary
    rw [List.length_cons] at room ⊢
    have next := stepServes serves orderly (fun n => by have := room n; omega) first
    have later := ih next (stepOrderly orderly move) (fun n => by have := room n; omega) others
    rw [Nat.add_right_comm] at later
    exact later

theorem openingServes {service : Service} (language : service.language.Proper) (port : UInt16) :
    (opening service port).session.Serves small 0 := by
  obtain ⟨side, session⟩ := openingSession service port
  rw [session]
  exact ⟨language, rfl, fun _ => ⟨⟨Nat.le_refl 1, Nat.le_refl 1⟩, by simp [Registry.Used]⟩, by simp⟩

end Log

end RemoteEval
