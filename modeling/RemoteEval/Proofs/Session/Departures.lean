import RemoteEval.Calc.Basic
import RemoteEval.Proofs.Session.Answers

/-! Requests that come while a worker leaves. A worker answers its outermost request, then gives its
reference back, and then turns away what waits for it. Between these parts messages are dispatched and
other workers take steps, so a request may still reach a worker that has nothing more to do but this.
It also happens that no thread can be had for a new worker. Every request has one answer all the same,
or a worker that is not gone holds it. The requests need different numbers for this, and nothing else:
not that answers arrive, nor that they fit a frame. -/
namespace RemoteEval

inductive Doing where
  | receive (message : Message)
  | fail (request : Request) (reason : String)
  | work (worker : WorkerId) (pace : Pace) (globals : Globals)
  | release (worker : WorkerId)
  | drain (worker : WorkerId)
  | loseSide

def Doing.requested? : Doing → Option RequestId
  | .receive m => m.requested?
  | .fail request _ => some request.id
  | _ => none

structure Journal where
  session : Session
  received : List Message := []
  said : List Utterance := []

namespace Journal

def opening (service : Service) (port : UInt16) : Journal where
  session := (Session.connect service port).2
  said := (Session.connect service port).1.map .message

def note (j : Journal) (said : List Utterance) (session : Session) : Journal :=
  { j with session, said := j.said ++ said }

/- The parts of an exit come in their order: a worker that is finished has yet to give its reference
back as long as it is attached. -/
def step (j : Journal) : Doing → Journal
  | .receive m =>
    { j.note ((j.session.route m).1.map .message) (j.session.dispatch m).2 with
      received := j.received ++ [m] }
  | .fail request reason =>
    let (said, s) := j.session.spawnFailed request reason
    { j.note (said.map .message) (s.deliverAll (said.map .message)).2 with
      received := j.received ++ [.request request.form request.package .new request.id] }
  | .work id pace globals =>
    let s := j.session.paced pace
    match (s.workers.get? id).bind (·.act s.service globals) with
    | some t => j.note t.said (s.absorb id t).2
    | none => j
  | .release id =>
    match j.session.workers.get? id with
    | some w => if w.isFinished && w.attached then j.note [] (j.session.release w.me) else j
    | none => j
  | .drain id =>
    match j.session.workers.get? id with
    | some w =>
      if w.isFinished && !w.attached then j.note (Turn.lastWords w) (j.session.drain id).2 else j
    | none => j
  | .loseSide => j.note [] j.session.loseSide

def run (j : Journal) (doings : List Doing) : Journal := doings.foldl step j

def requested (j : Journal) : List RequestId := j.received.filterMap Message.requested?

def answered (j : Journal) : List RequestId := j.said.filterMap Utterance.answered?

def spawned (j : Journal) : Nat := j.received.countP Message.spawns

end Journal

namespace Worker
variable {w : Worker}

theorem startFit (ref : WorkerRef) (request : Request) : (start ref request).Fit where
  atWork _ := Session.startSound ref request
  leaving := nofun

theorem mailFit (fit : w.Fit) (event : Event) (interrupted : Bool) :
    (Session.mail event { w with interrupted }).Fit where
  atWork awake :=
    have sound := fit.atWork awake
    Session.mailSound ⟨sound.grounded, sound.prompt, sound.starting, sound.finished⟩ awake
  leaving := fit.leaving

end Worker

namespace Session
variable {s s' : Session} {id : WorkerId} {w : Worker}

def Fit (s : Session) : Prop := ∀ id w, s.workers.get? id = some w → w.Fit

theorem Fit.insert (fit : s.Fit) (id : WorkerId) (whole : w.Fit) (other : WorkerId) (v : Worker)
    (found : (s.workers.insert id w).get? other = some v) : v.Fit := by
  simp only [Table.getInsert] at found
  split at found
  · cases found
    exact whole
  · exact fit other v found

theorem Fit.routed {m : Message} {said : List Message} (fit : s.Fit)
    (routed : Routed s m said s') : s'.Fit := by
  cases routed with
  | @spawned form package id ref registry allocated =>
    exact fit.insert _ (Worker.startFit ref ⟨form, package, id⟩)
  | @queued form package ref id worker w live found =>
    exact fit.insert _ (Worker.mailFit (fit _ _ found) (.request ⟨form, package, id⟩) w.interrupted)
  | @posted m event worker w interrupted found =>
    exact fit.insert _ (Worker.mailFit (fit _ _ found) event interrupted)
  | unknown | noted => exact fit

theorem Fit.release (fit : s.Fit) (ref : WorkerRef) : (s.release ref).Fit := by
  intro id w found
  rw [releaseGet] at found
  obtain ⟨v, before, rfl⟩ := Option.map_eq_some_iff.mp found
  refine Worker.inwardFit ?_ (fit id v before)
  split <;> rfl

theorem Fit.erase (fit : s.Fit) (id other : WorkerId) (v : Worker)
    (found : (s.workers.erase id).get? other = some v) : v.Fit := by
  simp only [Table.getErase] at found
  exact fit other v (Option.ite_none_left_eq_some.mp found).2

theorem Fit.delivered (fit : s.Fit) (said : List Utterance) : (s.deliverAll said).2.Fit := by
  obtain ⟨inFlight, side, effect, -⟩ := s.deliverAllEq said
  rw [effect]
  exact fit

def apologies (request : Request) (ref : WorkerRef) (reason : String) : List Message :=
  [.workerAssigned request.id ref,
    .returned ref (.abort (some s!"spawn worker: {reason}")) request.id]

theorem spawnFailedEq (s : Session) (request : Request) (reason : String) :
    let ref := (s.registry.allocate s.nextWorker).1
    s.spawnFailed request reason =
      (apologies request ref reason, (s.spawn request).2.without s.nextWorker ref) := rfl

/- A worker that does not come to be is one that is gone again, and its request is answered. -/
theorem Accounts.failed {requested answered : List RequestId} {spawned : Nat} {request : Request}
    (books : s.Accounts requested answered spawned) (distinct : (requested ++ [request.id]).Nodup)
    (ref : WorkerRef) (reason : String) (given : (s.registry.allocate s.nextWorker).1 = ref) :
    Accounts (requested ++ [request.id]) (answered ++ [request.id]) (spawned + 1)
      (((s.spawn request).2.without s.nextWorker ref).deliverAll
        ((apologies request ref reason).map .message)).2 := by
  rcases allocated : s.registry.allocate s.nextWorker with ⟨own, registry⟩
  obtain rfl : own = ref := by rwa [allocated] at given
  have begun : (s.spawn request).2.Accounts (requested ++ [request.id]) (answered ++ [])
      (spawned + 1) := by
    simp only [Session.spawn, allocated]
    exact books.spawn allocated distinct fun _ => rfl
  have there : (s.spawn request).2.workers.get? s.nextWorker = some (.start own request) := by
    simp [Session.spawn, allocated]
  obtain ⟨v, found, alike⟩ : ∃ v,
      ((s.spawn request).2.release own).workers.get? s.nextWorker = some v ∧
        v.inward = (Worker.start own request).inward := by
    rw [releaseGet, there]
    refine ⟨_, rfl, ?_⟩
    split <;> rfl
  have held : v.held = [request.id] := (Worker.inwardHeld alike).trans rfl
  obtain ⟨inFlight, side, effect, settled⟩ :=
    ((s.spawn request).2.without s.nextWorker own).deliverAllEq
      ((apologies request own reason).map .message)
  have gone : Accounts (requested ++ [request.id]) (answered ++ [] ++ v.held) (spawned + 1)
      { (s.spawn request).2.without s.nextWorker own with inFlight, side } :=
    (begun.released distinct own).ended distinct found (begun.releasedUnlisted there)
      fun other => by rw [settled other, held]; rfl
  rw [held, List.append_nil] at gone
  rw [effect]
  exact gone

end Session

namespace Journal
variable {j : Journal}

structure Kept (j : Journal) : Prop where
  books : j.session.Accounts j.requested j.answered j.spawned
  fit : j.session.Fit

theorem stepRequested (j : Journal) (doing : Doing) :
    (j.step doing).requested = j.requested ++ doing.requested?.toList := by
  cases doing with
  | receive m => exact filterMapSnoc ..
  | fail request reason => exact filterMapSnoc ..
  | work | release | drain =>
    simp only [step, Doing.requested?, Option.toList_none, List.append_nil]
    repeat' split
    all_goals rfl
  | loseSide => exact (List.append_nil _).symm

theorem runRequested (j : Journal) (doings : List Doing) :
    (j.run doings).requested = j.requested ++ doings.filterMap Doing.requested? := by
  induction doings generalizing j with
  | nil => simp [run]
  | cons doing rest ih =>
    rw [run, List.foldl_cons, ← run, ih, stepRequested]
    cases came : doing.requested? <;> simp [came]

theorem noteAnswered (j : Journal) (said : List Utterance) (session : Session) :
    (j.note said session).answered = j.answered ++ said.filterMap Utterance.answered? :=
  List.filterMap_append

theorem receiveKept (kept : j.Kept) (m : Message)
    (distinct : (j.step (.receive m)).requested.Nodup) : (j.step (.receive m)).Kept := by
  rw [stepRequested] at distinct
  have routed := j.session.routeRouted m
  obtain ⟨inFlight, side, effect, settled⟩ :=
    (j.session.route m).2.deliverAllEq ((j.session.route m).1.map .message)
  have session : (j.step (.receive m)).session = { (j.session.route m).2 with inFlight, side } :=
    effect
  have answers : ((j.session.route m).1.map Utterance.message).filterMap Utterance.answered? =
      (j.session.route m).1.filterMap Message.answered? := by
    rw [List.filterMap_map]
    rfl
  rw [answers] at settled
  have spawned : (j.step (.receive m)).spawned = j.spawned + m.spawns.toNat := by
    simp only [step, Journal.spawned, List.countP_append, List.countP_singleton]
    cases m.spawns <;> rfl
  refine ⟨?_, ?_⟩
  · have answered : (j.step (.receive m)).answered =
        j.answered ++ (j.session.route m).1.filterMap Message.answered? := by
      rw [← answers]
      exact List.filterMap_append
    rw [stepRequested, answered, spawned, session]
    exact kept.books.routed routed distinct settled
  · have fit : (j.session.route m).2.Fit := kept.fit.routed routed
    rw [session]
    exact fit

theorem failKept (kept : j.Kept) (request : Request) (reason : String)
    (distinct : (j.step (.fail request reason)).requested.Nodup) :
    (j.step (.fail request reason)).Kept := by
  rw [stepRequested] at distinct
  rcases allocated : j.session.registry.allocate j.session.nextWorker with ⟨ref, registry⟩
  have books := kept.books.failed distinct ref reason (by rw [allocated])
  have spawned : (j.step (.fail request reason)).spawned = j.spawned + 1 := by
    simp [step, Journal.spawned, Message.spawns]
  have answered : (j.step (.fail request reason)).answered = j.answered ++ [request.id] :=
    List.filterMap_append
  have session : (j.step (.fail request reason)).session =
      (((j.session.spawn request).2.without j.session.nextWorker ref).deliverAll
        ((Session.apologies request ref reason).map .message)).2 := by
    simp only [step, Session.spawnFailedEq, allocated]
    rfl
  refine ⟨?_, ?_⟩
  · rw [stepRequested, answered, spawned, session]
    exact books
  · rw [session]
    have begun : (j.session.spawn request).2.Fit := by
      simp only [Session.spawn, allocated]
      exact kept.fit.insert _ (Worker.startFit ref request)
    have gone : ((j.session.spawn request).2.without j.session.nextWorker ref).Fit :=
      (begun.release ref).erase _
    exact gone.delivered _

theorem stepKept (kept : j.Kept) (doing : Doing)
    (distinct : (j.step doing).requested.Nodup) : (j.step doing).Kept := by
  have before : j.requested.Nodup := by
    rw [stepRequested] at distinct
    exact (List.nodup_append.mp distinct).1
  cases doing with
  | receive m => exact receiveKept kept m distinct
  | fail request reason => exact failKept kept request reason distinct
  | work id pace globals =>
    simp only [step]
    split
    next t moved =>
      obtain ⟨w, found, acted⟩ := Option.bind_eq_some_iff.mp moved
      have sound := (kept.fit id w found).atWork (Worker.actAwake acted)
      refine ⟨?_, ?_⟩
      · rw [noteAnswered]
        exact (kept.books.paced pace).absorbed before sound found acted
      · have turned : ({ j.session.paced pace with
            workers := j.session.workers.insert id t.worker } : Session).Fit :=
          kept.fit.insert id (Worker.actKeeps sound acted).1
        exact turned.delivered t.said
    · exact kept
  | release id =>
    simp only [step]
    split
    next w found =>
      split
      · refine ⟨?_, kept.fit.release w.me⟩
        rw [noteAnswered, List.filterMap_nil, List.append_nil]
        exact kept.books.released before w.me
      · exact kept
    · exact kept
  | drain id =>
    simp only [step]
    split
    next w found =>
      split
      next leaving =>
        obtain ⟨finished, detached⟩ : w.isFinished = true ∧ w.attached = false := by
          simpa using leaving
        -- it gave its reference back, so no reference stands for it
        have unlisted (ref : WorkerRef) : j.session.registry.live.get? ref ≠ some id := by
          intro live
          obtain ⟨v, same, -, attached⟩ := kept.books.live live
          rw [found] at same
          cases same
          rw [detached] at attached
          contradiction
        refine ⟨?_, ?_⟩
        · rw [noteAnswered]
          exact kept.books.drained before found (kept.fit id w found) finished unlisted
        · have gone : ({ j.session with workers := j.session.workers.erase id } : Session).Fit :=
            kept.fit.erase id
          show (j.session.drain id).2.Fit
          rw [Session.drainFound found]
          exact gone.delivered _
      · exact kept
    · exact kept
  | loseSide =>
    refine ⟨?_, kept.fit⟩
    rw [step, noteAnswered, List.filterMap_nil, List.append_nil]
    exact ⟨kept.books.live, kept.books.known, kept.books.older, kept.books.next, kept.books.few,
      kept.books.balance, kept.books.inFlight⟩

theorem runKept (kept : j.Kept) {doings : List Doing}
    (distinct : (j.run doings).requested.Nodup) : (j.run doings).Kept := by
  induction doings generalizing j with
  | nil => exact kept
  | cons doing rest ih =>
    have before : (j.step doing).requested.Nodup := by
      rw [run, List.foldl_cons, ← run, runRequested] at distinct
      exact (List.nodup_append.mp distinct).1
    exact ih (stepKept kept doing before) distinct

theorem openingKept (service : Service) (port : UInt16) : (opening service port).Kept := by
  obtain ⟨side, same⟩ := openingSession service port
  have session : (opening service port).session = { service, side } := same
  have silent : (opening service port).answered = [] := by
    rw [← connectUnanswered service port, answered, opening, List.filterMap_map]
    rfl
  refine ⟨?_, fun id w found => ?_⟩
  · rw [silent, session]
    exact .fresh service side
  · rw [session] at found
    cases found

/- At most one answer for each request, none for what was not asked for. Until there is one the request
is at one of the places where a worker keeps it that is not gone, and a worker that gave its reference
back answers all that it still holds. -/
theorem answeredOnceOrHeld (service : Service) (port : UInt16) (doings : List Doing)
    (distinct : (doings.filterMap Doing.requested?).Nodup) :
    let j := (opening service port).run doings
    j.answered.Nodup ∧ j.answered ⊆ j.requested ∧
    (∀ id ∈ j.requested, id ∉ j.answered ↔
      ∃ worker w, j.session.workers.get? worker = some w ∧ w.Holds id) ∧
    (∀ id ref, j.session.inFlight.get? id = some ref ↔
      id ∈ j.requested ∧ id ∉ j.answered ∧
      ∃ worker w, j.session.workers.get? worker = some w ∧ w.Holds id ∧ w.me = ref) ∧
    (∀ worker w, j.session.workers.get? worker = some w → w.isFinished = true →
      w.attached = false → (j.step (.drain worker)).session.workers.get? worker = none ∧
        ∀ id, id ∈ (j.step (.drain worker)).answered ↔ id ∈ j.answered ∨ w.Holds id) := by
  intro j
  have different : j.requested.Nodup := by
    rw [runRequested]
    exact distinct
  obtain ⟨books, fit⟩ : j.Kept := runKept (openingKept service port) different
  have apart := books.balance.nodup_iff.mp different
  obtain ⟨once, -, disjoint⟩ := List.nodup_append.mp apart
  have heldRequested {id : RequestId} (held : id ∈ j.session.held) :
      id ∈ j.requested ∧ id ∉ j.answered :=
    ⟨books.balance.mem_iff.mpr (List.mem_append_right _ held),
      fun answered => disjoint id answered id held rfl⟩
  refine ⟨once, fun id answered => ?_, fun id asked => ⟨fun owed => ?_, ?_⟩, fun id ref => ?_,
    fun worker w found finished alone => ?_⟩
  · exact books.balance.mem_iff.mpr (List.mem_append_left _ answered)
  · have held : id ∈ j.session.held :=
      (List.mem_append.mp (books.balance.mem_iff.mp asked)).resolve_left owed
    obtain ⟨worker, w, found, member⟩ := Session.memSessionHeld.mp held
    exact ⟨worker, w, found, Worker.memHeld.mp member⟩
  · rintro ⟨worker, w, found, holds⟩
    exact (heldRequested (Session.memSessionHeld.mpr
      ⟨worker, w, found, Worker.memHeld.mpr holds⟩)).2
  · rw [books.inFlight id ref]
    constructor
    · rintro ⟨worker, w, found, me, member⟩
      obtain ⟨asked, owed⟩ := heldRequested (Session.memSessionHeld.mpr ⟨worker, w, found, member⟩)
      exact ⟨asked, owed, worker, w, found, Worker.memHeld.mp member, me⟩
    · rintro ⟨-, -, worker, w, found, holds, me⟩
      exact ⟨worker, w, found, me, Worker.memHeld.mpr holds⟩
  · have drained : j.step (.drain worker) = j.note (Turn.lastWords w) (j.session.drain worker).2 := by
      simp [step, found, finished, alone]
    refine ⟨?_, fun id => ?_⟩
    · obtain ⟨inFlight, side, effect, -⟩ := ({ j.session with
        workers := j.session.workers.erase worker } : Session).deliverAllEq (Turn.lastWords w)
      rw [drained, note, Session.drainFound found, effect]
      simp
    · rw [drained, noteAnswered, Worker.heldLeaving (fit worker w found) finished, List.mem_append,
        Worker.memHeld]

def belated : List Doing := [
  .receive (.request "1" "U" .new 1), .work 0 .throughRests [],
  .receive (.request "2" "U" (.worker 1) 2), .release 0,
  .receive (.request "3" "U" (.worker 1) 3), .fail ⟨"4", "U", 4⟩ "no thread"]

theorem belatedAnswered :
    (belated.filterMap Doing.requested?).Nodup ∧
    let j := (opening { language := Calc.language } 0).run belated
    j.answered = [1, 3, 4] ∧
    (∃ worker w, j.session.workers.get? worker = some w ∧ w.Holds 2) ∧
    (j.step (.drain 0)).answered = [1, 3, 4, 2] := by
  have distinct : (belated.filterMap Doing.requested?).Nodup := by decide
  have answered : ((opening { language := Calc.language } 0).run belated).answered = [1, 3, 4] := by
    decide +kernel
  have requested :
      ((opening { language := Calc.language } 0).run belated).requested = [1, 2, 3, 4] := by
    decide +kernel
  have owed := (answeredOnceOrHeld { language := Calc.language } 0 belated distinct).2.2.1
  refine ⟨distinct, answered, (owed 2 ?_).mp ?_, by decide +kernel⟩
  · rw [requested]
    decide
  · rw [answered]
    decide

end Journal
end RemoteEval
