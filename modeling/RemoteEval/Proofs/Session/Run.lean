import RemoteEval.Session.Basic
import RemoteEval.Proofs.Registry
import RemoteEval.Proofs.Worker.Requests

/-! Runs of a session. A run is any interleaving of messages of the client, steps of
workers and, at its end, the parts of a teardown. The log keeps what the session itself
forgets: the messages that came, and what was done by whom in which order. What is said
is recorded when it is handed over to be sent; whether it still fits a frame or finds
the connection open is not looked at here. -/
namespace RemoteEval

def Message.requested? : Message → Option RequestId
  | .request _ _ _ id => some id
  | _ => none

def Message.spawns : Message → Bool
  | .request _ _ .new _ => true
  | _ => false

theorem Message.spawnsRequested {m : Message} (other : m.requested? = none) :
    m.spawns = false := by
  cases m with
  | request => contradiction
  | _ => rfl

theorem filterMapSnoc {α β : Type} (f : α → Option β) (items : List α) (a : α) :
    (items ++ [a]).filterMap f = items.filterMap f ++ (f a).toList := by
  rw [List.filterMap_append]
  cases made : f a <;> simp [made]

structure Author where
  id : WorkerId
  ref : WorkerRef
  deriving DecidableEq

/- A deed, and the worker that did it. The dispatcher has no name; it announces a new
worker in the name of that worker. -/
structure Entry where
  author : Option Author
  deed : Deed

inductive Move where
  | receive (message : Message)
  | work (worker : WorkerId) (pace : Pace) (globals : Globals)
  | loseSide
  | cancel
  | cutOff
  | closeWriter

def Move.isTeardown : Move → Bool
  | .cancel | .cutOff | .closeWriter => true
  | _ => false

def Move.requested? : Move → Option RequestId
  | .receive m => m.requested?
  | _ => none

namespace Session

def author? (s : Session) : Message → Option Author
  | .workerAssigned _ ref => some ⟨s.nextWorker, ref⟩
  | _ => none

def remarks (s : Session) (m : Message) : List Entry :=
  (s.route m).1.map fun said => ⟨s.author? said, .said ⟨.message said, []⟩⟩

def paced (s : Session) (pace : Pace) : Session :=
  { s with service := { s.service with pace } }

/- A worker is where a turn left it. One that is finished gave its reference back and is gone. -/
def resume (s : Session) (id : WorkerId) (w : Worker) : Session :=
  let s := { s with workers := s.workers.insert id w }
  if w.isFinished then
    let s := s.release w.me
    { s with workers := s.workers.erase id }
  else s

def complete (s : Session) (id : WorkerId) (t : Turn) : List Message × Session :=
  (s.resume id t.worker).deliverAll t.said

end Session

structure Log where
  session : Session
  received : List Message := []
  entries : List Entry := []

namespace Log

def opening (service : Service) (port : UInt16) : Log where
  session := (Session.connect service port).2
  entries := (Session.connect service port).1.map fun m => ⟨none, .said ⟨.message m, []⟩⟩

def step (l : Log) : Move → Log
  | .receive m =>
    { session := (l.session.dispatch m).2
      received := l.received ++ [m]
      entries := l.entries ++ l.session.remarks m }
  | .work id pace globals =>
    let s := l.session.paced pace
    match s.workers.get? id with
    | none => l
    | some w =>
      match w.step s.service globals with
      | none => l
      | some t =>
        { l with
          session := (s.complete id t).2
          entries := l.entries ++ (w.deeds t).map (⟨some ⟨id, w.me⟩, ·⟩) }
  | .loseSide => { l with session := l.session.loseSide }
  | .cancel => { l with session := l.session.cancel }
  | .cutOff => { l with session := l.session.cutOff }
  | .closeWriter => { l with session := l.session.closeWriter }

def run (l : Log) (moves : List Move) : Log := moves.foldl step l

end Log

namespace Worker

def parted (w : Worker) : Worker :=
  if w.attached then { w with interrupted := true, attached := false } else w

theorem partedAlone (w : Worker) : w.parted.attached = false := by
  cases attached : w.attached <;> simp [parted, attached]

theorem partedTwice (w : Worker) : w.parted.parted = w.parted := by
  rw [parted, if_neg (by simp [partedAlone])]

theorem partedInward (w : Worker) : w.parted.inward = w.inward := by
  unfold parted
  split <;> rfl

end Worker

namespace Session
variable {s : Session}

/- The ways in which a message can go. -/
inductive Routed (s : Session) : Message → List Message → Session → Prop where
  | spawned {form package id ref registry}
      (allocated : s.registry.allocate s.nextWorker = (ref, registry)) :
      Routed s (.request form package .new id) [.workerAssigned id ref]
        { s with
          nextWorker := s.nextWorker + 1
          registry
          workers := s.workers.insert s.nextWorker (.start ref ⟨form, package, id⟩)
          inFlight := s.inFlight.insert id ref }
  | queued {form package ref id worker w} (live : s.registry.live.get? ref = some worker)
      (found : s.workers.get? worker = some w) (attached : w.attached = true) :
      Routed s (.request form package (.worker ref) id) []
        { s with
          workers := s.workers.insert worker (mail (.request ⟨form, package, id⟩) w)
          inFlight := s.inFlight.insert id ref }
  | unknown {form package ref id} (absent : s.worker? ref = none) :
      Routed s (.request form package (.worker ref) id)
        [.returned ref (.abort (some (Error.refNotFound ref).message)) id] s
  | posted {m event worker w} (interrupted : Bool) (found : s.workers.get? worker = some w)
      (other : m.requested? = none)
      (news : event.request? = none) (attached : w.attached = true) :
      Routed s m [] { s with
        workers := s.workers.insert worker (mail event { w with interrupted }) }
  | noted {m} (text : String)
      (other : m.requested? = none) :
      Routed s m [.backgroundMessage text] s

theorem startSound (ref : WorkerRef) (request : Request) : (Worker.start ref request).Sound :=
  ⟨trivial, by simp [Worker.start], fun _ _ => ⟨rfl, rfl⟩, by simp [Worker.start]⟩

theorem postEq (s : Session) (ref : WorkerRef) (f : Worker → Worker) :
    (∃ worker w, s.registry.live.get? ref = some worker ∧
      s.workers.get? worker = some w ∧ w.attached = true ∧
      s.post ref f = .ok { s with workers := s.workers.insert worker (f w) }) ∨
    (s.worker? ref = none ∧ s.post ref f = .error (.refNotFound ref)) := by
  unfold post
  cases known : s.worker? ref with
  | none => exact .inr ⟨rfl, rfl⟩
  | some worker =>
    unfold worker? at known
    cases live : s.registry.live.get? ref with
    | none => simp [live] at known
    | some holder =>
      cases found : s.workers.get? holder with
      | none => simp [live, found] at known
      | some w =>
        simp only [live, found, Option.any_some, Option.ite_none_right_eq_some,
          Option.some.injEq] at known
        obtain ⟨attached, rfl⟩ := known
        exact .inl ⟨holder, w, rfl, found, attached, by simp [modifyWorker, found]⟩

theorem routeRouted (s : Session) (m : Message) : Routed s m (s.route m).1 (s.route m).2 := by
  cases m with
  | request form package target id =>
    cases target with
    | new =>
      rcases allocated : s.registry.allocate s.nextWorker with ⟨ref, registry⟩
      simp only [route, spawn, allocated]
      exact .spawned allocated
    | worker ref =>
      rcases postEq s ref (mail (.request ⟨form, package, id⟩)) with
        ⟨worker, w, live, found, attached, posted⟩ | ⟨absent, refused⟩
      · simp only [route, posted]
        exact .queued live found attached
      · simp only [route, refused]
        exact .unknown absent
  | interrupt ref =>
    rcases postEq s ref (fun w => mail .wake { w with interrupted := true }) with
      ⟨worker, w, live, found, attached, posted⟩ | ⟨absent, refused⟩
    · simp only [route, posted, report]
      exact .posted true found rfl rfl attached
    · simp only [route, refused, report]
      exact .noted _ rfl
  | readStringReply ref tag text =>
    rcases postEq s ref (mail (.readReply tag text)) with
      ⟨worker, w, live, found, attached, posted⟩ | ⟨absent, refused⟩
    · simp only [route, posted, report]
      exact .posted w.interrupted found rfl rfl attached
    · simp only [route, refused, report]
      exact .noted _ rfl
  | _ => exact .noted _ rfl

theorem mailSound {event : Event} {w : Worker} (sound : w.Sound) (awake : w.isFinished = false) :
    (mail event w).Sound := by
  refine ⟨sound.grounded, sound.prompt, sound.starting, fun finished => ?_⟩
  simp [Worker.isFinished, show w.activity = .finished from finished] at awake

theorem deliverEq (s : Session) (u : Utterance) :
    ∃ inFlight side, (s.deliver u).2 = { s with inFlight, side } ∧
      ∀ id, inFlight.get? id = if u.answered? = some id then none else s.inFlight.get? id := by
  cases u with
  | output text =>
    cases side : s.side with
    | some before =>
      refine ⟨s.inFlight, (s.deliver (.output text)).2.side, ?_, by simp [Utterance.answered?]⟩
      simp only [deliver, side]
      split <;> rfl
    | none =>
      have same : (s.deliver (.output text)).2 = s := by simp [deliver, side, send, settled]
      exact ⟨s.inFlight, s.side, same, by simp [Utterance.answered?]⟩
  | message m =>
    cases m with
    | returned ref value answered =>
      refine ⟨s.inFlight.erase answered, s.side, rfl, fun id => ?_⟩
      simp only [Table.getErase, Table.rankEq, Utterance.answered?, Message.answered?,
        Option.some.injEq, eq_comm]
    | _ => exact ⟨s.inFlight, s.side, rfl, by simp [Utterance.answered?, Message.answered?]⟩

theorem deliverAllEq (s : Session) (said : List Utterance) :
    ∃ inFlight side, (s.deliverAll said).2 = { s with inFlight, side } ∧
      ∀ id, inFlight.get? id = if id ∈ said.filterMap Utterance.answered? then none
        else s.inFlight.get? id := by
  induction said generalizing s with
  | nil => exact ⟨s.inFlight, s.side, rfl, by simp⟩
  | cons u rest ih =>
    obtain ⟨between, side, delivered, first⟩ := deliverEq s u
    obtain ⟨inFlight, side', all, others⟩ := ih { s with inFlight := between, side }
    refine ⟨inFlight, side', by simp only [deliverAll, delivered, all], fun id => ?_⟩
    rw [others id, first id]
    by_cases answered : u.answered? = some id
    · simp [answered]
    · simp [List.mem_filterMap, answered]

theorem modifyGet (s : Session) (worker other : WorkerId) (f : Worker → Worker) :
    (s.modifyWorker worker f).workers.get? other =
      (s.workers.get? other).map fun v => if worker = other then f v else v := by
  unfold modifyWorker
  cases found : s.workers.get? worker with
  | none =>
    by_cases same : worker = other
    · simp [← same, found]
    · simp [same]
  | some w =>
    by_cases same : worker = other
    · simp [← same, found]
    · simp [same]

theorem releaseGet (s : Session) (ref : WorkerRef) (other : WorkerId) :
    (s.release ref).workers.get? other = (s.workers.get? other).map fun v =>
      if s.registry.live.get? ref = some other then { v with attached := false } else v := by
  unfold release Registry.release
  cases s.registry.live.get? ref with
  | none => simp
  | some holder =>
    simp only [modifyGet, Option.some.injEq]

theorem resumeGet (s : Session) (worker other : WorkerId) (w : Worker) :
    (s.resume worker w).workers.get? other =
      if other = worker then (if w.isFinished then none else some w)
      else (s.workers.get? other).map fun v =>
        if w.isFinished ∧ s.registry.live.get? w.me = some other then { v with attached := false }
        else v := by
  unfold resume
  cases w.isFinished with
  | false =>
    by_cases same : other = worker
    · simp [same]
    · simp [same, Ne.symm same]
  | true =>
    by_cases same : other = worker
    · simp [same]
    · simp [same, Ne.symm same, releaseGet]

theorem resumeOthers {Keeps : Option Worker → Prop} {worker other : WorkerId}
    (apart : other ≠ worker) (keeps : Keeps (s.workers.get? other))
    (alone : ∀ v, Keeps (some v) → Keeps (some { v with attached := false })) (w : Worker) :
    Keeps ((s.resume worker w).workers.get? other) := by
  rw [resumeGet, if_neg apart]
  cases found : s.workers.get? other with
  | none => rwa [found] at keeps
  | some v =>
    rw [found] at keeps
    rw [Option.map_some]
    split
    · exact alone v keeps
    · exact keeps

theorem releaseRegistry (s : Session) (ref : WorkerRef) :
    (s.release ref).registry = (s.registry.release ref).2 := by
  unfold release modifyWorker
  dsimp only
  repeat' split
  all_goals rfl

theorem resumeRegistry (s : Session) (worker : WorkerId) (w : Worker) :
    (s.resume worker w).registry =
      if w.isFinished then (s.registry.release w.me).2 else s.registry := by
  unfold resume
  cases w.isFinished with
  | false => rfl
  | true => exact releaseRegistry ..

theorem resumeLive (s : Session) (worker : WorkerId) (w : Worker) (ref : WorkerRef) :
    (s.resume worker w).registry.live.get? ref =
      if w.isFinished ∧ ref = w.me then none else s.registry.live.get? ref := by
  rw [resumeRegistry]
  cases w.isFinished with
  | false => simp
  | true => simp [Registry.releaseLive]

theorem resumeInward (s : Session) {worker other : WorkerId} (w : Worker)
    (different : other ≠ worker) : ((s.resume worker w).workers.get? other).map Worker.inward =
      (s.workers.get? other).map Worker.inward := by
  simp only [resumeGet, if_neg different, Option.map_map]
  refine Option.map_congr fun v _ => ?_
  simp only [Function.comp_apply]
  split <;> rfl

theorem cutOffGet (s : Session) (other : WorkerId) :
    s.cutOff.workers.get? other = (s.workers.get? other).map Worker.parted := by
  have each (ids : List WorkerId) (u : Session) :
      (ids.foldl (fun s id => s.modifyWorker id Worker.parted) u).workers.get? other =
        (u.workers.get? other).map fun w => if other ∈ ids then w.parted else w := by
    induction ids generalizing u with
    | nil => simp
    | cons id rest ih =>
      rw [List.foldl_cons, ih, modifyGet, Option.map_map]
      refine Option.map_congr fun w _ => ?_
      by_cases here : id = other
      · by_cases later : other ∈ rest <;> simp [here, later, w.partedTwice]
      · by_cases later : other ∈ rest <;> simp [here, later, Ne.symm here]
  refine (each s.workers.keys { s with registry := {}, inFlight := {} }).trans ?_
  cases found : s.workers.get? other with
  | none => rfl
  | some w => simp [Table.memKeys.mpr ⟨w, found⟩]

theorem cutOffInward (s : Session) (other : WorkerId) :
    (s.cutOff.workers.get? other).map Worker.inward =
      (s.workers.get? other).map Worker.inward := by
  rw [cutOffGet, Option.map_map]
  exact Option.map_congr fun w _ => w.partedInward

theorem resumeRest (s : Session) (worker : WorkerId) (w : Worker) :
    (s.resume worker w).nextWorker = s.nextWorker ∧
    (s.resume worker w).inFlight = s.inFlight := by
  unfold resume release modifyWorker
  dsimp only
  repeat' split
  all_goals exact ⟨rfl, rfl⟩

end Session

theorem openingSession (service : Service) (port : UInt16) :
    ∃ side, (Log.opening service port).session = { service, side } := by
  unfold Log.opening Session.connect
  dsimp only
  split
  · exact ⟨some "", rfl⟩
  · exact ⟨none, rfl⟩

theorem connectSaid {service : Service} {port : UInt16} {m : Message}
    (said : m ∈ (Session.connect service port).1) :
    m = .outputChannel port ∨ m = .featureUpdate service.language.features := by
  unfold Session.connect at said
  dsimp only at said
  split at said
  · simpa using said
  · exact .inr (by simpa using said)

theorem connectUnanswered (service : Service) (port : UInt16) :
    (Session.connect service port).1.filterMap Message.answered? = [] := by
  refine List.filterMap_eq_nil_iff.mpr fun m said => ?_
  rcases connectSaid said with rfl | rfl <;> rfl

namespace Log

theorem stepReceive (l : Log) (m : Message) :
    ∃ inFlight side, l.step (.receive m) =
        { session := { (l.session.route m).2 with inFlight, side }
          received := l.received ++ [m]
          entries := l.entries ++ l.session.remarks m } ∧
      ∀ id, inFlight.get? id = if id ∈ (l.session.route m).1.filterMap Message.answered? then none
        else (l.session.route m).2.inFlight.get? id := by
  obtain ⟨inFlight, side, effect, settled⟩ :=
    (l.session.route m).2.deliverAllEq ((l.session.route m).1.map .message)
  refine ⟨inFlight, side, by simp only [step, Session.dispatch, effect], fun id => ?_⟩
  simpa [List.filterMap_map, Function.comp_def, Utterance.answered?] using settled id

theorem stepComplete (l : Log) (worker : WorkerId) (pace : Pace) (globals : Globals) :
    l.step (.work worker pace globals) = l ∨
    ∃ w t, l.session.workers.get? worker = some w ∧
      w.step (l.session.paced pace).service globals = some t ∧
      l.step (.work worker pace globals) = { l with
        session := ((l.session.paced pace).complete worker t).2
        entries := l.entries ++ (w.deeds t).map (⟨some ⟨worker, w.me⟩, ·⟩) } := by
  simp only [step]
  split
  · exact .inl rfl
  next w found =>
    split
    · exact .inl rfl
    next t moved => exact .inr ⟨w, t, found, moved, rfl⟩

theorem stepWork (l : Log) (worker : WorkerId) (pace : Pace) (globals : Globals) :
    l.step (.work worker pace globals) = l ∨
    ∃ w t inFlight side, l.session.workers.get? worker = some w ∧
      w.step (l.session.paced pace).service globals = some t ∧
      l.step (.work worker pace globals) = { l with
        session := { (l.session.paced pace).resume worker t.worker with inFlight, side }
        entries := l.entries ++ (w.deeds t).map (⟨some ⟨worker, w.me⟩, ·⟩) } ∧
      ∀ id, inFlight.get? id = if id ∈ t.said.filterMap Utterance.answered? then none
        else l.session.inFlight.get? id := by
  rcases l.stepComplete worker pace globals with same | ⟨w, t, found, moved, effect⟩
  · exact .inl same
  obtain ⟨inFlight, side, delivered, settled⟩ :=
    ((l.session.paced pace).resume worker t.worker).deliverAllEq t.said
  refine .inr ⟨w, t, inFlight, side, found, moved, ?_, fun id => ?_⟩
  · rw [effect, Session.complete, delivered]
  · rw [settled id, (Session.resumeRest ..).2]
    rfl

end Log
end RemoteEval
