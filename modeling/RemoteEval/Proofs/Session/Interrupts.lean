import RemoteEval.Proofs.Session.Protocol
import RemoteEval.Proofs.Session.Sequence
import RemoteEval.Proofs.Session.Settling
import RemoteEval.Proofs.Worker.Course

/-! Interrupts, in every run of a session before its teardown. An interrupt takes two acts of the
dispatcher: it sets the flag of the worker, and then it puts an event into the mailbox to wake it.
Workers may take steps in between. The flag may be found set at a safe point, before the event is
looked at or even sent; the event is then of no consequence.

Steps end where the worker waits or its program rests. As the language may be any, its programs may
rest between any two of their safe points. -/
namespace RemoteEval

def Deed.alarms : Deed → Bool
  | .said x => x.alarms
  | .started _ => false

/- A run with a dispatcher that may be halfway through an interrupt. -/
structure Relay where
  log : Log
  /-- The flag of this worker was set, and it is yet to be woken. -/
  due : Option WorkerId := none
  dispatched : WorkerId → Nat := fun _ => 0

inductive Beat where
  | receive (message : Message)
  | work (worker : WorkerId) (pace : Pace) (globals : Globals)
  | flag (ref : WorkerRef)
  | wake
  | loseSide

namespace Session

theorem modifyService (s : Session) (id : WorkerId) (f : Worker → Worker) :
    (s.modifyWorker id f).service = s.service := by
  unfold modifyWorker
  split <;> rfl

def counted (s : Session) (count : WorkerId → Nat) (m : Message) (worker : WorkerId) : Nat :=
  if m.spawns = true ∧ s.nextWorker = worker then 0
  else if s.arrival? worker m = some .wake then count worker + 1
  else count worker

end Session

namespace Relay

def opening (service : Service) (port : UInt16) : Relay := { log := .opening service port }

def step (r : Relay) : Beat → Relay
  | .receive m =>
    match r.due with
    | none => { r with
        log := r.log.step (.receive m), dispatched := r.log.session.counted r.dispatched m }
    | some _ => r
  | .work id pace globals => { r with log := r.log.step (.work id pace globals) }
  | .flag ref =>
    match r.due, r.log.session.worker? ref with
    | none, some id =>
      { log := { r.log with
          session := r.log.session.modifyWorker id fun w => { w with interrupted := true }
          received := r.log.received ++ [.interrupt ref] }
        due := some id
        dispatched := r.log.session.counted r.dispatched (.interrupt ref) }
    | _, _ => r
  | .wake =>
    match r.due with
    | some id => { r with
        log := { r.log with session := r.log.session.modifyWorker id (Session.mail .wake) }
        due := none }
    | none => r
  | .loseSide => { r with log := r.log.step .loseSide }

def run (r : Relay) (beats : List Beat) : Relay := beats.foldl step r

end Relay

namespace Worker

/- The worker will take up its interrupt, and has opened no more levels than it was told to. -/
structure Attends (loyal due : Prop) (opened dispatched : Nat) (w : Worker) : Prop where
  awake : w.isFinished = false
  woken : w.interrupted = true → .wake ∈ w.mailbox ∨ due
  obeys : loyal → w.activity.Obeys
  count : loyal → opened + w.interrupted.toNat ≤ dispatched

section
variable {loyal due : Prop} {opened dispatched : Nat} {w : Worker}

theorem startAttends (ref : WorkerRef) (request : Request) :
    (Worker.start ref request).Attends loyal due 0 dispatched :=
  ⟨rfl, nofun, fun _ => trivial, fun _ => Nat.zero_le _⟩

theorem Attends.mailed (attends : w.Attends loyal due opened dispatched) (event : Event) :
    (Session.mail event w).Attends loyal due opened dispatched := by
  refine ⟨attends.awake, fun set => ?_, attends.obeys, attends.count⟩
  exact (attends.woken set).imp_left (List.mem_append_left _)

theorem Attends.flagged {late : Prop} (attends : w.Attends loyal due opened dispatched)
    (due : late) :
    ({ w with interrupted := true } : Worker).Attends loyal late opened (dispatched + 1) := by
  refine ⟨attends.awake, fun _ => .inr due, attends.obeys, fun honest => ?_⟩
  have := attends.count honest
  change opened + 1 ≤ dispatched + 1
  omega

theorem Attends.woke {late : Prop} (attends : w.Attends loyal due opened dispatched) :
    (Session.mail .wake w).Attends loyal late opened dispatched :=
  ⟨attends.awake, fun _ => .inl (by simp [Session.mail]), attends.obeys, attends.count⟩

end

section
variable {s : Service} {globals : Globals} {w : Worker}

theorem waitsCalm (live : s.cancelled = false) (awake : w.isFinished = false)
    (woken : w.interrupted = true → .wake ∈ w.mailbox) (waits : w.step s globals = none) :
    w.interrupted = false := by
  by_contra set
  have flag : w.interrupted = true := by simpa using set
  obtain ⟨event, later, mail⟩ := List.exists_cons_of_ne_nil (List.ne_nil_of_mem (woken flag))
  unfold step at waits
  cases activity : w.activity with
  | finished => simp [isFinished, activity] at awake
  | starting request => simp [activity] at waits
  | running request rest => cases rest <;> simp [activity, Turn.checkEq _ live, flag] at waits
  | prompt => cases backlog : w.backlog <;> simp [activity, mail, backlog] at waits
  | reading request tag next => simp [activity, mail] at waits

theorem wokenStep (live : s.cancelled = false) (calm : w.interrupted = false) {later : List Event}
    (mail : w.mailbox = .wake :: later)
    (listens : w.activity = .prompt ∧ w.backlog = [] ∨ w.activity.pending?.isSome = true) :
    w.step s globals = some { worker := { w with mailbox := later }, globals } := by
  rcases listens with ⟨prompt, backlog⟩ | pending
  · simp [step, prompt, backlog, mail, Turn.promptEvent, live, calm]
  · cases activity : w.activity with
    | reading request tag next =>
      simp [step, activity, mail, Turn.readEvent, Turn.checkEq _ live, calm]
    | _ => simp [activity, Activity.pending?] at pending

end
end Worker

def Attends (loyal due : Prop) (opened dispatched : Nat) : Option Worker → Prop
  | some w => w.Attends loyal due opened dispatched
  | none => loyal → opened ≤ dispatched

section
variable {loyal due : Prop} {opened dispatched : Nat} {w : Worker} {t u : Turn}

theorem comesAttends (attends : w.Attends loyal due opened dispatched) (comes : u.Comes loyal t)
    (flag : u.worker.interrupted = w.interrupted) (calm : u.spoken.countP Spoken.alarms = 0)
    (woken : t.worker.interrupted = true → .wake ∈ w.mailbox → .wake ∈ u.worker.mailbox) :
    Attends loyal due (opened + t.spoken.countP Spoken.alarms) dispatched
      (if t.worker.isFinished then none else some t.worker) := by
  have count (honest : loyal) :
      opened + t.spoken.countP Spoken.alarms + t.worker.interrupted.toNat ≤ dispatched := by
    have before := attends.count honest
    have come := comes.interrupts honest
    simp only [Turn.interrupts, calm, flag] at come
    omega
  cases finished : t.worker.isFinished with
  | true => exact fun honest => Nat.le_of_add_right_le (count honest)
  | false =>
    refine ⟨finished, fun set => ?_, comes.obeys, count⟩
    rw [comes.mailbox finished]
    exact (attends.woken (flag ▸ comes.flag set)).imp_left (woken set)

theorem staysAttends (attends : w.Attends loyal due opened dispatched)
    (activity : t.worker.activity = w.activity) (flag : t.worker.interrupted = w.interrupted)
    (calm : t.spoken.countP Spoken.alarms = 0)
    (woken : t.worker.interrupted = true → .wake ∈ w.mailbox → .wake ∈ t.worker.mailbox) :
    Attends loyal due (opened + t.spoken.countP Spoken.alarms) dispatched
      (if t.worker.isFinished then none else some t.worker) := by
  have awake : t.worker.isFinished = false := by
    rw [Worker.isFinished, activity]
    exact attends.awake
  rw [awake, calm]
  refine ⟨awake, fun set => ?_, activity ▸ attends.obeys, flag ▸ attends.count⟩
  exact (attends.woken (flag ▸ set)).imp_left (woken set)

theorem courseAttends {s : Service} {globals : Globals} (course : w.Course loyal s globals t)
    (attends : w.Attends loyal due opened dispatched) :
    Attends loyal due (opened + t.spoken.countP Spoken.alarms) dispatched
      (if t.worker.isFinished then none else some t.worker) := by
  cases course with
  | works idle mail comes =>
    refine comesAttends attends comes rfl rfl fun _ wake => ?_
    rcases mail with same | ⟨request, taken⟩
    · rwa [same] at wake
    · simpa [taken] using wake
  | defers mail =>
    exact staysAttends attends rfl rfl rfl fun _ wake => by simpa [mail] using wake
  | reports other mail =>
    refine staysAttends attends rfl rfl rfl fun _ wake => ?_
    rw [mail] at wake
    exact (List.mem_cons.mp wake).resolve_left (by simp)
  | stirs calm mail =>
    exact staysAttends attends rfl rfl rfl fun set =>
      absurd (calm.symm.trans set) Bool.false_ne_true
  | interrupts idle mail comes calm =>
    exact comesAttends attends comes rfl rfl fun set =>
      absurd (calm.symm.trans set) Bool.false_ne_true
  | reads reading mail comes =>
    exact comesAttends attends comes rfl rfl fun _ wake => by simpa [mail] using wake
  | aborts reading mail comes calm follows =>
    exact comesAttends attends comes rfl rfl fun set =>
      absurd (calm.symm.trans set) Bool.false_ne_true
  | cut detached comes => exact comesAttends attends comes rfl rfl fun _ wake => wake

theorem attendsFewer {fewer : Nat} {x : Option Worker} (le : fewer ≤ opened)
    (attends : Attends loyal due opened dispatched x) : Attends loyal due fewer dispatched x := by
  cases x with
  | none => exact fun honest => Nat.le_trans le (attends honest)
  | some w =>
    refine ⟨attends.awake, attends.woken, attends.obeys, fun honest => ?_⟩
    have := attends.count honest
    omega

theorem attendsLate {late : Prop} {x : Option Worker} (mono : due → late)
    (attends : Attends loyal due opened dispatched x) :
    Attends loyal late opened dispatched x := by
  cases x with
  | none => exact attends
  | some w =>
    exact ⟨attends.awake, fun set => (attends.woken set).imp_right mono, attends.obeys,
      attends.count⟩

end

theorem extendAlarms (worker id : WorkerId) (ref : WorkerRef) (deeds life : List Deed) :
    ((deeds.map fun deed => (⟨some ⟨id, ref⟩, deed⟩ : Entry)).foldl (Entry.extend worker)
      life).countP Deed.alarms ≤
        life.countP Deed.alarms + if id = worker then deeds.countP Deed.alarms else 0 := by
  induction deeds generalizing life with
  | nil => simp
  | cons deed rest ih =>
    rw [List.map_cons, List.foldl_cons]
    refine Nat.le_trans (ih _) ?_
    by_cases this : id = worker
    · simp only [Entry.extend, this, Option.any_some, decide_true, if_true, List.countP_cons]
      split
      · simp only [List.countP_singleton]
        omega
      · simp only [List.countP_append, List.countP_singleton]
        omega
    · simp [Entry.extend, this]

namespace Log
variable {l : Log}

def opened (l : Log) (worker : WorkerId) : Nat := (l.life worker).countP Deed.alarms

theorem receiveOpened (l : Log) (m : Message) (worker : WorkerId) :
    (l.step (.receive m)).opened worker =
      if m.spawns = true ∧ l.session.nextWorker = worker then 0 else l.opened worker := by
  obtain ⟨inFlight, side, effect, -⟩ := l.stepReceive m
  rw [effect, opened, life, List.foldl_append, ← life]
  have routed := l.session.routeRouted m
  unfold Session.remarks
  generalize l.session.route m = result at routed
  obtain ⟨said, s⟩ := result
  cases routed with
  | spawned =>
    by_cases this : l.session.nextWorker = worker
    · simp [Session.author?, Entry.extend, this, Deed.assigns, Message.spawns, Deed.alarms,
        Spoken.alarms]
    · simp [Session.author?, Entry.extend, this, Message.spawns, opened]
  | queued | unknown => simp [Session.author?, Entry.extend, Message.spawns, opened]
  | posted interrupted found other => simp [Message.spawnsRequested other, opened]
  | noted text other =>
    simp [Session.author?, Entry.extend, Message.spawnsRequested other, opened]

theorem deedsAlarms (w : Worker) (t : Turn) :
    (w.deeds t).countP Deed.alarms = t.spoken.countP Spoken.alarms := by
  have silent : w.startDeeds.countP Deed.alarms = 0 := by
    rw [List.countP_eq_zero]
    intro deed member
    obtain ⟨taken, -, rfl⟩ := List.mem_map.mp member
    simp [Deed.alarms]
  rw [Worker.deeds, List.countP_append, silent, Nat.zero_add, List.countP_map]
  rfl

theorem workOpened {l' : Log} {id : WorkerId} {w : Worker} {t : Turn}
    (entries : l'.entries = l.entries ++ (w.deeds t).map (⟨some ⟨id, w.me⟩, ·⟩))
    (worker : WorkerId) : l'.opened worker ≤
      l.opened worker + if id = worker then t.spoken.countP Spoken.alarms else 0 := by
  rw [opened, life, entries, List.foldl_append, ← life, ← deedsAlarms w]
  exact extendAlarms worker id w.me (w.deeds t) (l.life worker)

end Log

namespace Relay
variable {loyal : Prop} {r : Relay}

structure Attended (loyal : Prop) (r : Relay) : Prop where
  live : r.log.session.service.cancelled = false
  language : loyal → r.log.session.service.language.Obeys
  workers : ∀ id, Attends loyal (r.due = some id) (r.log.opened id) (r.dispatched id)
    (r.log.session.workers.get? id)

theorem Attended.served {r' : Relay} {pace : Pace} (attended : r.Attended loyal)
    (service : r'.log.session.service = { r.log.session.service with pace })
    (workers : ∀ id, Attends loyal (r'.due = some id) (r'.log.opened id) (r'.dispatched id)
      (r'.log.session.workers.get? id)) : r'.Attended loyal :=
  ⟨by rw [service]; exact attended.live, by rw [service]; exact attended.language, workers⟩

theorem postedAttends {s : Session} {m : Message} {ref : WorkerRef} {id : WorkerId} {w : Worker}
    {opened : Nat} {dispatched : WorkerId → Nat} (addressed : m.addressee? = some ref)
    (live : s.worker? ref = some id) (attends : w.Attends loyal False opened (dispatched id)) :
    (m.posted w).Attends loyal False opened (s.counted dispatched m id) := by
  have same (event : Event) (other : event ≠ .wake) (brings : m.event? = some event) :
      s.counted dispatched m id = dispatched id := by
    simp [Session.counted, Session.arrival?, brings, other, Session.addressedOld addressed]
  cases m with
  | request form package target request =>
    cases target with
    | new => contradiction
    | worker own =>
      rw [same (.request ⟨form, package, request⟩) (by simp) rfl]
      exact attends.mailed _
  | interrupt own =>
    cases addressed
    have more : s.counted dispatched (.interrupt ref) id = dispatched id + 1 := by
      simp [Session.counted, Session.arrival?, Message.spawns, Message.event?, Message.addressee?,
        live]
    rw [more]
    exact (attends.flagged trivial).woke
  | readStringReply own tag text =>
    rw [same (.readReply tag text) (by simp) rfl]
    exact attends.mailed _
  | _ => contradiction

theorem receiveAttended (attended : r.Attended loyal) (m : Message) :
    (r.step (.receive m)).Attended loyal := by
  unfold step
  dsimp only
  split
  next due =>
    obtain ⟨inFlight, side, effect, -⟩ := r.log.stepReceive m
    have service : (r.log.step (.receive m)).session.service = r.log.session.service := by
      rw [effect]
      exact (r.log.session.routeKeeps m).2.1
    refine attended.served service fun id => ?_
    have before := attended.workers id
    simp only [due, reduceCtorEq] at before ⊢
    rw [Log.receiveOpened]
    have reaches := r.log.session.dispatchReaches m id
    change Attends _ _ _ _ ((r.log.session.dispatch m).2.workers.get? id)
    generalize (r.log.session.dispatch m).2.workers.get? id = after at reaches
    cases reaches with
    | made spawns next =>
      rw [if_pos ⟨spawns, next⟩]
      exact Worker.startAttends _ _
    | posted addressed live found =>
      rw [found] at before
      rw [if_neg (by simp [Session.addressedOld addressed])]
      exact postedAttends addressed live before
    | passes old other =>
      simpa [Session.counted, Session.arrival?, old, other] using before
  · exact attended

theorem workAttended (attended : r.Attended loyal) (id : WorkerId) (pace : Pace)
    (globals : Globals) : (r.step (.work id pace globals)).Attended loyal := by
  unfold step
  dsimp only
  rcases r.log.stepWork id pace globals with same | ⟨w, t, inFlight, side, found, moved, effect, -⟩
  · rw [same]
    exact attended
  have before := attended.workers id
  rw [found] at before
  have course := Worker.stepCourse (s := (r.log.session.paced pace).service) attended.live
    attended.language before.obeys moved
  have after := courseAttends course before
  have grown := Log.workOpened (congrArg Log.entries effect)
  have service : (r.log.step (.work id pace globals)).session.service =
      (r.log.session.paced pace).service := by
    rw [effect]
    exact (Session.resumeKeeps ..).2.1
  refine attended.served service fun other => ?_
  refine attendsFewer (grown other) ?_
  have kept : (r.log.step (.work id pace globals)).session.workers =
      ((r.log.session.paced pace).resume id t.worker).workers := by rw [effect]
  rw [kept]
  by_cases this : other = id
  · subst this
    rw [Session.resumeGet, if_pos rfl, if_pos rfl]
    exact after
  · rw [if_neg (Ne.symm this)]
    exact Session.resumeOthers (s := r.log.session.paced pace) this (attended.workers other)
      (fun _ cut => ⟨cut.awake, cut.woken, cut.obeys, cut.count⟩) t.worker

theorem flagAttended (attended : r.Attended loyal) (ref : WorkerRef) :
    (r.step (.flag ref)).Attended loyal := by
  unfold step
  dsimp only
  split
  next id due live =>
    have service := r.log.session.modifyService id fun w => { w with interrupted := true }
    refine attended.served service fun other => ?_
    have before := attended.workers other
    have counted : r.log.session.counted r.dispatched (.interrupt ref) other =
        if id = other then r.dispatched other + 1 else r.dispatched other := by
      simp [Session.counted, Session.arrival?, Message.spawns, Message.event?,
        Message.addressee?, live]
    change Attends loyal (some id = some other) (r.log.opened other)
      (r.log.session.counted r.dispatched (.interrupt ref) other) _
    rw [Session.modifyGet, counted]
    by_cases this : id = other
    · subst this
      obtain ⟨w, found, -⟩ := (Session.workerLive live).2
      rw [found] at before ⊢
      have after : Attends loyal (some id = some id) (r.log.opened id) (r.dispatched id + 1)
          (some { w with interrupted := true }) := before.flagged rfl
      simpa using after
    · simp only [this, if_false, Option.map_id']
      exact attendsLate (by simp [due]) before
  · exact attended

theorem wakeAttended (attended : r.Attended loyal) : (r.step .wake).Attended loyal := by
  unfold step
  dsimp only
  split
  next id due =>
    have service := r.log.session.modifyService id (Session.mail .wake)
    refine attended.served service fun other => ?_
    have before := attended.workers other
    change Attends loyal (none = some other) (r.log.opened other) (r.dispatched other) _
    rw [Session.modifyGet]
    by_cases this : id = other
    · subst this
      cases found : r.log.session.workers.get? id with
      | none =>
        rw [found] at before
        exact before
      | some w =>
        rw [found] at before
        have after : Attends loyal (none = some id) (r.log.opened id) (r.dispatched id)
            (some (Session.mail .wake w)) := before.woke
        simpa using after
    · simp only [this, if_false, Option.map_id']
      exact attendsLate (by simp [due, this]) before
  · exact attended

theorem stepAttended (attended : r.Attended loyal) (beat : Beat) :
    (r.step beat).Attended loyal := by
  cases beat with
  | receive m => exact receiveAttended attended m
  | work id pace globals => exact workAttended attended id pace globals
  | flag ref => exact flagAttended attended ref
  | wake => exact wakeAttended attended
  | loseSide => exact ⟨attended.live, attended.language, attended.workers⟩

theorem runAttended (attended : r.Attended loyal) (beats : List Beat) :
    (r.run beats).Attended loyal := by
  induction beats generalizing r with
  | nil => exact attended
  | cons beat rest ih => exact ih (stepAttended attended beat)

theorem openingAttended {service : Service} (live : service.cancelled = false)
    (language : loyal → service.language.Obeys) (port : UInt16) :
    (opening service port).Attended loyal := by
  obtain ⟨side, session⟩ := openingSession service port
  have same : (opening service port).log.session = _ := session
  refine ⟨by rw [same]; exact live, by rw [same]; exact language, fun id => ?_⟩
  have silent : (opening service port).log.opened id = 0 :=
    congrArg (List.countP Deed.alarms) (Log.openingSilent service port id)
  rw [same, silent]
  exact fun _ => Nat.zero_le _

theorem flagWake {ref : WorkerRef} {id : WorkerId} (idle : r.due = none)
    (live : r.log.session.worker? ref = some id) :
    (r.step (.flag ref)).step .wake = r.step (.receive (.interrupt ref)) := by
  obtain ⟨w, found, -⟩ := (Session.workerLive live).2
  have flagged : r.log.session.modifyWorker id (fun w => { w with interrupted := true }) =
      { r.log.session with
        workers := r.log.session.workers.insert id { w with interrupted := true } } := by
    simp [Session.modifyWorker, found]
  have woken : Session.modifyWorker { r.log.session with
      workers := r.log.session.workers.insert id { w with interrupted := true } } id
        (Session.mail .wake) = (r.log.session.dispatch (.interrupt ref)).2 := by
    rw [Session.dispatchLive (by rfl) live found]
    simp [Session.modifyWorker, Table.insertInsert, Message.posted, Message.requested?]
  have silent : r.log.session.remarks (.interrupt ref) = [] := by
    simp [Session.remarks, Session.route, Session.post, live, Session.report]
  simp only [step, idle, live, flagged, woken, Log.step, silent, List.append_nil]

/- An interrupt that a worker has not taken has woken it, or is about to. So a worker that has to
wait has none to take, and one that is woken without one goes on as it was. The levels of interrupts
are no more than the interrupts, if programs stop where they are told to and only for that reason. -/
theorem interruptsServed {service : Service} (live : service.cancelled = false) (port : UInt16)
    (beats : List Beat) (worker : WorkerId) :
    let r := (opening service port).run beats
    (∀ w, r.log.session.workers.get? worker = some w →
      (w.interrupted = true → .wake ∈ w.mailbox ∨ r.due = some worker) ∧
      (r.due ≠ some worker → (w.mailbox = [] ∨ ∃ pace globals,
        w.step (r.log.session.paced pace).service globals = none) → w.interrupted = false) ∧
      (w.interrupted = false → ∀ later, w.mailbox = .wake :: later →
        (w.activity = .prompt ∧ w.backlog = [] ∨ w.activity.pending?.isSome = true) →
        ∀ pace globals, w.step (r.log.session.paced pace).service globals =
          some { worker := { w with mailbox := later }, globals })) ∧
    (service.language.Obeys → r.log.opened worker ≤ r.dispatched worker) ∧
    (r.due = none → ∀ ref, r.log.session.worker? ref = some worker →
      (r.step (.flag ref)).step .wake = r.step (.receive (.interrupt ref))) := by
  intro r
  have attended : r.Attended service.language.Obeys :=
    runAttended (openingAttended live id port) beats
  have attends := attended.workers worker
  refine ⟨fun w found => ?_, fun loyal => ?_, fun idle ref known => flagWake idle known⟩
  · rw [found] at attends
    refine ⟨attends.woken, fun idle blocked => ?_, fun calm later mail listens pace globals =>
      Worker.wokenStep (s := (r.log.session.paced pace).service) attended.live calm mail listens⟩
    have woken (set : w.interrupted = true) : .wake ∈ w.mailbox :=
      (attends.woken set).resolve_right idle
    rcases blocked with empty | ⟨pace, globals, waits⟩
    · by_contra set
      simpa [empty] using woken (by simpa using set)
    · exact Worker.waitsCalm (s := (r.log.session.paced pace).service) attended.live attends.awake
        woken waits
  · cases found : r.log.session.workers.get? worker with
    | none =>
      rw [found] at attends
      exact attends loyal
    | some w =>
      rw [found] at attends
      exact Nat.le_of_add_right_le (attends.count loyal)

def lateWake : List Beat := [
  .receive (.request "(list)" "U" .new 1), .flag 1, .work 0 .throughRests [], .wake]

def onlyWoken (w : Worker) : Bool :=
  match w.activity, w.backlog, w.mailbox with
  | .prompt, [], [.wake] => !w.interrupted
  | _, _, _ => false

theorem lateWakeIdle :
    let r := (opening { language := Calc.language } 0).run lateWake
    ({ language := Calc.language } : Service).cancelled = false ∧
    (∃ w, r.log.session.workers.get? 0 = some w ∧ w.mailbox = [.wake] ∧
      w.step (r.log.session.paced .throughRests).service [] =
        some { worker := { w with mailbox := [] }, globals := [] }) ∧
    r.log.opened 0 = 1 ∧ r.log.opened 0 ≤ r.dispatched 0 := by
  intro r
  have served := @interruptsServed { language := Calc.language } rfl 0 lateWake 0
  have ready : (r.log.session.workers.get? 0).any onlyWoken = true := by decide +kernel
  obtain ⟨w, found, woken⟩ := (Option.any_eq_true _ _).mp ready
  unfold onlyWoken at woken
  split at woken
  next prompt backlog mail =>
    obtain ⟨-, -, stirs⟩ := served.1 w found
    exact ⟨rfl, ⟨w, found, mail, stirs (by simpa using woken) [] mail (.inl ⟨prompt, backlog⟩)
      .throughRests []⟩, by decide +kernel, served.2.1 Calc.languageObeys⟩
  · contradiction

end Relay
end RemoteEval
