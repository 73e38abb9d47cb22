import RemoteEval.Proofs.Exchange.Delivery
import RemoteEval.Proofs.Session.Transmission
import RemoteEval.Proofs.Worker.Settling

/-! A message for a worker, processed until the worker has to wait or is gone. The worker takes its
turns by itself; the session exchanges it, gives its reference back when it ends, and hands over
what it says. What was said is handed over the same way whatever the workers are. -/
namespace RemoteEval

def Message.posted : Message → Worker → Worker
  | .request form package _ id, w => Session.mail (.request ⟨form, package, id⟩) w
  | .interrupt _, w => Session.mail .wake { w with interrupted := true }
  | .readStringReply _ tag text, w => Session.mail (.readReply tag text) w
  | _, w => w

namespace Session

inductive Settles (id : WorkerId) : Globals → Session → List Message → Globals → Session → Prop where
  | waits {globals s} (idle : s.advance globals id = none) : Settles id globals s [] globals s
  | moves {globals s between sent after more globals' s'}
      (moved : s.advance globals id = some (between, sent, after))
      (rest : Settles id between after more globals' s') :
      Settles id globals s (sent ++ more) globals' s'

/- A message for a live worker is dispatched, and then that worker moves until it has to wait or is
gone. -/
inductive Processes (globals : Globals) (s : Session) (m : Message) :
    List Message → Globals → Session → Prop where
  | live {ref id more globals' s'} (addressed : m.addressee? = some ref)
      (live : s.worker? ref = some id)
      (settles : Settles id globals (s.dispatch m).2 more globals' s') :
      Processes globals s m ((s.dispatch m).1 ++ more) globals' s'

theorem Settles.unique {id : WorkerId} {globals one other : Globals} {s u v : Session}
    {sent more : List Message} (settles : Settles id globals s sent one u)
    (again : Settles id globals s more other v) : sent = more ∧ one = other ∧ u = v := by
  induction settles generalizing more with
  | waits idle =>
    cases again with
    | waits => exact ⟨rfl, rfl, rfl⟩
    | moves moved => rw [idle] at moved; cases moved
  | moves moved rest ih =>
    cases again with
    | waits idle => rw [idle] at moved; cases moved
    | moves moved' rest' =>
      rw [moved] at moved'
      cases moved'
      obtain ⟨rfl, rfl, rfl⟩ := ih rest'
      exact ⟨rfl, rfl, rfl⟩

theorem Processes.unique {globals one other : Globals} {s u v : Session} {m : Message}
    {sent more : List Message} (processes : s.Processes globals m sent one u)
    (again : s.Processes globals m more other v) : sent = more ∧ one = other ∧ u = v := by
  obtain ⟨addressed, live, settles⟩ := processes
  obtain ⟨addressed', live', settles'⟩ := again
  rw [addressed] at addressed'
  cases addressed'
  rw [live] at live'
  cases live'
  obtain ⟨rfl, rfl, rfl⟩ := settles.unique settles'
  exact ⟨rfl, rfl, rfl⟩

section Saying
variable {s u : Session}

theorem deliverSent (writable : u.writable = s.writable) (side : u.side.isNone = s.side.isNone)
    (what : Utterance) : (u.deliver what).1 = (s.deliver what).1 := by
  have sent (m : Message) : (u.send m).1 = (s.send m).1 := by
    rw [send, send, transmits, transmits, writable]
  cases what with
  | message m => exact sent m
  | output text =>
    cases one : u.side <;> cases other : s.side <;> simp only [one, other, deliver] at side ⊢
    · exact sent (.output text)
    · contradiction
    · contradiction

theorem deliverAllSent (writable : u.writable = s.writable) (side : u.side.isNone = s.side.isNone)
    (said : List Utterance) : (u.deliverAll said).1 = (s.deliverAll said).1 := by
  induction said generalizing s u with
  | nil => rfl
  | cons what rest ih =>
    obtain ⟨kept, same⟩ := s.deliverKeeps what
    obtain ⟨kept', same'⟩ := u.deliverKeeps what
    have later := ih (s := (s.deliver what).2) (u := (u.deliver what).2)
      (by rw [kept, kept', writable]) (by rw [same, same', side])
    simp only [deliverAll, deliverSent writable side what, later]

def printed (writable : Bool) : List Utterance → String
  | [] => ""
  | .output text :: rest => (if writable then text else "") ++ printed writable rest
  | .message _ :: rest => printed writable rest

theorem deliverAllSide (s : Session) (said : List Utterance) :
    (s.deliverAll said).2.side = s.side.map (· ++ printed s.writable said) := by
  induction said generalizing s with
  | nil => cases side : s.side <;> simp [deliverAll, side, printed]
  | cons what rest ih =>
    obtain ⟨kept, -⟩ := s.deliverKeeps what
    have whole : (s.deliverAll (what :: rest)).2 = ((s.deliver what).2.deliverAll rest).2 := rfl
    rw [whole, ih, kept]
    cases what with
    | message m => cases m <;> rfl
    | output text =>
      cases side : s.side with
      | none => simp [deliver, send, settled, side]
      | some before =>
        cases writable : s.writable <;>
          simp [deliver, side, writable, printed, String.append_assoc]

end Saying

section Resuming
variable {s : Session} {id : WorkerId} {w w' : Worker}

theorem resumeWith (s : Session) (id : WorkerId) (w : Worker) (inFlight : Table RequestId WorkerRef)
    (side : Option String) : { s with inFlight, side }.resume id w =
      { s.resume id w with inFlight, side } := by
  unfold resume release modifyWorker
  dsimp only
  repeat' split
  all_goals rfl

theorem resumeSame (found : s.workers.get? id = some w) (awake : w.isFinished = false) :
    s.resume id w = s := by
  simp only [resume, awake, Bool.false_eq_true, if_false, Table.insertSame found]

theorem resumeAgain (awake : w.isFinished = false) (w' : Worker) :
    (s.resume id w).resume id w' = s.resume id w' := by
  simp only [resume, awake, Bool.false_eq_true, if_false, Table.insertInsert]

def left (s : Session) (id : WorkerId) (w : Worker) (said : List Utterance) : Session :=
  { s.resume id w with
    inFlight := (s.deliverAll said).2.inFlight
    side := (s.deliverAll said).2.side }

theorem completeLeft (s : Session) (id : WorkerId) (t : Turn) :
    s.complete id t = ((s.deliverAll t.said).1, s.left id t.worker t.said) := by
  obtain ⟨writable, -, side, -⟩ := s.resumeKeeps id t.worker
  exact deliverAllAlike writable (s.resumeRest id t.worker).2 side t.said

theorem leftDeliver (s : Session) (id : WorkerId) (w : Worker) (said more : List Utterance) :
    (s.left id w said).deliverAll more = (((s.deliverAll said).2.deliverAll more).1,
      { s.left id w said with
        inFlight := (s.deliverAll (said ++ more)).2.inFlight
        side := (s.deliverAll (said ++ more)).2.side }) := by
  obtain ⟨inFlight, side, effect, -⟩ := s.deliverAllEq said
  have writable : (s.left id w said).writable = (s.deliverAll said).2.writable := by
    rw [effect]
    exact (s.resumeKeeps id w).1
  rw [deliverAllAppend, deliverAllAlike writable rfl rfl more]

/- What a worker does in several turns it might do in one. -/
theorem leftAgain (awake : w.isFinished = false) (w' : Worker) (said more : List Utterance) :
    (s.left id w said).left id w' more = s.left id w' (said ++ more) := by
  have resumed : (s.left id w said).resume id w' = { s.resume id w' with
      inFlight := (s.deliverAll said).2.inFlight, side := (s.deliverAll said).2.side } := by
    rw [left, resumeWith, resumeAgain awake]
  rw [left, resumed, leftDeliver]
  rfl

theorem leftGone (finished : w.isFinished = true) (said : List Utterance) :
    (s.left id w said).workers.get? id = none := by
  rw [left, resumeGet, if_pos rfl, if_pos finished]

theorem leftThere (awake : w.isFinished = false) (said : List Utterance) :
    (s.left id w said).workers.get? id = some w := by
  rw [left, resumeGet, if_pos rfl, awake]
  rfl

theorem leftNothing (found : s.workers.get? id = some w) (awake : w.isFinished = false) :
    s.left id w [] = s := by
  rw [left, resumeSame found awake]
  rfl

/- The turns of a worker as turns of the session: the worker is exchanged until it is gone, and all
that it says is handed over. -/
theorem settlesLeft {service : Service} {globals globals' : Globals} {said : List Utterance}
    (settles : Worker.Settles service globals w said globals' w') (same : s.service = service)
    (found : s.workers.get? id = some w) (awake : w.isFinished = false) :
    Settles id globals s (s.deliverAll said).1 globals' (s.left id w' said) := by
  induction settles generalizing s with
  | waits idle =>
    rw [leftNothing found awake]
    exact .waits (by simp [advanceWhole, found, same, idle])
  | @moves globals w t said globals' w' moved rest ih =>
    have turned : s.advance globals id =
        some (t.globals, (s.deliverAll t.said).1, s.left id t.worker t.said) := by
      rw [← completeLeft]
      simp [advanceWhole, found, same, moved]
    rw [deliverAllAppend]
    refine .moves turned ?_
    cases finished : t.worker.isFinished with
    | true =>
      have idle : t.worker.step service t.globals = none := by
        rw [Worker.step, Worker.finishedIff.mp finished]
      cases rest with
      | moves again => rw [idle] at again; cases again
      | waits =>
        rw [List.append_nil]
        exact .waits (by simp [advanceWhole, leftGone finished])
    | false =>
      have later := ih (s := s.left id t.worker t.said) ((s.resumeKeeps id t.worker).2.1.trans same)
        (leftThere finished t.said) finished
      rw [leftDeliver, leftAgain finished] at later
      exact later

end Resuming

section Processing
variable {s : Session} {m : Message} {ref : WorkerRef} {id : WorkerId} {w w' : Worker}

theorem workerLive (live : s.worker? ref = some id) : s.registry.live.get? ref = some id ∧
    ∃ w, s.workers.get? id = some w ∧ w.attached = true := by
  unfold worker? at live
  split at live
  next known =>
    obtain ⟨attached, rfl⟩ := Option.ite_none_right_eq_some.mp live |>.imp_right Option.some.inj
    exact ⟨known, (Option.any_eq_true _ _).mp attached⟩
  · contradiction

theorem dispatchLive (addressed : m.addressee? = some ref) (live : s.worker? ref = some id)
    (found : s.workers.get? id = some w) : s.dispatch m = ([], { s with
      workers := s.workers.insert id (m.posted w)
      inFlight := m.requested?.elim s.inFlight (s.inFlight.insert · ref) }) := by
  cases m with
  | request form package target id =>
    cases target with
    | new => contradiction
    | worker own =>
      cases addressed
      simp only [dispatch, route, post, live, modifyWorker, found]
      rfl
  | interrupt own | readStringReply own tag text =>
    cases addressed
    simp only [dispatch, route, post, live, modifyWorker, found]
    rfl
  | _ => contradiction

theorem addressedOld (addressed : m.addressee? = some ref) : m.spawns = false := by
  cases m with
  | request form package target => cases target <;> first | contradiction | rfl
  | _ => rfl

inductive Reaches (s : Session) (m : Message) (id : WorkerId) : Option Worker → Prop where
  | made {own request} (spawns : m.spawns = true) (next : s.nextWorker = id) :
      Reaches s m id (some (.start own request))
  | posted {own v} (addressed : m.addressee? = some own) (live : s.worker? own = some id)
      (found : s.workers.get? id = some v) : Reaches s m id (some (m.posted v))
  | passes (old : ¬ (m.spawns = true ∧ s.nextWorker = id))
      (other : m.addressee?.bind s.worker? ≠ some id) : Reaches s m id (s.workers.get? id)

theorem dispatchWorkers (s : Session) (m : Message) :
    (s.dispatch m).2.workers = (s.route m).2.workers := by
  obtain ⟨inFlight, side, effect, -⟩ := (s.route m).2.deliverAllEq ((s.route m).1.map .message)
  rw [show (s.dispatch m).2 = _ from effect]

theorem dispatchReaches (s : Session) (m : Message) (id : WorkerId) :
    s.Reaches m id ((s.dispatch m).2.workers.get? id) := by
  cases addressed : m.addressee? with
  | some own =>
    have old : ¬ (m.spawns = true ∧ s.nextWorker = id) := by simp [addressedOld addressed]
    cases live : s.worker? own with
    | some holder =>
      obtain ⟨v, found, -⟩ := (workerLive live).2
      rw [dispatchLive addressed live found]
      by_cases this : holder = id
      · subst this
        simpa using Reaches.posted addressed live found
      · simpa [this] using Reaches.passes old (by simpa [addressed, live] using this)
    | none =>
      have kept : (s.dispatch m).2.workers = s.workers := by
        obtain ⟨f, ⟨u, posted, -⟩ | ⟨e, -, workers⟩⟩ := routePosts (s := s) addressed
        · simp [post, live] at posted
        · rw [dispatchWorkers, workers]
      rw [kept]
      exact .passes old (by simp [addressed, live])
  | none =>
    cases m with
    | request form package target request =>
      cases target with
      | worker own => contradiction
      | new =>
        rw [dispatchWorkers]
        by_cases this : s.nextWorker = id
        · simpa [route, spawn, this] using Reaches.made (by rfl) this
        · simpa [route, spawn, this] using Reaches.passes (by simp [this]) (by simp [addressed])
    | interrupt | readStringReply => contradiction
    | _ =>
      rw [dispatchWorkers]
      exact .passes (by simp [Message.spawns]) (by simp [addressed])

theorem deliverAllInFlight (s : Session) (said : List Utterance) : (s.deliverAll said).2.inFlight =
    (said.filterMap Utterance.answered?).foldl Table.erase s.inFlight := by
  induction said generalizing s with
  | nil => rfl
  | cons what rest ih =>
    have whole : (s.deliverAll (what :: rest)).2 = ((s.deliver what).2.deliverAll rest).2 := rfl
    rw [whole, ih]
    cases what with
    | message m => cases m <;> rfl
    | output text =>
      have kept : (s.deliver (.output text)).2.inFlight = s.inFlight := by
        unfold deliver
        dsimp only
        split
        · split <;> rfl
        · rfl
      rw [kept]
      rfl

def after (s : Session) (m : Message) (id : WorkerId) (w : Worker) (said : List Utterance) :
    Session :=
  { s with
    registry := if w.isFinished then (s.registry.release w.me).2 else s.registry
    workers := if w.isFinished then s.workers.erase id else s.workers.insert id w
    inFlight := (said.filterMap Utterance.answered?).foldl Table.erase
      (m.requested?.elim s.inFlight (s.inFlight.insert · w.me))
    side := s.side.map (· ++ printed s.writable said) }

theorem leftAfter (live : s.registry.live.get? w'.me = some id) (said : List Utterance) :
    { s with
      workers := s.workers.insert id w
      inFlight := m.requested?.elim s.inFlight (s.inFlight.insert · w'.me) }.left id w' said =
      s.after m id w' said := by
  have inFlight := deliverAllInFlight { s with
    workers := s.workers.insert id w
    inFlight := m.requested?.elim s.inFlight (s.inFlight.insert · w'.me) } said
  have side := deliverAllSide { s with
    workers := s.workers.insert id w
    inFlight := m.requested?.elim s.inFlight (s.inFlight.insert · w'.me) } said
  rw [left, inFlight, side]
  cases finished : w'.isFinished with
  | true =>
    simp [resume, after, release, Registry.release, modifyWorker, finished, live, Table.insertErase]
  | false => simp [resume, after, finished, Table.insertInsert]

theorem processesAfter {globals globals' : Globals} {said : List Utterance}
    (addressed : m.addressee? = some ref) (live : s.worker? ref = some id)
    (found : s.workers.get? id = some w) (me : w'.me = ref)
    (awake : (m.posted w).isFinished = false)
    (settles : Worker.Settles s.service globals (m.posted w) said globals' w') :
    s.Processes globals m (s.deliverAll said).1 globals' (s.after m id w' said) := by
  have dispatched := dispatchLive addressed live found
  subst me
  have posted : (s.dispatch m).2.workers.get? id = some (m.posted w) := by simp [dispatched]
  have turns := settlesLeft settles (by rw [dispatched]) posted awake
  have sent : ((s.dispatch m).2.deliverAll said).1 = (s.deliverAll said).1 :=
    deliverAllSent (by rw [dispatched]) (by rw [dispatched]) said
  have last : (s.dispatch m).2.left id w' said = s.after m id w' said := by
    rw [dispatched]
    exact leftAfter (workerLive live).1 said
  rw [sent, last] at turns
  have processes := Processes.live addressed live turns
  rw [dispatched] at processes
  exact processes

end Processing

def settle? (id : WorkerId) : Nat → Globals → Session → Option (List Message × Globals × Session)
  | 0, _, _ => none
  | n + 1, globals, s =>
    match s.advance globals id with
    | none => some ([], globals, s)
    | some (globals, sent, s) =>
      (settle? id n globals s).map fun (more, last) => (sent ++ more, last)

def process? (s : Session) (globals : Globals) (m : Message) :
    Option (List Message × Globals × Session) := do
  let ref ← m.addressee?
  let id ← s.worker? ref
  let (sent, s) := s.dispatch m
  let (more, last) ← settle? id 8 globals s
  some (sent ++ more, last)

theorem settled? {id : WorkerId} {n : Nat} {globals globals' : Globals} {s s' : Session}
    {sent : List Message} (found : settle? id n globals s = some (sent, globals', s')) :
    Settles id globals s sent globals' s' := by
  induction n generalizing globals s sent with
  | zero => contradiction
  | succ n ih =>
    rw [settle?] at found
    split at found
    next idle =>
      cases found
      exact .waits idle
    next moved =>
      obtain ⟨⟨more, last⟩, rest, same⟩ := Option.map_eq_some_iff.mp found
      cases same
      exact .moves moved (ih rest)

theorem processed? {s s' : Session} {globals globals' : Globals} {m : Message} {sent : List Message}
    (found : s.process? globals m = some (sent, globals', s')) :
    s.Processes globals m sent globals' s' := by
  simp only [process?, Option.bind_eq_bind, Option.bind_eq_some_iff] at found
  obtain ⟨ref, addressed, id, live, ⟨more, last⟩, turns, same⟩ := found
  cases same
  exact .live addressed live (settled? turns)

end Session
end RemoteEval
