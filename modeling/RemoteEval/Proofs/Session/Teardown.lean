import Mathlib.Data.Nat.Find
import RemoteEval.Calc.Builtin
import RemoteEval.Proofs.Session.Sendable
import RemoteEval.Proofs.Worker.Closing

/-! The end of a session. A teardown has three parts, and between them messages of the client are
still routed, workers still take turns, and what was said before is handed over late. A turn that
was under way when the closing began may have missed it, and may leave its worker anywhere. What
carries the result is that such a worker has lost its mailbox, while one that got a mailbox after
that has been closing from its start. -/
namespace RemoteEval

/- What can happen between the parts of a teardown. -/
inductive Occurrence where
  | route (message : Message)
  | deliver (said : List Utterance)
  | loseSide
  | turn (worker : WorkerId)
  | overhang (worker : WorkerId)

namespace Session

/- A step of a session that is closing. Once the mailboxes are cut off, a turn that began before the
closing can only be one of a worker that was cut off. -/
inductive Goes (cut : Bool) (s : Session) : Occurrence → Session → Prop where
  | routed (m : Message) : Goes cut s (.route m) (s.route m).2
  | delivered (said : List Utterance) : Goes cut s (.deliver said) (s.deliverAll said).2
  | sideLost : Goes cut s .loseSide s.loseSide
  | turned {id pace globals t} (moved : s.turn? id pace globals = some t) :
      Goes cut s (.turn id) ((s.paced pace).resume id t.worker)
  | overhung {id w globals t} (found : s.workers.get? id = some w)
      (known : cut = true → w.attached = false)
      (acts : Acts s.service (w.begin globals) ⟨.waiting, t⟩) :
      Goes cut s (.overhang id) (s.resume id t.worker)

abbrev Runs (cut : Bool) : Session → Session → Prop :=
  Relation.ReflTransGen fun s s' => ∃ occurrence, s.Goes cut occurrence s'

inductive Fate (cut : Bool) (s : Session) (id : WorkerId) :
    Occurrence → Option Worker → Option Worker → Prop where
  | left {h old new} (others : Option.Rel Worker.Disturbed old new) (idle : h ≠ .turn id) :
      Fate cut s id h old new
  | spawned {m old ref request} (next : id = s.nextWorker) :
      Fate cut s id (.route m) old (some (.start ref request))
  | turned {w pace globals t after} (moved : w.step (s.paced pace).service globals = some t)
      (outcome : after = if t.worker.isFinished then none else some t.worker) :
      Fate cut s id (.turn id) (some w) after
  | overhung {w globals t after} (known : cut = true → w.attached = false)
      (acts : Acts s.service (w.begin globals) ⟨.waiting, t⟩)
      (outcome : after = if t.worker.isFinished then none else some t.worker) :
      Fate cut s id (.overhang id) (some w) after

section
variable {cut : Bool} {s s' : Session} {occurrence : Occurrence}

theorem sameRel (old : Option Worker) : Option.Rel Worker.Disturbed old old := by
  cases old with
  | none => exact .none
  | some w => exact .some (.refl w)

theorem mailDisturbed (event : Event) (interrupted : Bool) {w : Worker}
    (attached : w.attached = true) : w.Disturbed (mail event { w with interrupted }) :=
  ⟨rfl, rfl, rfl, fun alone => by rw [attached] at alone; contradiction⟩

theorem resumeRel (s : Session) {worker other : WorkerId} (w : Worker)
    (different : other ≠ worker) : Option.Rel Worker.Disturbed (s.workers.get? other)
      ((s.resume worker w).workers.get? other) := by
  rw [resumeGet, if_neg different]
  cases s.workers.get? other with
  | none => exact .none
  | some v =>
    refine .some ?_
    split
    · exact ⟨rfl, rfl, rfl, fun alone => alone ▸ rfl⟩
    · exact .refl v

theorem Goes.missed (closing : s.service.cancelled = true) {id : WorkerId} {w : Worker}
    (found : s.workers.get? id = some w) (sound : w.Sound)
    (known : cut = true → w.attached = false) {globals : Globals} {t : Turn}
    (moved : w.step { s.service with cancelled := false } globals = some t) :
    s.Goes cut (.overhang id) (s.resume id t.worker) := by
  have acts : Acts { s.service with cancelled := true } (w.begin globals) ⟨.waiting, t⟩ :=
    Relation.ReflTransGen.mono (fun _ _ => Act.aware (s := { s.service with cancelled := false }))
      _ _ (Worker.stepActs sound moved)
  have same : { s.service with cancelled := true } = s.service := by rw [← closing]
  rw [same] at acts
  exact .overhung found known acts

theorem Goes.fate (goes : s.Goes cut occurrence s') (id : WorkerId) :
    Fate cut s id occurrence (s.workers.get? id) (s'.workers.get? id) := by
  cases goes with
  | routed m =>
    have posted {worker : WorkerId} {w : Worker} {event : Event} (interrupted : Bool)
        (found : s.workers.get? worker = some w) (attached : w.attached = true) :
        Fate cut s id (.route m) (s.workers.get? id)
          ((s.workers.insert worker (mail event { w with interrupted })).get? id) := by
      refine .left ?_ nofun
      by_cases same : worker = id
      · rw [← same, found]
        simpa using Option.Rel.some (mailDisturbed event interrupted attached)
      · simpa [same] using sameRel (s.workers.get? id)
    have routed := s.routeRouted m
    generalize s.route m = result at routed
    obtain ⟨said, after⟩ := result
    cases routed with
    | spawned allocated =>
      by_cases same : s.nextWorker = id
      · simpa [same] using Fate.spawned same.symm
      · exact .left (by simpa [same] using sameRel (s.workers.get? id)) nofun
    | @queued form package ref request worker w live found attached =>
      exact posted w.interrupted found attached
    | posted interrupted found other news attached => exact posted interrupted found attached
    | unknown | noted => exact .left (sameRel _) nofun
  | delivered said =>
    obtain ⟨inFlight, side, effect, -⟩ := s.deliverAllEq said
    rw [effect]
    exact .left (sameRel _) nofun
  | sideLost => exact .left (sameRel _) nofun
  | @turned worker pace globals t moved =>
    obtain ⟨w, found, stepped⟩ := Option.bind_eq_some_iff.mp moved
    by_cases same : id = worker
    · subst same
      rw [found]
      exact .turned stepped (by rw [resumeGet, if_pos rfl])
    · exact .left ((s.paced pace).resumeRel t.worker same) (by simpa using Ne.symm same)
  | @overhung worker w globals t found known acts =>
    by_cases same : id = worker
    · subst same
      rw [found]
      exact .overhung known acts (by rw [resumeGet, if_pos rfl])
    · exact .left (s.resumeRel t.worker same) nofun

theorem Goes.keeps (goes : s.Goes cut occurrence s') : s'.writable = s.writable ∧
    s'.service.cancelled = s.service.cancelled ∧ s'.state = s.state := by
  cases goes with
  | routed m =>
    obtain ⟨writable, service, -, state⟩ := s.routeKeeps m
    exact ⟨writable, by rw [service], state⟩
  | delivered said =>
    obtain ⟨inFlight, side, effect, -⟩ := s.deliverAllEq said
    rw [effect]
    exact ⟨rfl, rfl, rfl⟩
  | sideLost => exact ⟨rfl, rfl, rfl⟩
  | @turned id pace globals t moved =>
    obtain ⟨writable, service, -, state⟩ := (s.paced pace).resumeKeeps id t.worker
    exact ⟨writable, by rw [service]; rfl, state⟩
  | @overhung id w globals t found known acts =>
    obtain ⟨writable, service, -, state⟩ := s.resumeKeeps id t.worker
    exact ⟨writable, by rw [service], state⟩

structure Closes (cut : Bool) (s : Session) : Prop where
  cancelled : s.service.cancelled = true
  state : s.state ≠ .open
  workers : ∀ {id w}, s.workers.get? id = some w → w.Closes cut

theorem Goes.closes (goes : s.Goes cut occurrence s') (closes : s.Closes cut) : s'.Closes cut := by
  obtain ⟨-, cancelled, state⟩ := goes.keeps
  refine ⟨cancelled.trans closes.cancelled, state.symm ▸ closes.state, fun {id v} found => ?_⟩
  have fate := goes.fate id
  rw [found] at fate
  generalize before : s.workers.get? id = old at fate
  cases fate with
  | left others =>
    cases others with
    | some disturbed => exact (closes.workers before).disturbed disturbed
  | @spawned m _ ref request =>
    exact ⟨startSound ref request, rfl, fun _ _ => ⟨rfl, .inl ⟨request, rfl⟩⟩⟩
  | @turned w pace globals t _ moved outcome =>
    obtain ⟨awake, same⟩ := Option.ite_none_left_eq_some.mp outcome.symm
    cases same
    have cancelled : (s.paced pace).service.cancelled = true := closes.cancelled
    exact (closes.workers before).step cancelled moved (by simpa using awake)
  | overhung known acts outcome =>
    obtain ⟨awake, same⟩ := Option.ite_none_left_eq_some.mp outcome.symm
    cases same
    obtain ⟨sound, -, still⟩ := Worker.actsKeep (closes.workers before).sound acts
    refine ⟨sound, by simpa using awake, fun cut attached => ?_⟩
    rw [still, known cut] at attached
    contradiction

theorem Runs.closes (runs : s.Runs cut s') (closes : s.Closes cut) : s'.Closes cut := by
  induction runs with
  | refl => exact closes
  | tail _ goes ih =>
    obtain ⟨_, goes⟩ := goes
    exact goes.closes ih

theorem Runs.writable (runs : s.Runs cut s') : s'.writable = s.writable := by
  induction runs with
  | refl => rfl
  | tail _ goes ih =>
    obtain ⟨_, goes⟩ := goes
    exact goes.keeps.1.trans ih

def Silent (s : Session) : Prop :=
  ∀ said, (s.deliverAll said).1 = [] ∧ (s.deliverAll said).2.side = s.side

theorem unwritableSilent (closed : s.writable = false) : s.Silent := by
  have sent (u : Session) (closed : u.writable = false) (m : Message) :
      (u.send m).1 = [] ∧ (u.send m).2.side = u.side := by
    refine ⟨by simp [send, transmits, closed], ?_⟩
    cases m <;> rfl
  have delivered (u : Session) (closed : u.writable = false) (utterance : Utterance) :
      (u.deliver utterance).1 = [] ∧ (u.deliver utterance).2.side = u.side := by
    cases utterance with
    | message m => exact sent u closed m
    | output text =>
      unfold deliver
      cases side : u.side with
      | some before => simp [closed, side]
      | none => simpa [side] using sent u closed (.output text)
  intro said
  induction said generalizing s with
  | nil => exact ⟨rfl, rfl⟩
  | cons u rest ih =>
    obtain ⟨none, side⟩ := delivered s closed u
    obtain ⟨inFlight, side', effect, -⟩ := s.deliverEq u
    have still : (s.deliver u).2.writable = false := by rw [effect]; exact closed
    obtain ⟨others, same⟩ := ih still
    exact ⟨by simp [deliverAll, none, others], by simp [deliverAll, same, side]⟩

def Unblocked (s : Session) : Prop := ∀ id w, s.workers.get? id = some w →
  (w.attached = true → ¬ w.listens) ∧ ∀ pace globals, (s.turn? id pace globals).isSome = true

theorem Closes.unblocked (closes : s.Closes true) : s.Unblocked := by
  intro id w found
  have worker := closes.workers found
  refine ⟨fun attached => (worker.top rfl attached).busy, fun pace globals => ?_⟩
  have cancelled : (s.paced pace).service.cancelled = true := closes.cancelled
  simpa [turn?, found] using Worker.stepReady cancelled worker.awake (worker.top rfl) globals

def Drains (s : Session) : Prop := ∀ id w, s.workers.get? id = some w → w.activity = .prompt →
  ∀ pace globals t, s.turn? id pace globals = some t →
    t.worker.isFinished = true ∨ t.worker.load < w.load

theorem Closes.drains (closes : s.Closes cut) : s.Drains := by
  intro id w found prompt pace globals t turn
  have moved : w.step (s.paced pace).service globals = some t := by
    simpa [turn?, found] using turn
  exact Worker.stepPrompt (closes.workers found).sound prompt moved

theorem shutdownAgain (begun : s.state ≠ .open) : s.shutdown = s := by
  unfold shutdown
  split
  · contradiction
  · rfl

end

/- A session that goes on for ever after its mailboxes were cut off, in which a worker that is not
finished gets a turn again and again. The worker is not in a turn that began before the closing,
and its number is not given to another one. -/
structure Onward (σ : Nat → Session) (occurrence : Nat → Occurrence) (id : WorkerId) : Prop where
  goes : ∀ n, (σ n).Goes true (occurrence n) (σ (n + 1))
  whole : ∀ n, occurrence n ≠ .overhang id
  unique : ∀ n, (σ n).nextWorker ≠ id
  fair : ∀ n, (σ n).workers.get? id ≠ none → ∃ m, n ≤ m ∧ occurrence m = .turn id

def Ends (s after : Session) (id : WorkerId) : Prop :=
  ∃ pace globals t, s.turn? id pace globals = some t ∧ t.worker.isFinished = true ∧
    t.worker.levels = [] ∧ t.worker.mailbox = [] ∧ t.worker.backlog = [] ∧
    after.workers.get? id = none

namespace Onward
variable {σ : Nat → Session} {occurrence : Nat → Occurrence} {id : WorkerId}

theorem closing (onward : Onward σ occurrence id) (closes : (σ 0).Closes true) (n : Nat) :
    (σ n).Closes true := by
  induction n with
  | zero => exact closes
  | succ n ih => exact (onward.goes n).closes ih

theorem waits (onward : Onward σ occurrence id) {n m : Nat} (later : n ≤ m)
    (idle : ∀ k, n ≤ k → k < m → occurrence k ≠ .turn id) {w : Worker}
    (found : (σ n).workers.get? id = some w) :
    ∃ v, (σ m).workers.get? id = some v ∧ w.Disturbed v := by
  induction m, later using Nat.le_induction with
  | base => exact ⟨w, found, .refl w⟩
  | succ m later ih =>
    obtain ⟨v, here, disturbed⟩ := ih fun k after before => idle k after (Nat.lt_succ_of_lt before)
    have own := idle m later (Nat.lt_succ_self m)
    have whole := onward.whole m
    have fate := (onward.goes m).fate id
    rw [here] at fate
    generalize occurrence m = h at fate own whole
    generalize (σ (m + 1)).workers.get? id = after at fate
    cases fate with
    | left others =>
      cases others with
      | some more => exact ⟨_, rfl, disturbed.trans more⟩
    | spawned next => exact absurd next.symm (onward.unique m)
    | turned => exact absurd rfl own
    | overhung => exact absurd rfl whole

theorem nextTurn (onward : Onward σ occurrence id) {n : Nat}
    (present : (σ n).workers.get? id ≠ none) : ∃ m, n ≤ m ∧ occurrence m = .turn id ∧
      ∀ k, n ≤ k → k < m → occurrence k ≠ .turn id := by
  classical
  have some' := onward.fair n present
  obtain ⟨later, own⟩ := Nat.find_spec some'
  exact ⟨Nat.find some', later, own, fun k after before own =>
    Nat.find_min some' before ⟨after, own⟩⟩

/- By induction on the turns that the worker can still take. -/
theorem ends (onward : Onward σ occurrence id) (closes : (σ 0).Closes true) {w : Worker}
    (turns : Acc Worker.Succeeds w) {n : Nat} (found : (σ n).workers.get? id = some w) :
    ∃ m, n ≤ m ∧ (σ m).Ends (σ (m + 1)) id := by
  induction turns generalizing n with
  | intro w _ ih =>
    obtain ⟨m, later, own, first⟩ := onward.nextTurn (n := n) (by simp [found])
    obtain ⟨v, here, disturbed⟩ := onward.waits later first found
    have closing := onward.closing closes m
    have fate := (onward.goes m).fate id
    rw [here, own] at fate
    generalize next : (σ (m + 1)).workers.get? id = after at fate
    cases fate with
    | left _ idle => exact absurd rfl idle
    | @turned _ pace globals t _ moved outcome =>
      have cancelled : ((σ m).paced pace).service.cancelled = true := closing.cancelled
      cases finished : t.worker.isFinished with
      | true =>
        have turn : (σ m).turn? id pace globals = some t := by simp [turn?, here, moved]
        obtain ⟨sound, -⟩ := Worker.stepKeeps (closing.workers here).sound moved
        obtain ⟨levels, mailbox, backlog⟩ := sound.finished (Worker.finishedIff.mp finished)
        refine ⟨m, later, pace, globals, t, turn, finished, levels, mailbox, backlog, ?_⟩
        rw [next, outcome, finished, if_pos rfl]
      | false =>
        rw [finished, if_neg Bool.false_ne_true] at outcome
        obtain ⟨k, last, ended⟩ := ih t.worker ⟨v, _, globals, t, disturbed, cancelled, moved, rfl⟩
          (next.trans outcome)
        exact ⟨k, by omega, ended⟩

end Onward

end Session

namespace Log

theorem stepRuns (cut : Bool) (l : Log) {move : Move} (ordinary : move.isTeardown = false) :
    l.session.Runs cut (l.step move).session := by
  cases move with
  | receive m =>
    exact .tail (.single ⟨_, .routed m⟩) ⟨_, .delivered _⟩
  | work id pace globals =>
    simp only [step]
    split
    · exact .refl
    next w found =>
      split
      · exact .refl
      next t moved =>
        have turn : l.session.turn? id pace globals = some t := by
          simp [Session.turn?, show l.session.workers.get? id = some w from found, moved]
        exact .tail (.single ⟨_, .turned turn⟩) ⟨_, .delivered _⟩
  | loseSide => exact .single ⟨_, .sideLost⟩
  | cancel | cutOff | closeWriter => contradiction

end Log

namespace Session

theorem cancelCloses {l : Log} (orderly : l.Orderly) : l.session.cancel.Closes false := by
  refine ⟨rfl, nofun, fun {id w} found => ?_⟩
  have follows := orderly id
  rw [show l.session.workers.get? id = some w from found] at follows
  exact ⟨follows.1, follows.2.1, nofun⟩

theorem cutOffAlone {s : Session} {id : WorkerId} {w : Worker}
    (found : s.cutOff.workers.get? id = some w) : w.attached = false := by
  rw [cutOffGet] at found
  obtain ⟨v, -, rfl⟩ := Option.map_eq_some_iff.mp found
  exact v.partedAlone

theorem cutOffRest (s : Session) :
    ∃ workers, s.cutOff = { s with registry := {}, inFlight := {}, workers } := by
  have each (ids : List WorkerId) (u : Session) : ∃ workers,
      ids.foldl (fun s id => s.modifyWorker id Worker.parted) u = { u with workers } := by
    induction ids generalizing u with
    | nil => exact ⟨u.workers, rfl⟩
    | cons id rest ih =>
      obtain ⟨between, first⟩ : ∃ between,
          u.modifyWorker id Worker.parted = { u with workers := between } := by
        unfold modifyWorker
        split
        · exact ⟨_, rfl⟩
        · exact ⟨u.workers, rfl⟩
      obtain ⟨workers, others⟩ := ih { u with workers := between }
      exact ⟨workers, by rw [List.foldl_cons, first, others]⟩
  exact each s.workers.keys { s with registry := {}, inFlight := {} }

theorem Closes.cutOff {s : Session} (closes : s.Closes false) : s.cutOff.Closes true := by
  obtain ⟨workers, effect⟩ := s.cutOffRest
  refine ⟨by rw [effect]; exact closes.cancelled, by rw [effect]; exact closes.state,
    fun {id w} found => ?_⟩
  have alone := cutOffAlone found
  rw [cutOffGet] at found
  obtain ⟨v, before, rfl⟩ := Option.map_eq_some_iff.mp found
  obtain ⟨sound, awake, -⟩ := closes.workers before
  refine ⟨Worker.inwardSound v.partedInward sound, ?_, fun _ attached => ?_⟩
  · exact (Worker.inwardFinished v.partedInward).trans awake
  · rw [alone] at attached
    contradiction

/- What the parts of a teardown bring about, whatever happens between them: `s₁` is the session when
the mailboxes are about to be cut off, `s₂` when sending is about to end, and `s₃` at any time after
that. -/
theorem teardownEnds (service : Service) (port : UInt16) (moves : List Move) {s₁ s₂ s₃ : Session}
    (opened : ((Log.opening service port).run moves).session.state = .open)
    (calling : ((Log.opening service port).run moves).session.cancel.Runs false s₁)
    (parting : s₁.cutOff.Runs true s₂) (closed : s₂.closeWriter.Runs true s₃) :
    let s₀ := ((Log.opening service port).run moves).session
    s₀.shutdown = s₀.cancel.cutOff.closeWriter ∧
    (∀ s ∈ [s₁, s₂, s₃], s.shutdown = s) ∧
    s₁.cutOff.registry = {} ∧ s₁.cutOff.inFlight = {} ∧
    (∀ id w, s₁.cutOff.workers.get? id = some w → w.attached = false) ∧
    s₃.Silent ∧
    (∀ s ∈ [s₂, s₃], s.Unblocked ∧ s.Drains) ∧
    ∀ σ occurrence id w, σ 0 = s₃ → s₃.workers.get? id = some w → Onward σ occurrence id →
      ∃ n, (σ n).Ends (σ (n + 1)) id := by
  intro s₀
  have orderly := Log.runOrderly (Log.openingOrderly service port) moves
  have first := calling.closes (cancelCloses orderly)
  have second := parting.closes first.cutOff
  have quiet : s₂.closeWriter.Closes true := ⟨second.cancelled, nofun, second.workers⟩
  have third := closed.closes quiet
  obtain ⟨workers, effect⟩ := s₁.cutOffRest
  refine ⟨?_, ?_, by rw [effect], by rw [effect], fun _ _ => cutOffAlone,
    unwritableSilent closed.writable, ?_, ?_⟩
  · rw [shutdown, opened]
  · simp [shutdownAgain first.state, shutdownAgain second.state, shutdownAgain third.state]
  · simp [second.unblocked, second.drains, third.unblocked, third.drains]
  · rintro σ occurrence id w start found onward
    subst start
    obtain ⟨n, -, ended⟩ := onward.ends third (third.workers found).ends found
    exact ⟨n, ended⟩

end Session

def Worker.isIdle (w : Worker) : Bool :=
  match w.activity with
  | .prompt => w.load == 0
  | _ => false

theorem Worker.idlePrompt {w : Worker} (idle : w.isIdle = true) :
    w.activity = .prompt ∧ w.load = 0 := by
  unfold isIdle at idle
  split at idle
  next prompt => exact ⟨prompt, by simpa using idle⟩
  · contradiction

namespace Session

def promptOpen : List Move :=
  [.receive (.request "x" "U" .new 1), .work 0 .throughRests []]

def spawnedLate : Session :=
  (((Log.opening { language := Calc.language } 0).run promptOpen).session.cancel.cutOff.route
    (.request "y" "U" .new 2)).2

theorem lateSpawnNotStranded :
    (∃ w, spawnedLate.workers.get? 1 = some w ∧ w.attached = true ∧ ¬ w.listens) ∧
    ∃ w after, spawnedLate.workers.get? 0 = some w ∧ w.activity = .prompt ∧
      spawnedLate.closeWriter.Ends after 0 := by
  obtain ⟨-, -, -, -, -, -, free, ends⟩ := teardownEnds { language := Calc.language } 0 promptOpen
    rfl .refl (.single ⟨_, .routed (.request "y" "U" .new 2)⟩) .refl
  rw [← spawnedLate] at free ends
  obtain ⟨unblocked, -⟩ := free spawnedLate (by simp)
  obtain ⟨ready, drains⟩ := free spawnedLate.closeWriter (by simp)
  obtain ⟨late, spawned, attached⟩ : ∃ w, spawnedLate.workers.get? 1 = some w ∧ w.attached = true :=
    (Option.any_eq_true _ _).mp (by decide +kernel)
  refine ⟨⟨late, spawned, attached, (unblocked 1 late spawned).1 attached⟩, ?_⟩
  obtain ⟨w, found, idle⟩ : ∃ w, spawnedLate.workers.get? 0 = some w ∧ w.isIdle = true :=
    (Option.any_eq_true _ _).mp (by decide +kernel)
  obtain ⟨prompt, empty⟩ := Worker.idlePrompt idle
  obtain ⟨t, turn⟩ := Option.isSome_iff_exists.mp ((ready 0 w found).2 .throughRests [])
  have finished : t.worker.isFinished = true := by
    rcases drains 0 w found prompt _ _ t turn with finished | less
    · exact finished
    · omega
  let after := (spawnedLate.closeWriter.paced .throughRests).resume 0 t.worker
  have gone : after.workers.get? 0 = none := by simp [after, resumeGet, finished]
  have numbers : spawnedLate.nextWorker = 2 := by decide +kernel
  have later : after.nextWorker = 2 := (resumeRest ..).1.trans numbers
  -- the worker takes its turn, and nothing happens any more
  have onward : Onward (fun n => if n = 0 then spawnedLate.closeWriter else after)
      (fun n => if n = 0 then .turn 0 else .deliver []) 0 := by
    refine ⟨fun n => ?_, fun n => ?_, fun n => ?_, fun n present => ?_⟩
    · cases n with
      | zero => exact .turned turn
      | succ n => exact .delivered []
    · cases n <;> simp
    · cases n with
      | zero => simp [closeWriter, numbers]
      | succ n => simp [later]
    · cases n with
      | zero => exact ⟨0, Nat.le_refl 0, rfl⟩
      | succ n => simp [gone] at present
  obtain ⟨n, ended⟩ := ends _ _ 0 w rfl found onward
  refine ⟨w, after, found, prompt, ?_⟩
  cases n with
  | zero => exact ended
  | succ n =>
    obtain ⟨_, _, u, other, -⟩ := ended
    simp [turn?, gone] at other

end Session
end RemoteEval
