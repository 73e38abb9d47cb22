import RemoteEval.Proofs.Session.Run

/-! The order in which a worker says things, from its assignment to its release. The
protocol is a small automaton that reads what the worker says and when it takes up a
request, and knows nothing else about the worker. Every life of a worker, in every run of
a session, is a word that the automaton accepts, and the place that it has reached is the
one where the worker stands. What was lost on the way to the client is not considered. -/
namespace RemoteEval

/- The openers of the open levels, innermost first, are the requests whose evaluation
opened them; none stands for an interrupt at the prompt below. So their number is the
depth. A request at a prompt remembers whether a level above that prompt has closed since
it was taken up, and a prompt whether its activation is due. -/
inductive Stage where
  | unassigned
  | assigned (id : RequestId)
  | performing (id : RequestId) (closed : Bool) (openers : List (Option RequestId))
  | prompting (due : Bool) (openers : List (Option RequestId))
  | released
  deriving DecidableEq, Repr

namespace Stage

def depth : Stage → Nat
  | .performing _ _ openers | .prompting _ openers => openers.length
  | _ => 0

/- The answers to requests that came too late to be taken up are the only messages after
the release; all others need a worker that is at work and owes no activation. -/
def hear (me : WorkerRef) : Stage → Message → Option Stage
  | .unassigned, .workerAssigned id ref => if ref = me then some (.assigned id) else none
  | .performing id _ openers, .debugEnter ref level _ _ _ =>
    if ref = me ∧ level = (openers.length + 1).toUInt64 then
      some (.prompting false (some id :: openers))
    else none
  | .prompting false openers, .debugEnter ref level _ _ _ =>
    if ref = me ∧ level = (openers.length + 1).toUInt64 ∧ openers ≠ [] then
      some (.prompting false (none :: openers))
    else none
  | .performing id closed openers, .returned ref _ answered =>
    if ref = me ∧ answered = id then
      some (if openers = [] then .released else .prompting closed openers)
    else none
  | .prompting _ (some id :: below), .debugReturn ref level =>
    if ref = me ∧ level = (below.length + 1).toUInt64 then some (.performing id true below)
    else none
  | .prompting _ (none :: below), .debugReturn ref level =>
    if ref = me ∧ level = (below.length + 1).toUInt64 ∧ below ≠ [] then
      some (.prompting true below)
    else none
  | .prompting true openers, .debugActivate ref level =>
    if ref = me ∧ level = openers.length.toUInt64 then some (.prompting false openers) else none
  | .performing id closed openers, .readStringRequest ref _
  | .performing id closed openers, .readAborted ref _
  | .performing id closed openers, .debugConditionText ref _ =>
    if ref = me then some (.performing id closed openers) else none
  | .prompting false openers, .debugConditionText ref _ =>
    if ref = me then some (.prompting false openers) else none
  | .performing id closed openers, .backgroundMessage _ => some (.performing id closed openers)
  | .prompting false openers, .backgroundMessage _ => some (.prompting false openers)
  | .released, .backgroundMessage _ => some .released
  | .released, .returned ref value _ =>
    if ref = me ∧ value = .abort (some s!"worker {me} finished") then some .released else none
  | _, _ => none

def next (me : WorkerRef) : Stage → Deed → Option Stage
  | .assigned id, .started request =>
    if request.id = id then some (.performing id false []) else none
  | .prompting false (opener :: below), .started request =>
    some (.performing request.id false (opener :: below))
  | stage, .said ⟨.message m, _⟩ => stage.hear me m
  | .performing id closed openers, .said ⟨.output _, _⟩ => some (.performing id closed openers)
  | .prompting false openers, .said ⟨.output _, _⟩ => some (.prompting false openers)
  | _, _ => none

def run (me : WorkerRef) (stage : Stage) (deeds : List Deed) : Option Stage :=
  deeds.foldlM (next me) stage

end Stage

def Stance.stage (a : Stance) : Stage :=
  match a.task with
  | .assigned request => .assigned request.id
  | .performing request closed =>
    .performing request.id closed (a.levels.map fun level => level.origin.opener?)
  | .prompting due => .prompting due (a.levels.map fun level => level.origin.opener?)
  | .gone => .released

theorem Conduct.next {me a deed b} (conduct : Conduct me a deed b) :
    a.stage.next me deed = some b.stage := by
  cases conduct with
  | start => simp [Stance.stage, Stage.next]
  | @serve request levels queue asked nested =>
    cases levels with
    | nil => contradiction
    | cons level below => simp [Stance.stage, Stage.next]
  | @aside task levels queue asked utterance engaged aside =>
    cases task with
    | performing request closed => cases aside <;> simp [Stance.stage, Stage.next, Stage.hear]
    | prompting due =>
      cases due with
      | false => cases aside <;> simp [Stance.stage, Stage.next, Stage.hear]
      | true => contradiction
    | assigned | gone => contradiction
  | ask | abortRead | report | refuse => simp [Stance.stage, Stage.next, Stage.hear]
  | trap opened frames origin | interrupt opened frames origin nested =>
    simp_all [Stance.stage, Stage.next, Stage.hear, Origin.opener?]
  | answer value nested => simp [Stance.stage, Stage.next, Stage.hear, nested]
  | finish value => simp [Stance.stage, Stage.next, Stage.hear]
  | close origin => simp [Stance.stage, Stage.next, Stage.hear, origin, Origin.opener?]
  | resume origin nested =>
    simp [Stance.stage, Stage.next, Stage.hear, origin, Origin.opener?, nested]
  | activate nested => simp [Stance.stage, Stage.next, Stage.hear]

theorem Conducts.run {me a deeds b} (conducts : Conducts me a deeds b) :
    a.stage.run me deeds = some b.stage := by
  induction conducts with
  | nil => rfl
  | cons conduct _ ih =>
    rw [Stage.run, List.foldlM_cons, conduct.next]
    exact ih

def Deed.assigns : Deed → Bool
  | .said ⟨.message (.workerAssigned _ _), _⟩ => true
  | _ => false

theorem Conducts.noAssignment {me a deeds b} (conducts : Conducts me a deeds b) :
    ∀ deed ∈ deeds, deed.assigns = false := by
  induction conducts with
  | nil => simp
  | cons conduct _ ih =>
    refine List.forall_mem_cons.mpr ⟨?_, ih⟩
    cases conduct with
    | aside _ aside => cases aside <;> rfl
    | _ => rfl

namespace Worker

def stage (w : Worker) : Stage := (w.stance none).stage

theorem inwardStage {v w : Worker} (alike : v.inward = w.inward) : v.stage = w.stage :=
  show v.inward.stage = w.inward.stage from congrArg Worker.stage alike

theorem stageDepth {w : Worker} (sound : w.Sound) (awake : w.isFinished = false) :
    w.stage.depth = DebugStack.level w.levels := by
  unfold stage stance task Stance.stage
  cases activity : w.activity with
  | starting request => simp [Stage.depth, (sound.starting request activity).1, DebugStack.level]
  | running | reading | prompt => simp [Stage.depth, DebugStack.level]
  | finished => simp [isFinished, activity] at awake

theorem finishedStage {w : Worker} (finished : w.isFinished = true) : w.stage = .released := by
  unfold isFinished at finished
  split at finished
  next done => simp [stage, stance, task, done, Stance.stage]
  · contradiction

end Worker

def Entry.extend (worker : WorkerId) (life : List Deed) (e : Entry) : List Deed :=
  if e.author.any (·.id = worker) then
    (if e.deed.assigns then [e.deed] else life ++ [e.deed])
  else life

namespace Log

def life (l : Log) (worker : WorkerId) : List Deed := l.entries.foldl (Entry.extend worker) []

end Log

theorem extendOthers {worker : WorkerId} {life : List Deed} {entries : List Entry}
    (others : ∀ e ∈ entries, ∀ author, e.author = some author → author.id ≠ worker) :
    entries.foldl (Entry.extend worker) life = life := by
  induction entries with
  | nil => rfl
  | cons e rest ih =>
    obtain ⟨first, later⟩ := List.forall_mem_cons.mp others
    have same : Entry.extend worker life e = life := by
      unfold Entry.extend
      cases author : e.author with
      | none => simp
      | some a => simp [first a author]
    rw [List.foldl_cons, same]
    exact ih later

theorem extendOwn {worker : WorkerId} {ref : WorkerRef} {life deeds : List Deed}
    (plain : ∀ deed ∈ deeds, deed.assigns = false) :
    (deeds.map fun deed => (⟨some ⟨worker, ref⟩, deed⟩ : Entry)).foldl (Entry.extend worker) life =
      life ++ deeds := by
  induction deeds generalizing life with
  | nil => simp
  | cons deed rest ih =>
    obtain ⟨first, later⟩ := List.forall_mem_cons.mp plain
    rw [List.map_cons, List.foldl_cons, ih later]
    simp [Entry.extend, first]

theorem extendDeeds (worker id : WorkerId) (ref : WorkerRef) {life deeds : List Deed}
    (plain : ∀ deed ∈ deeds, deed.assigns = false) :
    (deeds.map fun deed => (⟨some ⟨id, ref⟩, deed⟩ : Entry)).foldl (Entry.extend worker) life =
      if worker = id then life ++ deeds else life := by
  by_cases this : worker = id
  · rw [if_pos this, this]
    exact extendOwn plain
  · rw [if_neg this]
    refine extendOthers fun e member author named => ?_
    obtain ⟨deed, _, rfl⟩ := List.mem_map.mp member
    cases named
    exact Ne.symm this

def Follows (life : List Deed) : Option Worker → Prop
  | some w => w.Sound ∧ w.isFinished = false ∧ Stage.run w.me .unassigned life = some w.stage
  | none => life = [] ∨ ∃ me, Stage.run me .unassigned life = some .released

theorem followsAlike {life : List Deed} {old new : Option Worker} (follows : Follows life old)
    (alike : new.map Worker.inward = old.map Worker.inward) : Follows life new := by
  cases old with
  | none =>
    rw [Option.map_none, Option.map_eq_none_iff] at alike
    rw [alike]
    exact follows
  | some w =>
    obtain ⟨v, rfl, same⟩ := Option.map_eq_some_iff.mp alike
    obtain ⟨sound, awake, run⟩ := follows
    refine ⟨Worker.inwardSound same sound, (Worker.inwardFinished same).trans awake, ?_⟩
    rw [Worker.inwardMe same, Worker.inwardStage same]
    exact run

theorem mailFollows {life : List Deed} {w : Worker} {event : Event} {interrupted : Bool}
    (follows : Follows life (some w)) :
    Follows life (some (Session.mail event { w with interrupted })) := by
  obtain ⟨sound, awake, run⟩ := follows
  have still : Worker.Sound { w with interrupted } :=
    ⟨sound.grounded, sound.prompt, sound.starting, sound.finished⟩
  exact ⟨Session.mailSound still awake, awake, run⟩

namespace Log

def Orderly (l : Log) : Prop :=
  ∀ worker, Follows (l.life worker) (l.session.workers.get? worker)

theorem receiveOrderly {l : Log} (orderly : l.Orderly) (m : Message) :
    (l.step (.receive m)).Orderly := by
  intro worker
  obtain ⟨inFlight, side, effect, _⟩ := l.stepReceive m
  rw [effect, life, List.foldl_append, ← life]
  have routed := l.session.routeRouted m
  unfold Session.remarks
  generalize l.session.route m = result at routed
  obtain ⟨said, s⟩ := result
  -- what the dispatcher says in its own name is part of nobody's life
  have unnamed : ∀ entries : List Entry, (∀ e ∈ entries, e.author = none) →
      entries.foldl (Entry.extend worker) (l.life worker) = l.life worker := by
    intro entries anonymous
    refine extendOthers fun e member author named => ?_
    rw [anonymous e member] at named
    contradiction
  have posted : ∀ {other w event interrupted}, l.session.workers.get? other = some w →
      Follows (l.life worker) ((l.session.workers.insert other
        (Session.mail event { w with interrupted })).get? worker) := by
    intro other w event interrupted found
    have before := orderly worker
    by_cases this : other = worker
    · subst this
      rw [found] at before
      simpa using mailFollows before
    · simpa [this] using before
  cases routed with
  | @spawned form package id ref registry allocated =>
    by_cases this : l.session.nextWorker = worker
    · subst this
      have begun : Follows [.said ⟨.message (.workerAssigned id ref), []⟩]
          (some (.start ref ⟨form, package, id⟩)) := by
        refine ⟨Session.startSound _ _, rfl, ?_⟩
        simp [Stage.run, Stage.next, Stage.hear, Worker.stage, Worker.start, Worker.stance,
          Worker.task, Stance.stage]
      simpa [Session.author?, Entry.extend, Deed.assigns] using begun
    · simpa [Session.author?, Entry.extend, this] using orderly worker
  | queued live found => exact posted found
  | unknown absent | noted text other =>
    rw [unnamed _ (by simp [Session.author?])]
    exact orderly worker
  | posted interrupted found other news => exact posted found

theorem workOrderly {l : Log} (orderly : l.Orderly) (worker : WorkerId) (pace : Pace)
    (globals : Globals) : (l.step (.work worker pace globals)).Orderly := by
  intro other
  rcases l.stepWork worker pace globals with
    same | ⟨w, t, inFlight, side, found, moved, effect, _⟩
  · rw [same]
    exact orderly other
  have standing := orderly worker
  rw [found] at standing
  obtain ⟨sound, awake, run⟩ := standing
  obtain ⟨asked, awaits⟩ := w.awaitsSome
  obtain ⟨asked', conducts, _, still, me, _⟩ := Worker.stepConduct sound awaits moved
  rw [effect, life, List.foldl_append, ← life, extendDeeds other worker w.me conducts.noAssignment]
  by_cases this : other = worker
  · subst this
    have grown : Stage.run w.me .unassigned (l.life other ++ w.deeds t) = some t.worker.stage := by
      rw [Stage.run, List.foldlM_append, ← Stage.run, run]
      exact conducts.run
    simp only [Session.resumeGet, if_true]
    cases finished : t.worker.isFinished with
    | true =>
      rw [Worker.finishedStage finished] at grown
      exact .inr ⟨w.me, grown⟩
    | false => exact ⟨still, finished, by rw [me]; exact grown⟩
  · rw [if_neg this]
    exact followsAlike (orderly other) ((l.session.paced pace).resumeInward t.worker this)

theorem stepOrderly {l : Log} (orderly : l.Orderly) (move : Move) : (l.step move).Orderly := by
  cases move with
  | receive m => exact receiveOrderly orderly m
  | work worker pace globals => exact workOrderly orderly worker pace globals
  | loseSide | cancel | closeWriter => exact orderly
  | cutOff => exact fun worker =>
    followsAlike (orderly worker) (l.session.cutOffInward worker)

theorem openingSilent (service : Service) (port : UInt16) (worker : WorkerId) :
    (opening service port).life worker = [] := by
  refine extendOthers fun e member author named => ?_
  obtain ⟨m, _, rfl⟩ := List.mem_map.mp member
  contradiction

theorem openingOrderly (service : Service) (port : UInt16) : (opening service port).Orderly := by
  intro worker
  obtain ⟨side, session⟩ := openingSession service port
  rw [openingSilent, session]
  exact .inl rfl

theorem runOrderly {l : Log} (orderly : l.Orderly) (moves : List Move) : (l.run moves).Orderly := by
  induction moves generalizing l with
  | nil => exact orderly
  | cons move rest ih => exact ih (stepOrderly orderly move)

theorem Orderly.sound {l : Log} (orderly : l.Orderly) {id : WorkerId} {w : Worker}
    (found : l.session.workers.get? id = some w) : w.Sound := by
  have follows := orderly id
  rw [found] at follows
  exact follows.1

theorem Orderly.awake {l : Log} (orderly : l.Orderly) {id : WorkerId} {w : Worker}
    (found : l.session.workers.get? id = some w) : w.isFinished = false := by
  have follows := orderly id
  rw [found] at follows
  exact follows.2.1

end Log
end RemoteEval
