import RemoteEval.Proofs.Worker.Closing
import RemoteEval.Proofs.Worker.Requests

/-! A step with its exit. What waits for a worker rides through a step, apart from the event that the
step takes: nothing in the step looks at it, but a worker that is finished turns it away at the end.
So a step as a whole is a step of the worker with nothing else waiting, and the exit after it. -/
namespace RemoteEval

namespace Turn
variable {s : Service} {t : Turn} {requests : List Request} {events : List Event}

def laden (t : Turn) (requests : List Request) (events : List Event) : Turn :=
  { t with worker := t.worker.rejoin requests events }

def leave (t : Turn) : Turn := if t.worker.isFinished then t.retire else t

def Bare (t : Turn) : Prop := t.worker.backlog = [] ∧ t.worker.mailbox = []

/- What the worker does is the same with this waiting, up to its exit. -/
def Rides (requests : List Request) (events : List Event) (f : Turn → Turn) : Prop :=
  ∀ t : Turn, t.Bare → f (t.laden requests events) = ((f t).laden requests events).leave

theorem leaveAwake (awake : t.worker.isFinished = false) : t.leave = t := by
  rw [leave, awake]
  rfl

theorem leavePrompt (prompt : t.worker.activity = .prompt) : t.leave = t :=
  leaveAwake (by simp [Worker.isFinished, prompt])

theorem retireRides : Rides requests events retire := by
  intro t bare
  obtain ⟨backlog, mailbox⟩ := bare
  have quiet : t.retire = t.doing .finished := by
    rw [retireEq]
    cases t with
    | mk worker globals spoken =>
      cases worker
      dsimp only at backlog mailbox
      subst backlog mailbox
      simp [lastWords, Worker.queue, doing]
  have gone : ((t.doing .finished).laden requests events).worker.isFinished = true := rfl
  rw [quiet, leave, if_pos gone, retireEq, retireEq]
  rfl

theorem toPromptRides : Rides requests events toPrompt := by
  intro t _
  rw [leavePrompt (by simp [laden, Worker.rejoin, toPromptWorker])]
  unfold toPrompt
  dsimp only [laden, Worker.rejoin, doing]
  split <;> rfl

theorem concludeRides (request : Request) (value : Outcome) :
    Rides requests events (·.conclude request value) := by
  intro t bare
  dsimp only
  by_cases outermost : t.worker.levels.isEmpty
  · have ends (u : Turn) (same : u.worker.levels = t.worker.levels) :
        u.conclude request value = (u.answer value request.id).retire := by
      simp [conclude, same, outermost]
    rw [ends t rfl, ends (t.laden requests events) rfl]
    exact retireRides (t.answer value request.id) bare
  · have stays (u : Turn) (same : u.worker.levels = t.worker.levels) :
        u.conclude request value = (u.answer value request.id).toPrompt := by
      simp [conclude, same, outermost]
    rw [stays t rfl, stays (t.laden requests events) rfl]
    exact toPromptRides (t.answer value request.id) bare

theorem collapseRides (target : Nat) (reason : Option String) (stack : DebugStack Request)
    (nonempty : stack ≠ []) : Rides requests events (collapse target reason stack) := by
  induction stack with
  | nil => contradiction
  | cons closing below ih =>
    have onward (u : Turn) (bare : u.Bare) :
        (if below.isEmpty then (u.laden requests events).retire
          else if target < DebugStack.level below then
            collapse target reason below (u.laden requests events)
          else (u.laden requests events).toPrompt) =
        ((if below.isEmpty then u.retire
          else if target < DebugStack.level below then collapse target reason below u
          else u.toPrompt).laden requests events).leave := by
      split
      · exact retireRides u bare
      next more =>
        split
        · exact ih (by simpa using more) u bare
        · exact toPromptRides u bare
    intro t bare
    rw [collapse, collapse]
    cases closing.origin with
    | evaluation request => exact onward (t.leaveLevel.answer (.abort reason) request.id) bare
    | prompt => exact onward t.leaveLevel bare

theorem unwindRides (request : Request) (target : Nat) (reason : Option String) :
    Rides requests events (·.unwind request target reason) := by
  intro t bare
  have parts (u : Turn) (same : u.worker.levels = t.worker.levels) :
      u.unwind request target reason =
        if t.worker.levels.isEmpty then (u.answer (.abort reason) request.id).retire
        else if target < DebugStack.level t.worker.levels then
          collapse target reason t.worker.levels (u.answer (.abort reason) request.id)
        else (u.answer (.abort reason) request.id).toPrompt := by
    simp only [unwind, answerWorker, level, same]
  dsimp only
  rw [parts t rfl, parts (t.laden requests events) rfl]
  split
  · exact retireRides (t.answer (.abort reason) request.id) bare
  next more =>
    split
    · exact collapseRides target reason _ (by simpa using more)
        (t.answer (.abort reason) request.id) bare
    · exact toPromptRides (t.answer (.abort reason) request.id) bare

theorem openLevelRides (c : Condition) (origin : Origin Request) :
    Rides requests events (·.openLevel s c origin) := by
  intro t _
  rw [leavePrompt (by simp [laden, Worker.rejoin, openLevelWorker])]
  unfold openLevel
  dsimp only [laden, Worker.rejoin, doing, level]
  split <;> rfl

theorem trapRides (request : Request) (failure : Failure Condition) :
    Rides requests events (·.trap s request failure) := by
  intro t bare
  have either (c : Condition) : (if c.isCancelled || s.cancelled then
      (t.laden requests events).unwind request 0 (some connectionClosed)
      else (t.laden requests events).openLevel s c (.evaluation request)) =
      ((if c.isCancelled || s.cancelled then t.unwind request 0 (some connectionClosed)
      else t.openLevel s c (.evaluation request)).laden requests events).leave := by
    split
    · exact unwindRides request 0 _ t bare
    · exact openLevelRides c _ t bare
  exact either _

theorem checkRides (t : Turn) : (t.laden requests events).check s =
    ((t.check s).1, (t.check s).2.laden requests events) := by
  have interrupted : (t.laden requests events).worker.interrupted = t.worker.interrupted := rfl
  unfold check
  rw [interrupted]
  cases s.cancelled <;> cases t.worker.interrupted <;> rfl

theorem checkBare (bare : t.Bare) : (t.check s).2.Bare := by
  unfold check
  split
  · exact bare
  split <;> exact bare

theorem checkActivity (s : Service) (t : Turn) :
    (t.check s).2.worker.activity = t.worker.activity := by
  unfold check
  split
  · rfl
  split <;> rfl

theorem runRides (request : Request) (program : Program Sexp) :
    Rides requests events (run s request program) := by
  induction program with
  | done v => exact concludeRides request (.ok v)
  | stop failure => exact trapRides request failure
  | write text next ih => exact fun t bare => ih (t.utter (.output text)) bare
  | fetch name next ih => exact fun t bare => ih (t.globals.fetch name) t bare
  | assign name value next ih =>
    exact fun t bare => ih { t with globals := t.globals.assign name value } bare
  | check next ih =>
    intro t bare
    rw [run, run, checkRides]
    exact ih _ _ (checkBare bare)
  | pause next ih =>
    intro t bare
    rw [run, run]
    have same : (t.laden requests events).rests s.pace = t.rests s.pace := by
      cases pace : s.pace <;> rfl
    rw [same]
    split
    · exact (leaveAwake rfl).symm
    · exact ih t bare
  | read next ih | spin next ih =>
    intro t bare
    rw [run, run, checkRides]
    have still := checkBare (s := s) bare
    rcases outcome : t.check s with ⟨answer, u⟩
    rw [outcome] at still
    cases answer with
    | error c => exact ih _ u still
    | ok => exact (leaveAwake rfl).symm

theorem executeRides (t : Turn) (op : Operation) : (t.laden requests events).execute s op =
    ((t.execute s op).1, (t.execute s op).2.laden requests events) := by
  have traced (first : Nat) (last : Option Nat) :
      (t.laden requests events).backtrace s first last =
        ((t.backtrace s first last).1, (t.backtrace s first last).2.laden requests events) := by
    unfold backtrace
    dsimp only [laden, Worker.rejoin, condition]
    split <;> rfl
  have restarted (kind : RestartKind) : (t.laden requests events).restart s kind =
      ((t.restart s kind).1, (t.restart s kind).2.laden requests events) := by
    cases kind with
    | language index =>
      simp only [restart, condition, laden, Worker.rejoin]
      split <;> rfl
    | retry | «continue» | unwind => rfl
  unfold execute
  simp only [show (t.laden requests events).worker.levels = t.worker.levels from rfl]
  split
  · rfl
  cases op with
  | connectionInfo | arglist | throwToToplevel => rfl
  | findDefinition name =>
    dsimp only
    split <;> rfl
  | backtrace first last => exact traced first last
  | frameLocals frame =>
    simp only [show (t.laden requests events).condition = t.condition from rfl]
    split <;> rfl
  | debuggerInfo first last =>
    simp only [traced]
    rcases t.backtrace s first last with ⟨result, u⟩
    cases result <;> cases DebugStack.current? t.worker.levels <;> rfl
  | invokeRestart level index =>
    dsimp only
    split
    · exact restarted _
    · rfl
  | abort | «continue» =>
    dsimp only
    split
    · exact restarted _
    · rfl

theorem executeBare (bare : t.Bare) (op : Operation) : (t.execute s op).2.Bare := by
  rcases executeTurn t s op with same | ⟨e, same⟩ <;> rw [same] <;> exact bare

theorem resolveRides (request : Request) (action : RestartAction) :
    Rides requests events (·.resolve s request action) := by
  intro t bare
  have levels : (t.laden requests events).worker.levels = t.worker.levels := rfl
  have answered : (t.answer (.abort none) request.id).Bare := bare
  simp only [resolve, answerWorker, levels]
  split
  · exact retireRides _ answered
  · split
    · exact concludeRides _ _ (t.answer (.abort none) request.id).leaveLevel answered
    · exact runRides _ _ (t.answer (.abort none) request.id).leaveLevel answered
    · exact toPromptRides (t.answer (.abort none) request.id).leaveLevel answered

theorem performRides (request : Request) : Rides requests events (·.perform s request) := by
  intro t bare
  unfold perform
  split
  · exact concludeRides request _ t bare
  · exact runRides request _ t bare
  next op _ =>
    have still := executeBare (s := s) bare op
    dsimp only
    rw [executeRides]
    rcases outcome : t.execute s op with ⟨result, u⟩
    rw [outcome] at still
    rcases result with escape | v
    · cases escape with
      | abort reason => exact concludeRides request _ u still
      | unwind target reason => exact unwindRides request target reason u still
      | resolve action => exact resolveRides request action u still
    · exact concludeRides request _ u still

theorem serveRides (request : Request) : Rides requests events (·.serve s request) :=
  fun t bare => performRides request
    { t with worker := { t.worker with returnedToPrompt := false } } bare

theorem hangUpRides (bare : t.Bare) (prompt : t.worker.activity = .prompt) :
    (t.laden requests events).hangUp = (t.hangUp.laden requests events).leave := by
  have levels : (t.laden requests events).worker.levels = t.worker.levels := rfl
  rw [hangUp, hangUp, levels]
  cases stack : t.worker.levels with
  | nil => exact (leavePrompt (t := t.laden requests events) prompt).symm
  | cons closing below => exact collapseRides 0 _ _ (List.cons_ne_nil _ _) t bare

theorem promptEventRides (event : Event) (bare : t.Bare)
    (prompt : t.worker.activity = .prompt) : (t.laden requests events).promptEvent s event =
      ((t.promptEvent s event).laden requests events).leave := by
  cases event with
  | request request => exact serveRides request t bare
  | readReply tag text =>
    exact (leavePrompt (t := (t.staleReply tag).laden requests events) prompt).symm
  | wake =>
    have interrupted : (t.laden requests events).worker.interrupted = t.worker.interrupted := rfl
    simp only [promptEvent, interrupted]
    split
    · exact hangUpRides bare prompt
    split
    · exact openLevelRides _ _
        { t with worker := { t.worker with interrupted := false, returnedToPrompt := false } } bare
    · exact (leavePrompt (t := t.laden requests events) prompt).symm

theorem readEventRides {request : Request} {tag : Tag} {next : Except Condition String → Program Sexp}
    (event : Event) (bare : t.Bare) (reading : t.worker.activity = .reading request tag next) :
    (t.laden requests events).readEvent s request tag next event =
      ((t.readEvent s request tag next event).laden requests events).leave := by
  have awake : t.worker.isFinished = false := by simp [Worker.isFinished, reading]
  cases event with
  | request later =>
    have stays : ((t.readEvent s request tag next (.request later)).laden
        requests events).worker.isFinished = false := awake
    rw [leaveAwake stays]
    simp [readEvent, laden, Worker.rejoin, List.append_assoc]
  | readReply got text =>
    unfold readEvent
    dsimp only
    split
    · exact runRides request _ t bare
    · exact (leaveAwake (t := (t.staleReply got).laden requests events) awake).symm
  | wake =>
    unfold readEvent
    dsimp only
    rw [checkRides]
    have still := checkBare (s := s) bare
    have kept := checkActivity s t
    rcases outcome : t.check s with ⟨answer, u⟩
    rw [outcome] at still kept
    cases answer with
    | error c => exact runRides request _ (u.say (.readAborted u.worker.me tag)) still
    | ok =>
      refine (leaveAwake ?_).symm
      simp [Worker.isFinished, laden, Worker.rejoin, show u.worker.activity = _ from kept, reading]

end Turn

namespace Worker
variable {s : Service} {globals : Globals} {w : Worker}

/- A step with what waits put aside, given how it acts on the worker with that. -/
theorem actWhole {alone : Worker} {requests : List Request} {events : List Event}
    (split : w.split = (alone, requests, events)) {step : Option Turn}
    (rides : step = (alone.step s globals).map fun t => (t.laden requests events).leave) :
    step = (w.act s globals).map Turn.leave := by
  rw [rides, act, split, Option.map_map]
  rfl

theorem stepWhole (s : Service) (globals : Globals) (w : Worker) :
    w.step s globals = (w.act s globals).map Turn.leave := by
  obtain ⟨me, activity, levels, mailbox, attached, backlog, interrupted, lastTag, returned⟩ := w
  let bare : Turn :=
    { worker := ⟨me, activity, levels, [], attached, [], interrupted, lastTag, returned⟩, globals }
  have still : bare.Bare := ⟨rfl, rfl⟩
  have whole (requests : List Request) (events : List Event) : ({ worker := ⟨me, activity, levels,
      events, attached, requests, interrupted, lastTag, returned⟩, globals } : Turn) =
        bare.laden requests events := by
    simp [bare, Turn.laden, rejoin]
  cases activity with
  | finished => exact actWhole rfl rfl
  | starting request =>
    refine actWhole rfl ?_
    simp only [step, whole]
    exact congrArg some (Turn.performRides request bare still)
  | running request rest =>
    refine actWhole rfl ?_
    have goesOn (program : Program Sexp) (t : Turn) (idle : t.Bare) :
        some (Turn.run s request program (t.laden backlog mailbox)) =
          (some (Turn.run s request program t)).map fun t => (t.laden backlog mailbox).leave :=
      congrArg some (Turn.runRides request program t idle)
    cases rest with
    | spin next =>
      have clear := Turn.checkBare (s := s) still
      have nothing : bare.laden [] [] = bare := (whole [] []).symm
      simp only [step, whole, nothing, Turn.checkRides]
      rcases outcome : bare.check s with ⟨answer, u⟩
      rw [outcome] at clear
      cases answer with
      | error c => exact goesOn (next c) u clear
      | ok => rfl
    | done | stop | write | read | check | fetch | assign | pause =>
      simp only [step, whole]
      exact goesOn _ bare still
  | prompt =>
    cases backlog with
    | cons request later =>
      refine actWhole rfl ?_
      simp only [step, whole]
      exact congrArg some (Turn.serveRides request bare still)
    | nil =>
      cases mailbox with
      | cons event later =>
        refine actWhole rfl ?_
        simp only [step, whole]
        exact congrArg some (Turn.promptEventRides event still rfl)
      | nil =>
        refine actWhole rfl ?_
        simp only [step, whole]
        split
        · rfl
        · exact congrArg some (Turn.hangUpRides still rfl)
  | reading request tag next =>
    cases mailbox with
    | cons event later =>
      refine actWhole rfl ?_
      simp only [step, whole]
      exact congrArg some (Turn.readEventRides event still rfl)
    | nil =>
      refine actWhole rfl ?_
      simp only [step, whole]
      split
      · rfl
      · exact congrArg some (Turn.runRides request _ bare still)

structure Fit (w : Worker) : Prop where
  atWork : w.isFinished = false → w.Sound
  leaving : w.isFinished = true → w.levels = []

theorem inwardFit {v : Worker} (alike : v.inward = w.inward) (fit : w.Fit) : v.Fit where
  atWork awake := inwardSound alike (fit.atWork ((inwardFinished alike).symm.trans awake))
  leaving finished :=
    have levels : v.inward.levels = w.inward.levels := congrArg Worker.levels alike
    levels.trans (fit.leaving ((inwardFinished alike).symm.trans finished))

theorem rejoinFit {requests : List Request} {events : List Event} (sound : w.Sound) :
    (w.rejoin requests events).Fit where
  atWork awake := ⟨sound.grounded, sound.prompt, sound.starting, fun finished => by
    simp [isFinished, show w.activity = .finished from finished, rejoin] at awake⟩
  leaving finished := (sound.finished (finishedIff.mp finished)).1

theorem heldQueue {v : Worker} {more : List Request} (activity : v.activity = w.activity)
    (levels : v.levels = w.levels) (queue : v.queue.Perm (w.queue ++ more)) :
    v.held.Perm (w.held ++ more.map Request.id) := by
  have about : v.task.request? = w.task.request? := by
    unfold task
    rw [activity]
    cases w.activity <;> rfl
  have chain : (v.stance none).chain = (w.stance none).chain := by
    simp only [Stance.chain, stance, about, levels]
  have ids := (queue.map Request.id).append_left (w.stance none).chain
  rw [List.map_append, ← List.append_assoc] at ids
  rw [held, Stance.held, chain]
  exact ids

theorem rejoinHeld (requests : List Request) (events : List Event) :
    (w.rejoin requests events).held.Perm
      (w.held ++ (requests ++ events.filterMap Event.request?).map Request.id) := by
  refine heldQueue rfl rfl ?_
  simp only [Worker.queue, rejoin, List.filterMap_append, ← List.append_assoc]
  refine List.Perm.append_right _ ?_
  rw [List.append_assoc]
  exact List.perm_append_comm

theorem splitKeeps (sound : w.Sound) {alone : Worker} {requests : List Request}
    {events : List Event} (split : w.split = (alone, requests, events)) :
    alone.Sound ∧ alone.me = w.me ∧ alone.attached = w.attached ∧
      w.held.Perm (alone.held ++ (requests ++ events.filterMap Event.request?).map Request.id) := by
  have waits (later : List Request) (first : List Event) : ({ w with
      backlog := later, mailbox := first } : Worker).activity ≠ .finished →
      ({ w with backlog := later, mailbox := first } : Worker).Sound := fun awake =>
    ⟨sound.grounded, sound.prompt, sound.starting, fun finished => absurd finished awake⟩
  have taken (event : Event) (later : List Event) : (event :: later).filterMap Event.request? =
      [event].filterMap Event.request? ++ later.filterMap Event.request? :=
    List.filterMap_append (l := [event])
  unfold Worker.split at split
  split at split <;> cases split
  next prompt backlog =>
    refine ⟨waits _ _ (by simp [prompt]), rfl, rfl, heldQueue rfl rfl ?_⟩
    simp [Worker.queue, backlog]
  next prompt backlog mailbox =>
    refine ⟨waits _ _ (by simp [prompt]), rfl, rfl, heldQueue rfl rfl ?_⟩
    rw [Worker.queue, backlog, mailbox, taken]
    exact .refl _
  next reading mailbox =>
    refine ⟨waits _ _ (by simp [reading]), rfl, rfl, heldQueue rfl rfl ?_⟩
    rw [Worker.queue, mailbox, taken]
    exact List.perm_append_comm_assoc ..
  · refine ⟨⟨sound.grounded, sound.prompt, sound.starting, fun finished => ?_⟩, rfl, rfl,
      heldQueue rfl rfl (.refl _)⟩
    exact ⟨(sound.finished finished).1, rfl, rfl⟩

theorem actAwake {t : Turn} (acted : w.act s globals = some t) : w.isFinished = false := by
  by_contra finished
  have ended : w.activity = .finished := finishedIff.mp (by simpa using finished)
  simp [act, split, step, ended] at acted

theorem actKeeps (sound : w.Sound) {t : Turn} (acted : w.act s globals = some t) :
    t.worker.Fit ∧ t.worker.me = w.me ∧ t.worker.attached = w.attached ∧
      w.held.Perm (t.said.filterMap Utterance.answered? ++ t.worker.held) := by
  rcases split : w.split with ⟨alone, requests, events⟩
  obtain ⟨lone, me, attached, before⟩ := splitKeeps sound split
  simp only [act, split, Option.map_eq_some_iff] at acted
  obtain ⟨u, moved, rfl⟩ := acted
  obtain ⟨asked, awaits⟩ := alone.awaitsSome
  obtain ⟨asked', conducts, -, still, same, kept⟩ := stepConduct lone awaits moved
  refine ⟨rejoinFit still, same.trans me, kept.trans attached, ?_⟩
  have owed := conducts.held
  rw [stanceHeld, stanceHeld, deedsAnswered] at owed
  calc w.held
    _ |>.Perm (alone.held ++ (requests ++ events.filterMap Event.request?).map Request.id) := before
    _ |>.Perm (u.said.filterMap Utterance.answered? ++ (u.worker.held ++
        (requests ++ events.filterMap Event.request?).map Request.id)) := by
      rw [← List.append_assoc]
      exact owed.append_right _
    _ |>.Perm _ := (rejoinHeld requests events).symm.append_left _

/- All that a worker on its way out holds waits, and is turned away in the end. -/
theorem heldLeaving (fit : w.Fit) (finished : w.isFinished = true) :
    (Turn.lastWords w).filterMap Utterance.answered? = w.held := by
  have nothing : w.task.request? = none := by rw [goneFinished.mpr finished]; rfl
  have stale (tags : List Tag) : (tags.map fun tag => Utterance.message
      (.backgroundMessage (Error.tagNotFound w.me tag).message)).filterMap Utterance.answered? = [] := by
    simp [List.filterMap_map, Function.comp_def, Utterance.answered?, Message.answered?]
  rw [Turn.lastWords, List.filterMap_append, stale, List.nil_append, held, Stance.held, Stance.chain,
    show (w.stance none).task = w.task from rfl, nothing, show (w.stance none).levels = [] from
    fit.leaving finished, List.filterMap_map]
  exact congrFun List.filterMap_eq_map' _

end Worker
end RemoteEval
