import Mathlib.Logic.Relation
import RemoteEval.Worker.Step

/-! The acts that make up a turn of a worker. Each act says at most one thing, except
the last one of a worker that retires, and leaves the turn in a phase that tells what
may follow. Every step of a worker is a sequence of acts; what holds of all acts
holds of all steps. Nothing here says how many acts a turn takes. -/
namespace RemoteEval

inductive Phase where
  | waiting
  | performing (request : Request)
  | prompting
  | left (origin : Origin Request)
  | ended

structure Moment where
  phase : Phase
  turn : Turn

namespace DebugStack

def Grounded : DebugStack Request → Prop
  | [] => True
  | [l] => ∃ r, l.origin = .evaluation r
  | _ :: below => Grounded below

theorem groundedTail {l : DebugLevel Request} {below} (grounded : Grounded (l :: below)) :
    Grounded below := by
  cases below with
  | nil => trivial
  | cons next rest => exact grounded

theorem groundedPrompt {l : DebugLevel Request} {below} (grounded : Grounded (l :: below))
    (prompt : l.origin = .prompt) : below ≠ [] := by
  rintro rfl
  obtain ⟨r, evaluation⟩ := grounded
  rw [prompt] at evaluation
  contradiction

theorem groundedEvaluation {l : DebugLevel Request} {below} (grounded : Grounded below) {r}
    (origin : l.origin = .evaluation r) : Grounded (l :: below) := by
  cases below with
  | nil => exact ⟨r, origin⟩
  | cons next rest => exact grounded

theorem groundedCons {l : DebugLevel Request} {below} (grounded : Grounded below)
    (nonempty : below ≠ []) : Grounded (l :: below) := by
  cases below with
  | nil => contradiction
  | cons next rest => exact grounded

end DebugStack

namespace Turn

def shownFrames (s : Service) (c : Condition) : List FrameView :=
  match s.language.backtrace c 0 s.config.backtraceLength with
  | .ok frames => frameViews 0 frames
  | .error _ => []

def enter (t : Turn) (s : Service) (c : Condition) (origin : Origin Request) : Turn :=
  let levels := DebugStack.enter t.worker.levels c origin
  let t := { t with worker := { t.worker with levels } }.doing .prompt
  t.say (.debugEnter t.worker.me t.level.toUInt64 c.message
    ((offeredRestarts c origin t.level).map OfferedRestart.view) (shownFrames s c))

@[simp] theorem enterWorker (t : Turn) (s : Service) (c : Condition) (origin : Origin Request) :
    (t.enter s c origin).worker = { t.worker with
      levels := DebugStack.enter t.worker.levels c origin, activity := .prompt } := rfl

theorem enterSpoken (t : Turn) (s : Service) (c : Condition) (origin : Origin Request) :
    let opened : DebugLevel Request :=
      ⟨c, origin, offeredRestarts c origin (t.worker.levels.length + 1)⟩
    (t.enter s c origin).spoken = t.spoken ++ [⟨.message (.debugEnter t.worker.me
      (t.worker.levels.length + 1).toUInt64 opened.description opened.restartViews
      (shownFrames s c)), opened :: t.worker.levels⟩] := rfl

theorem openLevelEq (t : Turn) (s : Service) (c : Condition) (origin : Origin Request) :
    t.openLevel s c origin = t.enter s c origin ∨
    ∃ e, t.openLevel s c origin = (t.enter s c origin).machineError e := by
  unfold openLevel enter shownFrames
  cases s.language.backtrace c 0 s.config.backtraceLength with
  | ok frames => exact .inl rfl
  | error failure => exact .inr ⟨_, rfl⟩

end Turn

inductive Aside (me : WorkerRef) : Utterance → Prop where
  | output (text : String) : Aside me (.output text)
  | text (text : String) : Aside me (.message (.debugConditionText me text))
  | background (text : String) : Aside me (.message (.backgroundMessage text))

def Worker.listens (w : Worker) : Prop :=
  w.activity = .prompt ∨ ∃ request tag next, w.activity = .reading request tag next

inductive Act (s : Service) : Moment → Moment → Prop where
  | goOn {t request rest} (running : t.worker.activity = .running request rest) :
      Act s ⟨.waiting, t⟩ ⟨.performing request, t⟩
  | discard {t event later} (mail : t.worker.mailbox = event :: later)
      (listens : t.worker.listens) (other : ∀ request, event ≠ .request request) :
      Act s ⟨.waiting, t⟩ ⟨.waiting, { t with worker := { t.worker with mailbox := later } }⟩
  | putOff {t request tag next later queued}
      (reading : t.worker.activity = .reading request tag next)
      (mail : t.worker.mailbox = .request queued :: later) :
      Act s ⟨.waiting, t⟩ ⟨.waiting, { t with worker :=
        { t.worker with mailbox := later, backlog := t.worker.backlog ++ [queued] } }⟩
  | remark {t utterance} (listens : t.worker.listens) (aside : Aside t.worker.me utterance) :
      Act s ⟨.waiting, t⟩ ⟨.waiting, t.utter utterance⟩
  | readOver {t request tag next} (reading : t.worker.activity = .reading request tag next) :
      Act s ⟨.waiting, t⟩ ⟨.performing request, t⟩
  | abortRead {t request tag next} (reading : t.worker.activity = .reading request tag next) :
      Act s ⟨.waiting, t⟩ ⟨.performing request, t.say (.readAborted t.worker.me tag)⟩
  | heed {phase t} (interrupted : t.worker.interrupted = true) :
      Act s ⟨phase, t⟩ ⟨phase, { t with worker := { t.worker with interrupted := false } }⟩
  | interrupt {t} (prompt : t.worker.activity = .prompt) :
      Act s ⟨.waiting, t⟩ ⟨.waiting, { t with worker :=
        { t.worker with returnedToPrompt := false } }.enter s .interrupt .prompt⟩
  | hangUp {t closing below} (prompt : t.worker.activity = .prompt)
      (levels : t.worker.levels = closing :: below)
      (cause : s.cancelled = true ∨ t.worker.attached = false) :
      Act s ⟨.waiting, t⟩ ⟨.left closing.origin, t.leaveLevel⟩
  | store {t request} (globals : Globals) :
      Act s ⟨.performing request, t⟩ ⟨.performing request, { t with globals }⟩
  | comment {t request utterance} (aside : Aside t.worker.me utterance) :
      Act s ⟨.performing request, t⟩ ⟨.performing request, t.utter utterance⟩
  | ask {t request} (next : Except Condition String → Program Sexp) :
      Act s ⟨.performing request, t⟩ ⟨.waiting,
        ({ t with worker := { t.worker with lastTag := t.worker.lastTag + 1 } }.say
          (.readStringRequest t.worker.me (t.worker.lastTag + 1))).doing
            (.reading request (t.worker.lastTag + 1) next)⟩
  | rest {t request} (rest : Program Sexp) :
      Act s ⟨.performing request, t⟩ ⟨.waiting, t.doing (.running request rest)⟩
  | trap {t request} (c : Condition) :
      Act s ⟨.performing request, t⟩ ⟨.waiting, t.enter s c (.evaluation request)⟩
  | answer {t request} (value : Outcome) (nested : t.worker.levels ≠ []) :
      Act s ⟨.performing request, t⟩ ⟨.prompting, t.answer value request.id⟩
  | finish {t request} (value : Outcome) (outermost : t.worker.levels = []) :
      Act s ⟨.performing request, t⟩ ⟨.ended, t.answer value request.id⟩
  | close {t closing below} (levels : t.worker.levels = closing :: below) :
      Act s ⟨.prompting, t⟩ ⟨.left closing.origin, t.leaveLevel⟩
  | again {t opener} : Act s ⟨.left (.evaluation opener), t⟩ ⟨.performing opener, t⟩
  | back {t} (levels : t.worker.levels ≠ []) : Act s ⟨.left .prompt, t⟩ ⟨.prompting, t⟩
  | activate {t} (returned : t.worker.returnedToPrompt = true) :
      Act s ⟨.prompting, t⟩ ⟨.waiting, { (t.doing .prompt).say
        (.debugActivate t.worker.me t.level.toUInt64) with
          worker := { (t.doing .prompt).worker with returnedToPrompt := false } }⟩
  | stay {t} (quiet : t.worker.returnedToPrompt = false) :
      Act s ⟨.prompting, t⟩ ⟨.waiting, t.doing .prompt⟩
  | retire {t} : Act s ⟨.ended, t⟩ ⟨.waiting, t.retire⟩

abbrev Acts (s : Service) : Moment → Moment → Prop := Relation.ReflTransGen (Act s)

def Worker.taken? (w : Worker) : Option (Request × Worker) :=
  match w.activity, w.backlog, w.mailbox with
  | .starting request, _, _ => some (request, w)
  | .prompt, request :: later, _ =>
    some (request, { w with backlog := later, returnedToPrompt := false })
  | .prompt, [], .request request :: later =>
    some (request, { w with mailbox := later, returnedToPrompt := false })
  | _, _, _ => none

def Worker.begin (w : Worker) (globals : Globals) : Moment :=
  match w.taken? with
  | some (request, worker) => ⟨.performing request, { worker, globals }⟩
  | none => ⟨.waiting, { worker := w, globals }⟩

namespace Turn
variable {s : Service} {t : Turn}

theorem toPromptActs : Acts s ⟨.prompting, t⟩ ⟨.waiting, t.toPrompt⟩ := by
  unfold toPrompt
  cases flag : t.worker.returnedToPrompt with
  | false =>
    have quiet : (t.doing .prompt).worker.returnedToPrompt = false := flag
    simp only [quiet, Bool.false_eq_true, if_false]
    exact .single (.stay flag)
  | true =>
    have returned : (t.doing .prompt).worker.returnedToPrompt = true := flag
    simp only [returned, if_true]
    exact .single (.activate flag)

theorem concludeActs {request value} :
    Acts s ⟨.performing request, t⟩ ⟨.waiting, t.conclude request value⟩ := by
  unfold conclude
  have same : (t.answer value request.id).worker = t.worker := rfl
  simp only [same]
  cases levels : t.worker.levels with
  | nil => exact .tail (.single (.finish value levels)) .retire
  | cons closing below => exact .head (.answer value (by simp [levels])) toPromptActs

/- The loop over the levels that close. It is entered when the innermost of them has
just closed; each round answers the opener, if there is one, and closes the next. -/
theorem collapseActs {target reason} {closing : DebugLevel Request} {below}
    (levels : t.worker.levels = closing :: below)
    (grounded : DebugStack.Grounded (closing :: below)) :
    Acts s ⟨.left closing.origin, t.leaveLevel⟩
      ⟨.waiting, collapse target reason (closing :: below) t⟩ := by
  induction below generalizing closing t with
  | nil =>
    obtain ⟨opener, origin⟩ := grounded
    simp only [collapse, origin, List.isEmpty_nil, if_true]
    have outermost : t.leaveLevel.worker.levels = [] := by simp [levels]
    exact .head .again (.tail (.single (.finish (.abort reason) outermost)) .retire)
  | cons next rest ih =>
    have open' : t.leaveLevel.worker.levels = next :: rest := by simp [levels]
    have nonempty : t.leaveLevel.worker.levels ≠ [] := by simp [levels]
    have deeper := DebugStack.groundedTail grounded
    have round : ∀ u : Turn, u.worker.levels = next :: rest →
        Acts s ⟨.prompting, u⟩ ⟨.waiting, if target < DebugStack.level (next :: rest) then
          collapse target reason (next :: rest) u else u.toPrompt⟩ := by
      intro u levels
      split
      · exact .head (.close levels) (ih levels deeper)
      · exact toPromptActs
    rw [collapse]
    cases origin : closing.origin with
    | evaluation opener =>
      simp only [List.isEmpty_cons, Bool.false_eq_true, if_false]
      exact .head .again (.head (.answer (.abort reason) nonempty) (round _ open'))
    | prompt =>
      simp only [List.isEmpty_cons, Bool.false_eq_true, if_false]
      exact .head (.back nonempty) (round _ open')

theorem unwindActs {request target reason} (grounded : DebugStack.Grounded t.worker.levels) :
    Acts s ⟨.performing request, t⟩ ⟨.waiting, t.unwind request target reason⟩ := by
  unfold unwind
  have same : (t.answer (.abort reason) request.id).worker = t.worker := rfl
  simp only [same]
  cases levels : t.worker.levels with
  | nil => exact .tail (.single (.finish _ levels)) .retire
  | cons closing below =>
    rw [levels] at grounded
    refine .head (.answer (.abort reason) (by simp [levels])) ?_
    simp only [List.isEmpty_cons, Bool.false_eq_true, if_false]
    split
    · exact .head (.close levels) (collapseActs levels grounded)
    · exact toPromptActs

theorem openLevelActs {request c} :
    Acts s ⟨.performing request, t⟩ ⟨.waiting, t.openLevel s c (.evaluation request)⟩ := by
  rcases openLevelEq t s c (.evaluation request) with same | ⟨e, same⟩
  · rw [same]
    exact .single (.trap c)
  · rw [same]
    exact .tail (.single (.trap c)) (.remark (.inl rfl) (.text _))

theorem trapActs {request failure} (grounded : DebugStack.Grounded t.worker.levels) :
    Acts s ⟨.performing request, t⟩ ⟨.waiting, t.trap s request failure⟩ := by
  have either : ∀ c : Condition, Acts s ⟨.performing request, t⟩ ⟨.waiting,
      if c.isCancelled || s.cancelled then t.unwind request 0 (some connectionClosed)
      else t.openLevel s c (.evaluation request)⟩ := by
    intro c
    split
    · exact unwindActs grounded
    · exact openLevelActs
  exact either _

theorem checkActs (s : Service) (t : Turn) (phase : Phase) :
    Acts s ⟨phase, t⟩ ⟨phase, (t.check s).2⟩ ∧
    (t.check s).2.worker.levels = t.worker.levels := by
  unfold check
  split
  · exact ⟨.refl, rfl⟩
  split
  next interrupted => exact ⟨.single (.heed interrupted), rfl⟩
  · exact ⟨.refl, rfl⟩

theorem runActs {request} (program : Program Sexp)
    (grounded : DebugStack.Grounded t.worker.levels) :
    Acts s ⟨.performing request, t⟩ ⟨.waiting, run s request program t⟩ := by
  induction program generalizing t with
  | done v => exact concludeActs
  | stop failure => exact trapActs grounded
  | write text next ih => exact .head (.comment (.output text)) (ih grounded)
  | read next ih =>
    rw [run]
    obtain ⟨checked, levels⟩ := checkActs s t (.performing request)
    rcases outcome : t.check s with ⟨answer, u⟩
    rw [outcome] at checked levels
    refine checked.trans ?_
    cases answer with
    | error c => exact ih _ (by rw [levels]; exact grounded)
    | ok _ => exact .single (.ask next)
  | check next ih =>
    rw [run]
    obtain ⟨checked, levels⟩ := checkActs s t (.performing request)
    exact checked.trans (ih _ (by rw [levels]; exact grounded))
  | fetch name next ih => exact ih _ grounded
  | assign name value next ih => exact .head (.store _) (ih grounded)
  | pause next ih =>
    rw [run]
    split
    · exact .single (.rest next)
    · exact ih grounded
  | spin next ih =>
    rw [run]
    obtain ⟨checked, levels⟩ := checkActs s t (.performing request)
    rcases outcome : t.check s with ⟨answer, u⟩
    rw [outcome] at checked levels
    refine checked.trans ?_
    cases answer with
    | error c => exact ih _ (by rw [levels]; exact grounded)
    | ok _ => exact .single (.rest _)

theorem executeTurn (t : Turn) (s : Service) (op : Operation) :
    (t.execute s op).2 = t ∨ ∃ e, (t.execute s op).2 = t.machineError e := by
  have refused : ∀ e : Error, (t.refuse (α := Sexp) e).2 = t ∨
      ∃ e', (t.refuse (α := Sexp) e).2 = t.machineError e' := fun e => .inr ⟨e, rfl⟩
  have traced : ∀ first last, (t.backtrace s first last).2 = t ∨
      ∃ e, (t.backtrace s first last).2 = t.machineError e := by
    intro first last
    unfold backtrace
    split
    · exact .inl rfl
    · exact refused _
  have restarted : ∀ kind, (t.restart s kind).2 = t ∨
      ∃ e, (t.restart s kind).2 = t.machineError e := by
    intro kind
    cases kind with
    | language index =>
      simp only [restart]
      split
      · exact .inl rfl
      · exact refused _
    | retry | «continue» | unwind => exact .inl rfl
  unfold execute
  split
  · exact .inl rfl
  cases op with
  | connectionInfo | arglist | throwToToplevel => exact .inl rfl
  | findDefinition name =>
    dsimp only
    split <;> exact .inl rfl
  | backtrace first last => exact traced first last
  | frameLocals frame =>
    dsimp only
    split
    · exact .inl rfl
    · exact refused _
  | debuggerInfo first last =>
    have h := traced first last
    dsimp only
    split
    all_goals simp_all
  | invokeRestart level index =>
    dsimp only
    split
    · exact restarted _
    · exact refused _
  | abort =>
    dsimp only
    split
    · exact restarted _
    · exact .inl rfl
  | «continue» =>
    dsimp only
    split
    · exact restarted _
    · exact .inl rfl

theorem executeActs (s : Service) (t : Turn) (request : Request) (op : Operation) :
    Acts s ⟨.performing request, t⟩ ⟨.performing request, (t.execute s op).2⟩ ∧
    (t.execute s op).2.worker.levels = t.worker.levels := by
  rcases executeTurn t s op with same | ⟨e, same⟩
  · rw [same]
    exact ⟨.refl, rfl⟩
  · rw [same]
    exact ⟨.single (.comment (.text _)), rfl⟩

theorem resolveActs {request action} (grounded : DebugStack.Grounded t.worker.levels) :
    Acts s ⟨.performing request, t⟩ ⟨.waiting, t.resolve s request action⟩ := by
  unfold resolve
  have same : (t.answer (.abort none) request.id).worker.levels = t.worker.levels := rfl
  dsimp only
  cases levels : t.worker.levels with
  | nil =>
    rw [levels] at same
    simp only [same]
    exact .tail (.single (.finish _ levels)) .retire
  | cons closing below =>
    rw [levels] at grounded same
    simp only [same]
    have left : Acts s ⟨.performing request, t⟩
        ⟨.left closing.origin, (t.answer (.abort none) request.id).leaveLevel⟩ :=
      .tail (.single (.answer _ (by simp [levels]))) (.close same)
    have deeper : (t.answer (.abort none) request.id).leaveLevel.worker.levels = below := by
      simp [levels]
    refine left.trans ?_
    cases origin : closing.origin with
    | evaluation opener =>
      refine .head .again ?_
      cases action with
      | resume v => exact concludeActs
      | retry => exact runActs _ (by rw [deeper]; exact DebugStack.groundedTail grounded)
    | prompt =>
      have nonempty := DebugStack.groundedPrompt grounded origin
      exact .head (.back (by rw [deeper]; exact nonempty)) toPromptActs

theorem performActs {request} (grounded : DebugStack.Grounded t.worker.levels) :
    Acts s ⟨.performing request, t⟩ ⟨.waiting, t.perform s request⟩ := by
  unfold perform
  split
  · exact concludeActs
  · exact runActs _ grounded
  next op _ =>
    obtain ⟨executed, levels⟩ := executeActs s t request op
    rcases outcome : t.execute s op with ⟨result, u⟩
    rw [outcome] at executed levels
    have still : DebugStack.Grounded u.worker.levels := by rw [levels]; exact grounded
    refine executed.trans ?_
    cases result with
    | ok v => exact concludeActs
    | error escape =>
      cases escape with
      | abort reason => exact concludeActs
      | unwind target reason => exact unwindActs still
      | resolve action => exact resolveActs still

theorem hangUpActs (prompt : t.worker.activity = .prompt) (nonempty : t.worker.levels ≠ [])
    (grounded : DebugStack.Grounded t.worker.levels)
    (cause : s.cancelled = true ∨ t.worker.attached = false) :
    Acts s ⟨.waiting, t⟩ ⟨.waiting, t.hangUp⟩ := by
  unfold hangUp
  cases levels : t.worker.levels with
  | nil => contradiction
  | cons closing below =>
    rw [levels] at grounded
    exact .head (.hangUp prompt levels cause) (collapseActs levels grounded)

end Turn

namespace Worker

theorem finishedIff {w : Worker} : w.isFinished = true ↔ w.activity = .finished := by
  unfold isFinished
  cases w.activity <;> simp

/- What is known of a worker between two turns: a prompt belongs to a level, and the
outermost request is looked at before there is any. -/
structure Sound (w : Worker) : Prop where
  grounded : DebugStack.Grounded w.levels
  prompt : w.activity = .prompt → w.levels ≠ []
  starting : ∀ request, w.activity = .starting request →
    w.levels = [] ∧ w.returnedToPrompt = false
  finished : w.activity = .finished → w.levels = [] ∧ w.mailbox = [] ∧ w.backlog = []

theorem promptActs {s : Service} {w : Worker} {globals event later} (sound : w.Sound)
    (prompt : w.activity = .prompt) (mail : w.mailbox = event :: later)
    (other : ∀ request, event ≠ .request request) :
    Acts s ⟨.waiting, { worker := w, globals }⟩ ⟨.waiting,
      { worker := { w with mailbox := later }, globals : Turn }.promptEvent s event⟩ := by
  refine .head (.discard mail (.inl prompt) other) ?_
  cases event with
  | request request => exact absurd rfl (other request)
  | readReply tag text => exact .single (.remark (.inl prompt) (.background _))
  | wake =>
    unfold Turn.promptEvent
    dsimp only
    split
    next cancelled =>
      exact Turn.hangUpActs prompt (sound.prompt prompt) sound.grounded (.inl cancelled)
    split
    next interrupted =>
      refine .head (.heed interrupted) ?_
      rcases Turn.openLevelEq { worker := { w with
        mailbox := later, interrupted := false, returnedToPrompt := false }, globals : Turn }
        s .interrupt .prompt with same | ⟨e, same⟩
      · rw [same]
        exact .single (.interrupt prompt)
      · rw [same]
        exact .tail (.single (.interrupt prompt)) (.remark (.inl rfl) (.text _))
    · exact .refl

theorem readActs {s : Service} {w : Worker} {globals event later request tag next}
    (sound : w.Sound) (reading : w.activity = .reading request tag next)
    (mail : w.mailbox = event :: later) :
    Acts s ⟨.waiting, { worker := w, globals }⟩ ⟨.waiting,
      { worker := { w with mailbox := later }, globals : Turn }.readEvent
        s request tag next event⟩ := by
  have listens : w.listens := .inr ⟨request, tag, next, reading⟩
  cases event with
  | request queued => exact .single (.putOff reading mail)
  | readReply got text =>
    refine .head (.discard mail listens (by simp)) ?_
    unfold Turn.readEvent
    dsimp only
    split
    · exact .head (.readOver reading) (Turn.runActs _ sound.grounded)
    · exact .single (.remark listens (.background _))
  | wake =>
    refine .head (.discard mail listens (by simp)) ?_
    unfold Turn.readEvent Turn.check
    dsimp only
    by_cases cancelled : s.cancelled = true
    · simp only [cancelled, if_true]
      exact .head (.abortRead reading) (Turn.runActs _ sound.grounded)
    · simp only [cancelled, Bool.false_eq_true, if_false]
      by_cases interrupted : w.interrupted = true
      · rw [if_pos interrupted]
        refine .head (.heed interrupted) ?_
        exact .head (.abortRead reading) (Turn.runActs _ sound.grounded)
      · rw [if_neg interrupted]

theorem stepActs {s : Service} {w : Worker} {globals t} (sound : w.Sound)
    (moved : w.step s globals = some t) : Acts s (w.begin globals) ⟨.waiting, t⟩ := by
  rcases w with ⟨me, activity, levels, mailbox, attached, backlog, interrupted, tag, returned⟩
  cases activity with
  | finished => contradiction
  | starting request =>
    cases moved
    exact Turn.performActs sound.grounded
  | running request rest =>
    refine .head (.goOn rfl) ?_
    cases rest with
    | spin next =>
      simp only [step] at moved
      obtain ⟨checked, same⟩ := Turn.checkActs s
        { worker := ⟨me, .running request (.spin next), levels, mailbox, attached, backlog,
          interrupted, tag, returned⟩, globals } (.performing request)
      split at moved
      next c u outcome =>
        cases moved
        rw [outcome] at checked same
        exact checked.trans (Turn.runActs _ (by rw [same]; exact sound.grounded))
      · contradiction
    | _ =>
      cases moved
      exact Turn.runActs _ sound.grounded
  | prompt =>
    cases backlog with
    | cons request later =>
      cases moved
      exact Turn.performActs sound.grounded
    | nil =>
      cases mailbox with
      | nil =>
        cases attached with
        | true => contradiction
        | false =>
          cases moved
          exact Turn.hangUpActs rfl (sound.prompt rfl) sound.grounded (.inr rfl)
      | cons event later =>
        cases moved
        cases event with
        | request request => exact Turn.performActs sound.grounded
        | readReply tag text => exact promptActs sound rfl rfl (by simp)
        | wake => exact promptActs sound rfl rfl (by simp)
  | reading request tag next =>
    cases mailbox with
    | nil =>
      cases attached with
      | true => contradiction
      | false =>
        cases moved
        exact .head (.readOver rfl) (Turn.runActs _ sound.grounded)
    | cons event later =>
      cases moved
      exact readActs sound rfl rfl

end Worker
end RemoteEval
