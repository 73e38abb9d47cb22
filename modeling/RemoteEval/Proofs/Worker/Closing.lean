import RemoteEval.Proofs.Worker.Unwinding

/-! Workers of a connection that is being closed. Every safe point stops the evaluation, a failed
evaluation opens no level, and a prompt into which nobody can put events ends when it has none left.
So a worker that has lost its mailbox takes finitely many more turns, and so does one that has
opened no level, whatever reaches its mailbox meanwhile. The number of turns has no bound that is
known beforehand: a program rests as often as it likes, but each of its rests is one of finitely
many. -/
namespace RemoteEval

namespace Worker

/- What a worker still has to look at. A request that comes during a read is looked at twice. -/
def load (w : Worker) : Nat := 2 * w.mailbox.length + w.backlog.length

def AtTop (w : Worker) : Prop :=
  w.levels = [] ∧ ((∃ request, w.activity = .starting request) ∨
    ∃ request rest, w.activity = .running request rest)

theorem AtTop.busy {w : Worker} (top : w.AtTop) : ¬ w.listens := by
  obtain ⟨-, ⟨_, starting⟩ | ⟨_, _, running⟩⟩ := top
  · simp [listens, starting]
  · simp [listens, running]

structure Disturbed (w v : Worker) : Prop where
  activity : v.activity = w.activity
  levels : v.levels = w.levels
  returned : v.returnedToPrompt = w.returnedToPrompt
  alone : w.attached = false → v = w

theorem Disturbed.refl (w : Worker) : w.Disturbed w := ⟨rfl, rfl, rfl, fun _ => rfl⟩

theorem Disturbed.trans {w v u : Worker} (first : w.Disturbed v) (second : v.Disturbed u) :
    w.Disturbed u := by
  refine ⟨second.activity.trans first.activity, second.levels.trans first.levels,
    second.returned.trans first.returned, fun alone => ?_⟩
  have same := first.alone alone
  exact (second.alone (same ▸ alone)).trans same

theorem Disturbed.atTop {w v : Worker} (disturbed : w.Disturbed v) (top : w.AtTop) : v.AtTop := by
  rw [AtTop, disturbed.activity, disturbed.levels]
  exact top

theorem Disturbed.awake {w v : Worker} (disturbed : w.Disturbed v) :
    v.isFinished = w.isFinished := by
  rw [isFinished, isFinished, disturbed.activity]

/- What is known of a worker of a connection that is closing. Once mailboxes were cut off, a worker
that has one got it later, and is still at its top. -/
structure Closes (cut : Bool) (w : Worker) : Prop where
  sound : w.Sound
  awake : w.isFinished = false
  top : cut = true → w.attached = true → w.AtTop

theorem Closes.disturbed {cut : Bool} {w v : Worker} (closes : w.Closes cut)
    (disturbed : w.Disturbed v) : v.Closes cut := by
  have awake := disturbed.awake.trans closes.awake
  refine ⟨⟨disturbed.levels ▸ closes.sound.grounded, ?_, ?_, ?_⟩, awake, fun cut attached => ?_⟩
  · rw [disturbed.activity, disturbed.levels]
    exact closes.sound.prompt
  · rw [disturbed.activity, disturbed.levels, disturbed.returned]
    exact closes.sound.starting
  · intro finished
    simp [isFinished, finished] at awake
  · refine disturbed.atTop (closes.top cut ?_)
    cases alone : w.attached with
    | true => rfl
    | false => rw [disturbed.alone alone, alone] at attached; contradiction

def Succeeds (v w : Worker) : Prop :=
  ∃ u s globals t, w.Disturbed u ∧ s.cancelled = true ∧ u.step s globals = some t ∧ v = t.worker

end Worker

theorem Act.load {s : Service} {before after : Moment} (act : Act s before after) :
    after.turn.worker.load ≤ before.turn.worker.load := by
  cases act with
  | discard mail =>
    simp only [Worker.load, mail, List.length_cons]
    omega
  | putOff reading mail =>
    simp only [Worker.load, mail, List.length_cons, List.length_append, List.length_nil]
    omega
  | retire =>
    rw [Turn.retireEq]
    exact Nat.zero_le _
  | _ => exact Nat.le_refl _

/- What a turn does that knows of no closing, one that knows of it may do as well. -/
theorem Act.aware {s : Service} {before after : Moment} (act : Act s before after) :
    Act { s with cancelled := true } before after := by
  cases act with
  | hangUp prompt levels cause => exact .hangUp prompt levels (.inl rfl)
  | readOver reading => exact .readOver reading
  | _ => constructor <;> assumption

theorem actsLoad {s : Service} {before after : Moment} (acts : Acts s before after) :
    after.turn.worker.load ≤ before.turn.worker.load := by
  induction acts with
  | refl => exact Nat.le_refl _
  | tail _ act ih => exact Nat.le_trans act.load ih

namespace Turn
variable {s : Service} {t : Turn}

theorem checkClosing (closing : s.cancelled = true) : t.check s = (.error .cancelled, t) := by
  simp [check, closing]

theorem checkLoad (s : Service) (t : Turn) : (t.check s).2.worker.load = t.worker.load := by
  unfold check
  split
  · rfl
  · split <;> rfl

theorem retireFinished : t.retire.worker.isFinished = true := by
  rw [retireEq]
  rfl

theorem Lands.finished {w : Worker} {told : List Utterance} (lands : t.Lands w told 0) :
    t.worker.isFinished = true := by
  rw [lands.worker]
  rfl

theorem unwindFinished (request : Request) (reason : Option String) :
    (t.unwind request 0 reason).worker.isFinished = true := by
  cases levels : t.worker.levels with
  | nil =>
    have outermost : (t.answer (.abort reason) request.id).worker.levels.isEmpty = true := by
      simp [levels]
    simp only [unwind, outermost, if_true]
    exact retireFinished
  | cons closing below => exact Lands.finished (unwindLands (by simp [levels]))

theorem openLevelWorker (t : Turn) (s : Service) (c : Condition) (origin : Origin Request) :
    (t.openLevel s c origin).worker = { t.worker with
      levels := DebugStack.enter t.worker.levels c origin, activity := .prompt } := by
  rcases openLevelEq t s c origin with same | ⟨e, same⟩ <;> rw [same] <;> rfl

theorem hangUpFinished (nested : t.worker.levels ≠ []) : t.hangUp.worker.isFinished = true := by
  obtain ⟨closing, below, levels⟩ := List.exists_cons_of_ne_nil nested
  rw [hangUp, levels]
  exact (collapseLands (some connectionClosed) levels (Nat.zero_le _)).finished

theorem trapFinished (closing : s.cancelled = true) (request : Request)
    (failure : Failure Condition) : (t.trap s request failure).worker.isFinished = true := by
  simp only [trap, closing, Bool.or_true, if_true]
  exact unwindFinished request _

/- Where a run of an evaluation can end while the connection is closing, by induction on the
program: the worker is finished, is back at a prompt, or rests. `C` is what the worker keeps through
the run, and `P` what is to be shown of its end. A run that rests may be taken up by any other
worker that has `C`. -/
theorem runClosing {C P : Worker → Prop} (finished : ∀ w, w.isFinished = true → P w)
    (prompt : ∀ w, C w → w.levels ≠ [] →
      P { w with activity := .prompt, returnedToPrompt := false })
    (resting : ∀ w request rest, C w →
      (∀ s t, s.cancelled = true → C t.worker → P (run s request rest t).worker) →
        P { w with activity := .running request rest })
    (closing : s.cancelled = true) (request : Request) (program : Program Sexp)
    (kept : C t.worker) : P (run s request program t).worker := by
  induction program generalizing s t with
  | done v =>
    rw [run, conclude]
    cases levels : t.worker.levels with
    | nil =>
      simp only [answerWorker, levels, List.isEmpty_nil, if_true]
      exact finished _ retireFinished
    | cons =>
      have nested : t.worker.levels.isEmpty = false := by simp [levels]
      simp only [answerWorker, nested, Bool.false_eq_true, if_false, toPromptWorker]
      exact prompt _ kept (by simp [levels])
  | stop failure => exact finished _ (trapFinished closing request failure)
  | write text next ih => exact ih closing kept
  | read next ih =>
    simp only [run, checkClosing closing]
    exact ih _ closing kept
  | check next ih =>
    simp only [run, checkClosing closing]
    exact ih _ closing kept
  | fetch name next ih => exact ih _ closing kept
  | assign name value next ih => exact ih closing kept
  | pause next ih =>
    rw [run]
    split
    · exact resting _ request next kept fun s t closing kept => ih closing kept
    · exact ih closing kept
  | spin next ih =>
    simp only [run, checkClosing closing]
    exact ih _ closing kept

theorem performTop (top : t.worker.levels = []) (s : Service) (request : Request) :
    (t.perform s request).worker.isFinished = true ∨
      t.perform s request = t.evaluate s request := by
  have concluded {u : Turn} (top : u.worker.levels = []) (value : Outcome) :
      (u.conclude request value).worker.isFinished = true := by
    simp only [conclude, answerWorker, top, List.isEmpty_nil, if_true]
    exact retireFinished
  unfold perform
  split
  · exact .inl (concluded top _)
  · exact .inr rfl
  next op _ =>
    obtain ⟨-, levels⟩ := executeActs s t request op
    rcases outcome : t.execute s op with ⟨result, u⟩
    rw [outcome] at levels
    have still : u.worker.levels = [] := levels.trans top
    refine .inl ?_
    cases result with
    | ok v => exact concluded still _
    | error escape =>
      cases escape with
      | abort reason => exact concluded still _
      | unwind target reason =>
        simp only [unwind, answerWorker, still, List.isEmpty_nil, if_true]
        exact retireFinished
      | resolve action =>
        simp only [resolve, answerWorker, still]
        exact retireFinished

theorem runTop (closing : s.cancelled = true) (top : t.worker.levels = []) (request : Request)
    (program : Program Sexp) : (run s request program t).worker.isFinished = true ∨
      (run s request program t).worker.AtTop := by
  refine runClosing (C := fun w => w.levels = []) (P := fun w => w.isFinished = true ∨ w.AtTop)
    (fun w => .inl) ?_ ?_ closing request program top
  · intro w top nested
    exact absurd top nested
  · intro w request rest top _
    exact .inr ⟨top, .inr ⟨request, rest, rfl⟩⟩

end Turn

namespace Worker
variable {s : Service} {w : Worker} {globals : Globals} {t : Turn}

theorem stepRunning (closing : s.cancelled = true) {request : Request} {rest : Program Sexp}
    (running : w.activity = .running request rest) :
    w.step s globals = some (Turn.run s request rest { worker := w, globals }) := by
  rcases w with ⟨me, activity, levels, mailbox, attached, backlog, interrupted, tag, returned⟩
  obtain rfl : activity = .running request rest := running
  cases rest with
  | spin next => simp only [step, Turn.run, Turn.checkClosing closing]
  | _ => rfl

theorem stepReady (closing : s.cancelled = true) (awake : w.isFinished = false)
    (ready : w.attached = true → w.AtTop) (globals : Globals) :
    (w.step s globals).isSome = true := by
  have waits (listens : w.listens) : w.attached = false :=
    Bool.eq_false_iff.mpr fun attached => (ready attached).busy listens
  rcases w with ⟨me, activity, levels, mailbox, attached, backlog, interrupted, tag, returned⟩
  cases activity with
  | starting => rfl
  | finished => contradiction
  | running => rw [stepRunning closing rfl, Option.isSome_some]
  | prompt =>
    obtain rfl : attached = false := waits (.inl rfl)
    cases backlog with
    | cons => rfl
    | nil => cases mailbox <;> rfl
  | reading =>
    obtain rfl : attached = false := waits (.inr ⟨_, _, _, rfl⟩)
    cases mailbox <;> rfl

theorem stepTop (closing : s.cancelled = true) (top : w.AtTop) (moved : w.step s globals = some t) :
    t.worker.isFinished = true ∨
      ∃ request program, t = Turn.run s request program { worker := w, globals } := by
  obtain ⟨levels, ⟨request, starting⟩ | ⟨request, rest, running⟩⟩ := top
  · have performed : t = ({ worker := w, globals } : Turn).perform s request := by
      rw [step, starting] at moved
      exact (Option.some.inj moved).symm
    rw [performed]
    have either := Turn.performTop (t := { worker := w, globals }) levels s request
    rcases either with finished | evaluated
    · exact .inl finished
    · exact .inr ⟨request, _, evaluated⟩
  · rw [stepRunning closing running] at moved
    exact .inr ⟨request, rest, (Option.some.inj moved).symm⟩

theorem stepStays (closing : s.cancelled = true) (top : w.AtTop)
    (moved : w.step s globals = some t) : t.worker.isFinished = true ∨ t.worker.AtTop := by
  rcases stepTop closing top moved with finished | ⟨request, program, rfl⟩
  · exact .inl finished
  · exact Turn.runTop closing top.1 request program

theorem stepPrompt (sound : w.Sound) (prompt : w.activity = .prompt)
    (moved : w.step s globals = some t) :
    t.worker.isFinished = true ∨ t.worker.load < w.load := by
  have nested := sound.prompt prompt
  have served {request : Request} {w' : Worker} (levels : w'.levels = w.levels)
      (less : w'.load < w.load) :
      (({ worker := w', globals } : Turn).perform s request).worker.load < w.load := by
    have grounded : DebugStack.Grounded w'.levels := levels ▸ sound.grounded
    have acts : Acts s ⟨.performing request, { worker := w', globals }⟩ ⟨.waiting, _⟩ :=
      Turn.performActs grounded
    have fewer := actsLoad acts
    exact Nat.lt_of_le_of_lt fewer less
  rcases w with ⟨me, activity, levels, mailbox, attached, backlog, interrupted, tag, returned⟩
  obtain rfl : activity = .prompt := prompt
  cases backlog with
  | cons request later =>
    obtain rfl := Option.some.inj ((stepTaken rfl rfl).symm.trans moved)
    exact .inr (served rfl (by simp [load]))
  | nil =>
    cases mailbox with
    | nil =>
      cases attached with
      | true => cases moved
      | false =>
        cases moved
        exact .inl (Turn.hangUpFinished nested)
    | cons event later =>
      cases event with
      | request request =>
        obtain rfl := Option.some.inj ((stepTaken rfl rfl).symm.trans moved)
        exact .inr (served rfl (by simp [load]))
      | readReply got text =>
        cases moved
        refine .inr ?_
        simp only [Turn.promptEvent, Turn.staleReply, Turn.background, Turn.sayWorker, load,
          List.length_cons]
        omega
      | wake =>
        simp only [step, Turn.promptEvent] at moved
        cases cancelled : s.cancelled with
        | true =>
          simp only [cancelled, if_true] at moved
          cases moved
          exact .inl (Turn.hangUpFinished nested)
        | false =>
          refine .inr ?_
          simp only [cancelled, Bool.false_eq_true, if_false] at moved
          split at moved <;> cases moved
          · rw [Turn.openLevelWorker]
            simp only [load, List.length_cons]
            omega
          · simp only [load, List.length_cons]
            omega

theorem stepReading (sound : w.Sound) {request : Request}
    {tag : Tag} {next : Except Condition String → Program Sexp}
    (reading : w.activity = .reading request tag next) (moved : w.step s globals = some t) :
    t.worker.load < w.load ∨ w.attached = false ∧
      t = Turn.run s request (next (.error .cancelled)) { worker := w, globals } := by
  have ran {program : Program Sexp} {u : Turn} (levels : u.worker.levels = w.levels)
      (less : u.worker.load < w.load) : (Turn.run s request program u).worker.load < w.load :=
    Nat.lt_of_le_of_lt (actsLoad (Turn.runActs program (levels ▸ sound.grounded))) less
  rcases w with ⟨me, activity, levels, mailbox, attached, backlog, interrupted, last, returned⟩
  obtain rfl : activity = .reading request tag next := reading
  cases mailbox with
  | nil =>
    cases attached with
    | true => cases moved
    | false =>
      cases moved
      exact .inr ⟨rfl, rfl⟩
  | cons event later =>
    have less : 2 * later.length + backlog.length < 2 * (later.length + 1) + backlog.length := by
      omega
    refine .inl ?_
    cases event with
    | request request =>
      cases moved
      simp only [load, Turn.readEvent, List.length_cons, List.length_append, List.length_nil]
      omega
    | readReply got text =>
      simp only [step, Turn.readEvent] at moved
      split at moved
      · cases moved
        exact ran rfl less
      · cases moved
        exact less
    | wake =>
      let t : Turn := { worker := ⟨me, .reading request tag next, levels, later, attached, backlog,
        interrupted, last, returned⟩, globals }
      have still : (t.check s).2.worker.levels = t.worker.levels := (Turn.checkActs s t .waiting).2
      have kept : (t.check s).2.worker.load = t.worker.load := t.checkLoad s
      rcases outcome : t.check s with ⟨answer, u⟩
      rw [outcome] at still kept
      simp only [step, Turn.readEvent] at moved
      rw [outcome] at moved
      cases answer with
      | error c =>
        cases moved
        exact ran still (kept ▸ less)
      | ok _ =>
        cases moved
        exact kept ▸ less

theorem Closes.step {cut : Bool} (closes : w.Closes cut) (closing : s.cancelled = true)
    (moved : w.step s globals = some t) (awake : t.worker.isFinished = false) :
    t.worker.Closes cut := by
  obtain ⟨sound, -, still⟩ := stepKeeps closes.sound moved
  refine ⟨sound, awake, fun cut attached => ?_⟩
  rcases stepStays closing (closes.top cut (still ▸ attached)) moved with finished | top
  · rw [awake] at finished
    contradiction
  · exact top

theorem finishedEnds (finished : w.isFinished = true) : Acc Succeeds w := by
  refine .intro _ ?_
  rintro _ ⟨u, s, globals, t, disturbed, closing, moved, rfl⟩
  rw [step, disturbed.activity.trans (finishedIff.mp finished)] at moved
  contradiction

theorem runEnds {C : Worker → Prop} (busy : ∀ w activity, C w → C { w with activity })
    (disturbed : ∀ w u, C w → w.Disturbed u → C u)
    (prompt : ∀ w, C w → w.levels ≠ [] →
      Acc Succeeds { w with activity := .prompt, returnedToPrompt := false })
    (closing : s.cancelled = true) (request : Request) (program : Program Sexp)
    (kept : C t.worker) : Acc Succeeds (Turn.run s request program t).worker := by
  refine Turn.runClosing (fun _ => finishedEnds) prompt ?_ closing request program kept
  intro w request rest kept ended
  refine .intro _ ?_
  rintro _ ⟨u, s, globals, t, between, closing, moved, rfl⟩
  rw [stepRunning closing between.activity] at moved
  cases moved
  exact ended s _ closing (disturbed _ u (busy w _ kept) between)

theorem topEnds (top : w.AtTop) : Acc Succeeds w := by
  refine .intro _ ?_
  rintro _ ⟨u, s, globals, t, disturbed, closing, moved, rfl⟩
  rcases stepTop closing (disturbed.atTop top) moved with finished | ⟨request, program, rfl⟩
  · exact finishedEnds finished
  refine runEnds (C := fun w => w.levels = []) (fun _ _ levels => levels) ?_ ?_ closing request
    program (disturbed.atTop top).1
  · intro w u levels disturbed
    exact disturbed.levels.trans levels
  · intro w levels nested
    exact absurd levels nested

/- By induction on what a worker still has to look at. A turn that takes no event goes on with the
same evaluation, and comes back to a prompt with no more to look at than before. -/
theorem aloneEnds (sound : w.Sound) (alone : w.attached = false) : Acc Succeeds w := by
  induction left : w.load using Nat.strongRecOn generalizing w with
  | _ n ih =>
    subst left
    have stepped {v : Worker} {s : Service} {globals : Globals} {t : Turn} (sound : v.Sound)
        (alone : v.attached = false) (moved : v.step s globals = some t)
        (less : t.worker.load < w.load) : Acc Succeeds t.worker := by
      obtain ⟨sound, -, attached⟩ := stepKeeps sound moved
      exact ih _ less sound (attached.trans alone) rfl
    have prompts {v : Worker} (sound : v.Sound) (alone : v.attached = false)
        (load : v.load ≤ w.load) (prompt : v.activity = .prompt) : Acc Succeeds v := by
      refine .intro _ ?_
      rintro _ ⟨u, s, globals, t, disturbed, closing, moved, rfl⟩
      obtain rfl := disturbed.alone alone
      rcases stepPrompt sound prompt moved with finished | less
      · exact finishedEnds finished
      · exact stepped sound alone moved (Nat.lt_of_lt_of_le less load)
    have runs {s : Service} {t : Turn} (closing : s.cancelled = true) (request : Request)
        (program : Program Sexp) (kept : t.worker.attached = false ∧
          DebugStack.Grounded t.worker.levels ∧ t.worker.load ≤ w.load) :
        Acc Succeeds (Turn.run s request program t).worker := by
      refine runEnds (C := fun v => v.attached = false ∧ DebugStack.Grounded v.levels ∧
        v.load ≤ w.load) (fun _ _ kept => kept) ?_ ?_ closing request program kept
      · rintro v u ⟨alone, grounded, load⟩ disturbed
        obtain rfl := disturbed.alone alone
        exact ⟨alone, grounded, load⟩
      · rintro v ⟨alone, grounded, load⟩ nested
        exact prompts ⟨grounded, fun _ => nested, nofun, nofun⟩ alone load rfl
    cases activity : w.activity with
    | finished => exact finishedEnds (finishedIff.mpr activity)
    | starting request =>
      exact topEnds ⟨(sound.starting request activity).1, .inl ⟨request, activity⟩⟩
    | prompt => exact prompts sound alone (Nat.le_refl _) activity
    | running request rest =>
      refine .intro _ ?_
      rintro _ ⟨u, s, globals, t, disturbed, closing, moved, rfl⟩
      obtain rfl := disturbed.alone alone
      rw [stepRunning closing activity] at moved
      cases moved
      exact runs closing request rest ⟨alone, sound.grounded, Nat.le_refl _⟩
    | reading request tag next =>
      refine .intro _ ?_
      rintro _ ⟨u, s, globals, t, disturbed, closing, moved, rfl⟩
      obtain rfl := disturbed.alone alone
      rcases stepReading sound activity moved with less | ⟨-, rfl⟩
      · exact stepped sound alone moved less
      · exact runs closing request _ ⟨alone, sound.grounded, Nat.le_refl _⟩

theorem Closes.ends (closes : w.Closes true) : Acc Succeeds w := by
  cases attached : w.attached with
  | true => exact topEnds (closes.top rfl attached)
  | false => exact aloneEnds closes.sound attached

end Worker
end RemoteEval
