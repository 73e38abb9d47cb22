import RemoteEval.Proofs.Calc.Obedience
import RemoteEval.Proofs.Worker.Unwinding

/-! What a turn makes of the mailbox, of reads and of interrupts. Once a turn has taken its event it
looks at no other. It ends at a read that it asks for, where the worker waits or rests without one,
or with the end of the worker, which empties the mailbox. The flag of an interrupt is only ever
taken down, and by a program that stops where it is told to for no more than one level. -/
namespace RemoteEval

def Utterance.ofReads : Utterance → Bool
  | .message (.readStringRequest ..) | .message (.readAborted ..)
  | .message (.backgroundMessage _) => true
  | _ => false

def Spoken.alarms (x : Spoken) : Bool :=
  match x.utterance, x.levels with
  | .message (.debugEnter ..), opened :: _ => opened.condition.kind = .interrupt
  | _, _ => false

namespace Activity

def Obeys : Activity → Prop
  | .running _ rest => rest.Obeys
  | .reading _ _ next => (∀ line, (next (.ok line)).Obeys) ∧ ∀ c, (next (.error c)).Heeds c
  | _ => True

def pending? : Activity → Option Tag
  | .reading _ tag _ => some tag
  | _ => none

end Activity

namespace Turn

/- The interrupts that have come to a level, with the one that is still to be taken. -/
def interrupts (t : Turn) : Nat := t.spoken.countP Spoken.alarms + t.worker.interrupted.toNat

def calm (t : Turn) : Turn := { t with worker := { t.worker with interrupted := false } }

def asking (t : Turn) (request : Request) (next : Except Condition String → Program Sexp) : Turn :=
  let tag := t.worker.lastTag + 1
  let t := { t with worker := { t.worker with lastTag := tag } }
  (t.say (.readStringRequest t.worker.me tag)).doing (.reading request tag next)

/- The turn has gone on without an event or a read. Only programs of a language that is `loyal` are
known to stop where they are told to. -/
structure Onward (loyal : Prop) (t u : Turn) : Prop where
  me : u.worker.me = t.worker.me
  mailbox : u.worker.mailbox = t.worker.mailbox
  lastTag : u.worker.lastTag = t.worker.lastTag
  flag : u.worker.interrupted = true → t.worker.interrupted = true
  spoken : ∃ new, u.spoken = t.spoken ++ new ∧ ∀ x ∈ new, x.utterance.ofReads = false
  interrupts : loyal → u.interrupts ≤ t.interrupts

inductive Comes (loyal : Prop) (t : Turn) : Turn → Prop where
  | halts {u} (onward : t.Onward loyal u) (awake : u.worker.isFinished = false)
      (idle : u.worker.activity.pending? = none) (obeys : loyal → u.worker.activity.Obeys) :
      t.Comes loyal u
  | asks {u request next} (onward : t.Onward loyal u)
      (obeys : loyal → Activity.Obeys (.reading request (u.worker.lastTag + 1) next)) :
      t.Comes loyal (u.asking request next)
  | retires {u} (onward : t.Onward loyal u) : t.Comes loyal u.retire

section
variable {loyal : Prop} {s : Service} {t u v : Turn}

theorem Onward.trans (first : t.Onward loyal u) (second : u.Onward loyal v) :
    t.Onward loyal v := by
  obtain ⟨new, spoken, plain⟩ := first.spoken
  obtain ⟨more, spoken', plain'⟩ := second.spoken
  refine ⟨second.me.trans first.me, second.mailbox.trans first.mailbox,
    second.lastTag.trans first.lastTag, first.flag ∘ second.flag,
    ⟨new ++ more, by rw [spoken', spoken, List.append_assoc], fun x member => ?_⟩,
    fun honest => Nat.le_trans (second.interrupts honest) (first.interrupts honest)⟩
  rcases List.mem_append.mp member with early | late
  · exact plain x early
  · exact plain' x late

theorem Onward.comes (onward : t.Onward loyal u) (comes : u.Comes loyal v) : t.Comes loyal v := by
  cases comes with
  | halts further awake idle obeys => exact .halts (onward.trans further) awake idle obeys
  | asks further obeys => exact .asks (onward.trans further) obeys
  | retires further => exact .retires (onward.trans further)

theorem Comes.flag (comes : t.Comes loyal u) (set : u.worker.interrupted = true) :
    t.worker.interrupted = true := by
  cases comes with
  | halts onward => exact onward.flag set
  | asks onward => exact onward.flag set
  | retires onward =>
    rw [retireEq] at set
    exact onward.flag set

theorem Comes.mailbox (comes : t.Comes loyal u) (awake : u.worker.isFinished = false) :
    u.worker.mailbox = t.worker.mailbox := by
  cases comes with
  | halts onward => exact onward.mailbox
  | asks onward => exact onward.mailbox
  | retires onward =>
    rw [retireEq] at awake
    contradiction

theorem Comes.obeys (comes : t.Comes loyal u) (honest : loyal) : u.worker.activity.Obeys := by
  cases comes with
  | halts _ _ _ obeys => exact obeys honest
  | asks _ obeys => exact obeys honest
  | retires =>
    rw [retireEq]
    trivial

theorem lastWordsCases {w : Worker} {utterance : Utterance} (said : utterance ∈ lastWords w) :
    (∃ text, utterance = .message (.backgroundMessage text)) ∨
    ∃ value id, utterance = .message (.returned w.me value id) := by
  rcases List.mem_append.mp said with reported | refused
  · obtain ⟨tag, -, rfl⟩ := List.mem_map.mp reported
    exact .inl ⟨_, rfl⟩
  · obtain ⟨request, -, rfl⟩ := List.mem_map.mp refused
    exact .inr ⟨_, _, rfl⟩

theorem lastWordsCalm (w : Worker) (levels : DebugStack Request) :
    ((lastWords w).map (⟨·, levels⟩)).countP Spoken.alarms = 0 := by
  rw [List.countP_eq_zero]
  intro x member
  obtain ⟨utterance, said, rfl⟩ := List.mem_map.mp member
  rcases lastWordsCases said with ⟨text, rfl⟩ | ⟨value, id, rfl⟩ <;> simp [Spoken.alarms]

theorem Comes.interrupts (comes : t.Comes loyal u) (honest : loyal) :
    u.interrupts ≤ t.interrupts := by
  cases comes with
  | halts onward => exact onward.interrupts honest
  | @asks v request next onward =>
    have same : (v.asking request next).interrupts = v.interrupts := by
      simp [Turn.interrupts, asking, doing, say, utter, Spoken.alarms]
    exact same ▸ onward.interrupts honest
  | @retires v onward =>
    have same : v.retire.interrupts = v.interrupts := by
      rw [retireEq]
      simp only [Turn.interrupts, List.countP_append, lastWordsCalm, Nat.add_zero]
    exact same ▸ onward.interrupts honest

theorem Onward.quiet (spoken : u.spoken = t.spoken) (me : u.worker.me = t.worker.me)
    (mailbox : u.worker.mailbox = t.worker.mailbox) (lastTag : u.worker.lastTag = t.worker.lastTag)
    (flag : u.worker.interrupted = t.worker.interrupted) : t.Onward loyal u := by
  refine ⟨me, mailbox, lastTag, fun set => flag ▸ set, ⟨[], by simp [spoken], by simp⟩,
    fun _ => Nat.le_of_eq ?_⟩
  rw [Turn.interrupts, Turn.interrupts, spoken, flag]

theorem onwardRefl (t : Turn) : t.Onward loyal t := .quiet rfl rfl rfl rfl rfl

theorem onwardUtter (t : Turn) {utterance : Utterance} (plain : utterance.ofReads = false)
    (calm : Spoken.alarms ⟨utterance, t.worker.levels⟩ = false) :
    t.Onward loyal (t.utter utterance) := by
  refine ⟨rfl, rfl, rfl, id, ⟨_, rfl, by simpa using plain⟩, fun _ => Nat.le_of_eq ?_⟩
  simp [Turn.interrupts, utter, calm]

theorem onwardAnswer (t : Turn) (value : Outcome) (id : RequestId) :
    t.Onward loyal (t.answer value id) := onwardUtter t rfl rfl

theorem onwardLeaveLevel (t : Turn) : t.Onward loyal t.leaveLevel := by
  have left : t.Onward loyal { t with worker := { t.worker with
      levels := t.worker.levels.tail, returnedToPrompt := true } } := .quiet rfl rfl rfl rfl rfl
  exact left.trans (onwardUtter _ rfl rfl)

theorem onwardMachineError (t : Turn) (e : Error) : t.Onward loyal (t.machineError e) :=
  onwardUtter t rfl rfl

theorem toPromptComes (t : Turn) : t.Comes loyal t.toPrompt := by
  have prompted : t.Onward loyal (t.doing .prompt) := .quiet rfl rfl rfl rfl rfl
  unfold toPrompt
  dsimp only
  split
  · have told : (t.doing .prompt).Onward loyal ((t.doing .prompt).say
        (.debugActivate t.worker.me (t.doing .prompt).level.toUInt64)) := onwardUtter _ rfl rfl
    exact .halts ((prompted.trans told).trans (.quiet rfl rfl rfl rfl rfl)) rfl rfl fun _ => trivial
  · exact .halts prompted rfl rfl fun _ => trivial

theorem concludeComes (t : Turn) (request : Request) (value : Outcome) :
    t.Comes loyal (t.conclude request value) := by
  have answered : t.Onward loyal (t.answer value request.id) := onwardAnswer t value request.id
  unfold conclude
  dsimp only
  split
  · exact .retires answered
  · exact answered.comes (toPromptComes _)

theorem collapseComes (target : Nat) (reason : Option String) (closing : DebugLevel Request)
    (below : DebugStack Request) (t : Turn) :
    t.Comes loyal (collapse target reason (closing :: below) t) := by
  induction below generalizing closing t with
  | nil =>
    have left : t.Onward loyal t.leaveLevel := onwardLeaveLevel t
    simp only [collapse, List.isEmpty_nil, if_true]
    cases closing.origin with
    | evaluation request => exact .retires (left.trans (onwardAnswer _ _ _))
    | prompt => exact .retires left
  | cons next rest ih =>
    have left : t.Onward loyal t.leaveLevel := onwardLeaveLevel t
    have round (u : Turn) : u.Comes loyal (if target < DebugStack.level (next :: rest) then
        collapse target reason (next :: rest) u else u.toPrompt) := by
      split
      · exact ih next u
      · exact toPromptComes u
    rw [collapse]
    simp only [List.isEmpty_cons, Bool.false_eq_true, if_false]
    cases closing.origin with
    | evaluation request => exact (left.trans (onwardAnswer _ _ _)).comes (round _)
    | prompt => exact left.comes (round _)

theorem hangUpComes (prompt : t.worker.activity = .prompt) : t.Comes loyal t.hangUp := by
  unfold hangUp
  cases levels : t.worker.levels with
  | nil =>
    rw [collapse]
    refine .halts (onwardRefl t) ?_ ?_ fun _ => ?_
    · simp [Worker.isFinished, prompt]
    · simp [Activity.pending?, prompt]
    · simp [Activity.Obeys, prompt]
  | cons closing below => exact collapseComes 0 _ closing below t

theorem unwindComes (t : Turn) (request : Request) (target : Nat) (reason : Option String) :
    t.Comes loyal (t.unwind request target reason) := by
  have answered : t.Onward loyal (t.answer (.abort reason) request.id) := onwardAnswer t _ _
  unfold unwind
  dsimp only
  split
  · exact .retires answered
  next nested =>
    refine answered.comes ?_
    split
    · obtain ⟨closing, below, levels⟩ :=
        List.exists_cons_of_ne_nil (l := t.worker.levels) (by simpa using nested)
      rw [answerWorker, levels]
      exact collapseComes target reason closing below _
    · exact toPromptComes _

theorem openLevelComes {c : Condition} {origin : Origin Request} (onward : t.Onward False u)
    (spare : loyal → u.interrupts + (if c.kind = .interrupt then 1 else 0) ≤ t.interrupts) :
    t.Comes loyal (u.openLevel s c origin) := by
  have told : u.Onward False (u.enter s c origin) :=
    ⟨rfl, rfl, rfl, id, ⟨_, enterSpoken .., by simp [Utterance.ofReads]⟩, False.elim⟩
  have count : (u.enter s c origin).interrupts =
      u.interrupts + if c.kind = .interrupt then 1 else 0 := by
    rw [Turn.interrupts, enterSpoken, enterWorker, List.countP_append, List.countP_singleton]
    simp only [Turn.interrupts, Spoken.alarms, decide_eq_true_eq]
    omega
  have entered : t.Onward loyal (u.enter s c origin) :=
    { onward.trans told with interrupts := fun honest => count ▸ spare honest }
  rcases openLevelEq u s c origin with same | ⟨e, same⟩
  · rw [same]
    exact .halts entered rfl rfl fun _ => trivial
  · rw [same]
    exact .halts (entered.trans (onwardMachineError _ e)) rfl rfl fun _ => trivial

theorem trapComes (t : Turn) (s : Service) (request : Request) {failure : Failure Condition}
    (own : loyal → ∀ c, failure = .failed c → c.kind ≠ .interrupt) :
    t.Comes loyal (t.trap s request failure) := by
  have either {c : Condition} (own : loyal → c.kind ≠ .interrupt) : t.Comes loyal
      (if c.isCancelled || s.cancelled then t.unwind request 0 (some connectionClosed)
      else t.openLevel s c (.evaluation request)) := by
    split
    · exact unwindComes t request 0 _
    · exact openLevelComes (onwardRefl t) fun honest => by simp [own honest]
  cases failure with
  | failed c => exact either fun honest => own honest c rfl
  | crashed reason => exact either fun _ => by simp [Condition.error]

theorem openLevelSpoken {c : Condition} {origin : Origin Request} (kind : c.kind = .interrupt) :
    ∃ opened rest, opened.alarms = true ∧ (t.openLevel s c origin).spoken =
      t.spoken ++ opened :: rest := by
  obtain ⟨opened, alarm, entered⟩ : ∃ opened : Spoken, opened.alarms = true ∧
      (t.enter s c origin).spoken = t.spoken ++ [opened] :=
    ⟨_, by simpa [Spoken.alarms] using kind, t.enterSpoken s c origin⟩
  rcases openLevelEq t s c origin with same | ⟨e, same⟩
  · exact ⟨opened, [], alarm, by rw [same, entered]⟩
  · have said : (t.openLevel s c origin).spoken = t.spoken ++ [opened] ++
        [⟨.message (.debugConditionText t.worker.me e.message),
          (t.enter s c origin).worker.levels⟩] := by
      rw [same, ← entered]
      rfl
    exact ⟨opened, _, alarm, by rw [said, List.append_assoc]; rfl⟩

theorem calmSpare (flag : t.worker.interrupted = true) : t.calm.interrupts + 1 = t.interrupts := by
  simp [Turn.interrupts, calm, flag]

theorem onwardCalm (flag : t.worker.interrupted = true) : t.Onward loyal t.calm := by
  refine ⟨rfl, rfl, rfl, by simp [calm], ⟨[], by simp [calm], by simp⟩, fun _ => ?_⟩
  have := calmSpare flag
  omega

theorem checkEq (t : Turn) (live : s.cancelled = false) : t.check s =
    if t.worker.interrupted then (.error .interrupt, t.calm) else (.ok (), t) := by
  simp [check, live, calm]

theorem runHeeds (live : s.cancelled = false) (request : Request) {p : Program Sexp}
    (heeds : p.Heeds .interrupt) (u : Turn) : ∃ frames, run s request p u =
      u.openLevel s { Condition.interrupt with frames } (.evaluation request) := by
  obtain ⟨frames, rfl⟩ := heeds
  refine ⟨frames, ?_⟩
  simp [Program.signal, run, trap, live, Condition.isCancelled, Condition.interrupt]

theorem toldComes (live : s.cancelled = false) (flag : t.worker.interrupted = true)
    {request : Request} {p : Program Sexp} (heeds : loyal → p.Heeds .interrupt)
    (disloyal : ¬ loyal → t.calm.Comes loyal (run s request p t.calm)) :
    t.Comes loyal (run s request p t.calm) := by
  by_cases honest : loyal
  · obtain ⟨frames, same⟩ := runHeeds live request (heeds honest) t.calm
    rw [same]
    refine openLevelComes (onwardCalm flag) fun _ => Nat.le_of_eq ?_
    simpa [Condition.interrupt] using calmSpare flag
  · exact (onwardCalm flag).comes (disloyal honest)

/- By induction on the program. Where it is told of the interrupt, a loyal one is over. -/
theorem runComes (live : s.cancelled = false) (request : Request) (program : Program Sexp)
    (obeys : loyal → program.Obeys) (t : Turn) : t.Comes loyal (run s request program t) := by
  induction program generalizing t with
  | done v => exact concludeComes t request _
  | stop failure =>
    refine trapComes t s request fun honest c same => ?_
    subst same
    exact obeys honest
  | write text next ih => exact (onwardUtter t rfl rfl).comes (ih obeys _)
  | read next ih =>
    rw [run, checkEq t live]
    cases flag : t.worker.interrupted with
    | true =>
      exact toldComes live flag (fun honest => (obeys honest).2 _)
        fun disloyal => ih _ (fun honest => absurd honest disloyal) _
    | false => exact .asks (onwardRefl t) obeys
  | check next ih =>
    rw [run, checkEq t live]
    cases flag : t.worker.interrupted with
    | true =>
      exact toldComes live flag (fun honest => (obeys honest).2 _)
        fun disloyal => ih _ (fun honest => absurd honest disloyal) _
    | false => exact ih _ (fun honest => (obeys honest).1) t
  | fetch name next ih => exact ih _ (fun honest => obeys honest _) t
  | assign name value next ih =>
    have stored : t.Onward loyal { t with globals := t.globals.assign name value } :=
      .quiet rfl rfl rfl rfl rfl
    exact stored.comes (ih obeys _)
  | pause next ih =>
    rw [run]
    split
    · exact .halts (.quiet rfl rfl rfl rfl rfl) rfl rfl obeys
    · exact ih obeys t
  | spin next ih =>
    rw [run, checkEq t live]
    cases flag : t.worker.interrupted with
    | true =>
      exact toldComes live flag (fun honest => obeys honest _)
        fun disloyal => ih _ (fun honest => absurd honest disloyal) _
    | false => exact .halts (.quiet rfl rfl rfl rfl rfl) rfl rfl obeys

variable (live : s.cancelled = false) (obeys : loyal → s.language.Obeys)
include live obeys

theorem evaluateComes (t : Turn) (request : Request) : t.Comes loyal (t.evaluate s request) :=
  runComes live request _ (fun honest => obeys honest _ _) t

theorem resolveComes (t : Turn) (request : Request) (action : RestartAction) :
    t.Comes loyal (t.resolve s request action) := by
  have answered : t.Onward loyal (t.answer (.abort none) request.id) := onwardAnswer t _ _
  unfold resolve
  simp only [answerWorker]
  split
  · exact .retires answered
  next closing below levels =>
    have left := answered.trans (onwardLeaveLevel _)
    split
    · exact left.comes (concludeComes _ _ _)
    · exact left.comes (evaluateComes live obeys _ _)
    · exact left.comes (toPromptComes _)

theorem performComes (t : Turn) (request : Request) : t.Comes loyal (t.perform s request) := by
  unfold perform
  split
  · exact concludeComes t request _
  · exact evaluateComes live obeys t request
  next op parsed =>
    have executed : t.Onward loyal (t.execute s op).2 := by
      rcases executeTurn t s op with same | ⟨e, same⟩
      · rw [same]
        exact onwardRefl t
      · rw [same]
        exact onwardMachineError t e
    rcases outcome : t.execute s op with ⟨result, u⟩
    rw [outcome] at executed
    cases result with
    | ok v => exact executed.comes (concludeComes u request _)
    | error escape =>
      cases escape with
      | abort reason => exact executed.comes (concludeComes u request _)
      | unwind target reason => exact executed.comes (unwindComes u request target reason)
      | resolve action => exact executed.comes (resolveComes live obeys u request action)

end
end Turn

namespace Worker

inductive Course (loyal : Prop) (s : Service) (globals : Globals) (w : Worker) : Turn → Prop where
  | works {mailbox backlog returnedToPrompt t} (idle : w.activity.pending? = none)
      (mail : w.mailbox = mailbox ∨ ∃ request, w.mailbox = .request request :: mailbox)
      (comes : ({ worker := { w with mailbox, backlog, returnedToPrompt }, globals } :
        Turn).Comes loyal t) : Course loyal s globals w t
  | defers {request later} (mail : w.mailbox = .request request :: later) :
      Course loyal s globals w
        { worker := { w with mailbox := later, backlog := w.backlog ++ [request] }, globals }
  | reports {tag text later} (other : w.activity.pending? ≠ some tag)
      (mail : w.mailbox = .readReply tag text :: later) : Course loyal s globals w
        (({ worker := { w with mailbox := later }, globals } : Turn).staleReply tag)
  | stirs {later} (calm : w.interrupted = false) (mail : w.mailbox = .wake :: later) :
      Course loyal s globals w { worker := { w with mailbox := later }, globals }
  | interrupts {later t} (idle : w.activity.pending? = none) (mail : w.mailbox = .wake :: later)
      (comes : ({ worker := { w with mailbox := later }, globals } : Turn).Comes loyal t)
      (calm : t.worker.interrupted = false) : Course loyal s globals w t
  | reads {request tag next text later} (reading : w.activity = .reading request tag next)
      (mail : w.mailbox = .readReply tag text :: later)
      (comes : ({ worker := { w with mailbox := later }, globals } : Turn).Comes loyal
        (Turn.run s request (next (.ok text)) { worker := { w with mailbox := later }, globals })) :
      Course loyal s globals w
        (Turn.run s request (next (.ok text)) { worker := { w with mailbox := later }, globals })
  | aborts {request tag next later t} (reading : w.activity = .reading request tag next)
      (mail : w.mailbox = .wake :: later)
      (comes : (({ worker := { w with mailbox := later }, globals } : Turn).say
        (.readAborted w.me tag)).Comes loyal t) (calm : t.worker.interrupted = false)
      (follows : loyal → ∃ opened rest, opened.alarms = true ∧
        t.spoken = ⟨.message (.readAborted w.me tag), w.levels⟩ :: opened :: rest) :
      Course loyal s globals w t
  | cut {t} (detached : w.attached = false)
      (comes : ({ worker := w, globals } : Turn).Comes loyal t) : Course loyal s globals w t

section
variable {loyal : Prop} {s : Service} {globals : Globals} {w : Worker} {later : List Event}

theorem promptCourse (live : s.cancelled = false) (obeys : loyal → s.language.Obeys)
    (prompt : w.activity = .prompt) {event : Event} (mail : w.mailbox = event :: later) :
    w.Course loyal s globals
      (({ worker := { w with mailbox := later }, globals } : Turn).promptEvent s event) := by
  have idle : w.activity.pending? = none := by rw [prompt]; rfl
  cases event with
  | request request => exact .works idle (.inr ⟨request, mail⟩) (Turn.performComes live obeys _ _)
  | readReply tag text => exact .reports (by simp [idle]) mail
  | wake =>
    simp only [Turn.promptEvent, live, Bool.false_eq_true, if_false]
    split
    next flag =>
      have onward : ({ worker := { w with mailbox := later }, globals } : Turn).Onward False
          { worker := { w with
            mailbox := later, interrupted := false, returnedToPrompt := false }, globals } :=
        (Turn.onwardCalm flag).trans (.quiet rfl rfl rfl rfl rfl)
      refine .interrupts idle mail (Turn.openLevelComes onward fun _ => Nat.le_of_eq ?_) ?_
      · simp [Turn.interrupts, Condition.interrupt, show w.interrupted = true from flag]
      · rcases Turn.openLevelEq { worker := { w with
          mailbox := later, interrupted := false, returnedToPrompt := false }, globals : Turn }
          s .interrupt .prompt with same | ⟨e, same⟩ <;> rw [same] <;> rfl
    next flag => exact .stirs (by simpa using flag) mail

theorem readCourse (live : s.cancelled = false) {request : Request} {tag : Tag}
    {next : Except Condition String → Program Sexp}
    (reading : w.activity = .reading request tag next) (obeys : loyal → w.activity.Obeys)
    {event : Event} (mail : w.mailbox = event :: later) : w.Course loyal s globals
      (({ worker := { w with mailbox := later }, globals } : Turn).readEvent s request tag next
        event) := by
  rw [reading] at obeys
  cases event with
  | request request => exact .defers mail
  | readReply got text =>
    unfold Turn.readEvent
    dsimp only
    split
    next same =>
      subst same
      exact .reads reading mail
        (Turn.runComes live request _ (fun honest => (obeys honest).1 text) _)
    next other =>
      refine .reports ?_ mail
      simpa [reading, Activity.pending?, eq_comm] using other
  | wake =>
    rw [Turn.readEvent, Turn.checkEq _ live]
    by_cases flag : w.interrupted = true
    · rw [if_pos flag]
      let u : Turn := ({ worker := { w with mailbox := later }, globals } : Turn).say
        (.readAborted w.me tag)
      have told :
          w.Course loyal s globals (Turn.run s request (next (.error .interrupt)) u.calm) := by
        refine .aborts reading mail (Turn.toldComes live flag (fun honest => (obeys honest).2 _)
          fun disloyal => Turn.runComes live request _ (fun honest => absurd honest disloyal) _) ?_
          fun honest => ?_
        · have comes : u.calm.Comes False (Turn.run s request (next (.error .interrupt)) u.calm) :=
            Turn.runComes live request _ False.elim _
          simpa [Turn.calm] using comes.flag
        · obtain ⟨frames, same⟩ := Turn.runHeeds live request ((obeys honest).2 .interrupt) u.calm
          rw [same]
          exact Turn.openLevelSpoken rfl
      exact told
    · rw [if_neg flag]
      exact .stirs (by simpa using flag) mail

theorem stepCourse {t : Turn} (live : s.cancelled = false) (language : loyal → s.language.Obeys)
    (obeys : loyal → w.activity.Obeys) (moved : w.step s globals = some t) :
    w.Course loyal s globals t := by
  unfold step at moved
  dsimp only at moved
  split at moved
  · contradiction
  next request starting =>
    cases moved
    exact .works (by simp [starting, Activity.pending?]) (.inl rfl)
      (Turn.performComes live language _ _)
  next request next running =>
    by_cases flag : w.interrupted = true
    · rw [Turn.checkEq _ live, if_pos flag] at moved
      cases moved
      rw [running] at obeys
      exact .works (by simp [running, Activity.pending?]) (.inl rfl)
        (Turn.toldComes live flag (fun honest => obeys honest _)
          fun disloyal => Turn.runComes live request _ (fun honest => absurd honest disloyal) _)
    · rw [Turn.checkEq _ live, if_neg flag] at moved
      cases moved
  next request rest _ running =>
    cases moved
    rw [running] at obeys
    exact .works (by simp [running, Activity.pending?]) (.inl rfl)
      (Turn.runComes live request rest obeys _)
  next prompt =>
    split at moved
    · cases moved
      exact .works (by simp [prompt, Activity.pending?]) (.inl rfl)
        (Turn.performComes live language _ _)
    next event later _ mail =>
      cases moved
      exact promptCourse live language prompt mail
    next backlog mail =>
      split at moved
      · cases moved
      next detached =>
        cases moved
        exact .cut (by simpa using detached) (Turn.hangUpComes prompt)
  next request tag next reading =>
    split at moved
    next event later mail =>
      cases moved
      exact readCourse live reading obeys mail
    next mail =>
      split at moved
      · cases moved
      next detached =>
        cases moved
        rw [reading] at obeys
        exact .cut (by simpa using detached) (Turn.runComes live request _
          (fun honest => Program.heedsObeys ((obeys honest).2 _) (by decide)) _)

end
end Worker
end RemoteEval
