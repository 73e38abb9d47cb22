import RemoteEval.Proofs.Worker.Closing
import RemoteEval.Proofs.Worker.Requests

/-! A worker that moves until it has to wait. If evaluations are run through their rests, each turn
ends at a prompt, in a read, at the worker's end, or in an evaluation that goes on for ever and
waits to be stopped. At a prompt and in a read a turn takes an event, so that the turns come to an
end. The mailbox is as it is at the beginning; nobody adds to it. -/
namespace RemoteEval

namespace Turn

def Arrived (s : Service) (t : Turn) : Prop :=
  t.worker.listens ∨ ∀ globals, t.worker.step s globals = none

variable {s : Service} {t : Turn}

theorem promptArrived (prompt : t.worker.activity = .prompt) : t.Arrived s := .inl (.inl prompt)

theorem finishedArrived (finished : t.worker.isFinished = true) : t.Arrived s :=
  .inr fun globals => by rw [Worker.step, Worker.finishedIff.mp finished]

theorem toPromptArrived : t.toPrompt.Arrived s := promptArrived (by rw [toPromptWorker])

theorem concludeArrived (request : Request) (value : Outcome) :
    (t.conclude request value).Arrived s := by
  unfold conclude
  dsimp only
  split
  · exact finishedArrived retireFinished
  · exact toPromptArrived

theorem Lands.arrived {w : Worker} {told : List Utterance} {k : Nat} (lands : t.Lands w told k) :
    t.Arrived s := by
  cases k with
  | zero => exact finishedArrived lands.finished
  | succ k => exact promptArrived (by rw [lands.worker, Worker.landed, if_neg (Nat.succ_ne_zero k)])

theorem unwindArrived (request : Request) (target : Nat) (reason : Option String) :
    (t.unwind request target reason).Arrived s := by
  by_cases inner : target < t.worker.levels.length
  · exact (unwindLands inner).arrived
  · have low : ¬ target < (t.answer (.abort reason) request.id).level := inner
    simp only [unwind, if_neg low]
    split
    · exact finishedArrived retireFinished
    · exact toPromptArrived

theorem openLevelArrived (c : Condition) (origin : Origin Request) :
    (t.openLevel s c origin).Arrived s := promptArrived (by rw [openLevelWorker])

theorem trapArrived (request : Request) (failure : Failure Condition) :
    (t.trap s request failure).Arrived s := by
  have either (c : Condition) : (if c.isCancelled || s.cancelled then
      t.unwind request 0 (some connectionClosed)
      else t.openLevel s c (.evaluation request)).Arrived s := by
    split
    · exact unwindArrived request 0 _
    · exact openLevelArrived _ _
  exact either _

theorem checkPassed {u : Turn} (passed : t.check s = (.ok (), u)) :
    u = t ∧ s.cancelled = false ∧ t.worker.interrupted = false := by
  unfold check at passed
  split at passed
  · cases passed
  next going =>
    split at passed <;> cases passed
    next calm => exact ⟨rfl, by simpa using going, by simpa using calm⟩

theorem checkPasses (going : s.cancelled = false) (calm : t.worker.interrupted = false) :
    t.check s = (.ok (), t) := by
  simp [check, going, calm]

theorem spinWaits {w : Worker} {globals : Globals} {request : Request}
    {next : Condition → Program Sexp} (going : s.cancelled = false) (calm : w.interrupted = false)
    (running : w.activity = .running request (.spin next)) : w.step s globals = none := by
  have passes := checkPasses (t := { worker := w, globals }) going calm
  simp only [Worker.step, running, passes]

/- By induction on the program. Only a program that goes on for ever is left running, and a safe
point did not stop it. -/
theorem runArrived (pace : s.pace = .throughRests) (request : Request) (program : Program Sexp) :
    (run s request program t).Arrived s := by
  induction program generalizing t with
  | done v => exact concludeArrived request (.ok v)
  | stop failure => exact trapArrived request failure
  | write text next ih => exact ih
  | read next ih =>
    rw [run]
    rcases t.check s with ⟨_ | _, u⟩
    · exact ih _
    · exact .inl (.inr ⟨request, _, next, rfl⟩)
  | check next ih => exact ih _
  | fetch name next ih => exact ih _
  | assign name value next ih => exact ih
  | pause next ih =>
    rw [run, pace]
    exact ih
  | spin next ih =>
    rw [run]
    rcases outcome : t.check s with ⟨_ | _, u⟩
    · exact ih _
    · obtain ⟨rfl, going, calm⟩ := checkPassed outcome
      refine .inr fun globals => ?_
      exact spinWaits going calm rfl

theorem resolveArrived (pace : s.pace = .throughRests) (request : Request)
    (action : RestartAction) : (t.resolve s request action).Arrived s := by
  unfold resolve
  dsimp only
  split
  · exact finishedArrived retireFinished
  · split
    · exact concludeArrived _ _
    · exact runArrived pace _ _
    · exact toPromptArrived

theorem performArrived (pace : s.pace = .throughRests) (request : Request) :
    (t.perform s request).Arrived s := by
  unfold perform
  split
  · exact concludeArrived request _
  · exact runArrived pace request _
  · split
    · exact concludeArrived request _
    · exact concludeArrived request _
    · exact unwindArrived request _ _
    · exact resolveArrived pace request _

theorem hangUpArrived (nested : t.worker.levels ≠ []) : t.hangUp.Arrived s :=
  finishedArrived (hangUpFinished nested)

theorem promptEventArrived (pace : s.pace = .throughRests)
    (prompt : t.worker.activity = .prompt) (nested : t.worker.levels ≠ []) (event : Event) :
    (t.promptEvent s event).Arrived s := by
  cases event with
  | request request => exact performArrived pace request
  | readReply tag text => exact promptArrived prompt
  | wake =>
    unfold promptEvent
    dsimp only
    split
    · exact hangUpArrived nested
    · split
      · exact openLevelArrived _ _
      · exact promptArrived prompt

theorem readEventArrived (pace : s.pace = .throughRests) {request : Request} {tag : Tag}
    {next : Except Condition String → Program Sexp}
    (reading : t.worker.activity = .reading request tag next) (event : Event) :
    (t.readEvent s request tag next event).Arrived s := by
  have waits {u : Turn} (still : u.worker.activity = .reading request tag next) : u.Arrived s :=
    .inl (.inr ⟨request, tag, next, still⟩)
  cases event with
  | request later => exact waits reading
  | readReply got text =>
    unfold readEvent
    dsimp only
    split
    · exact runArrived pace request _
    · exact waits reading
  | wake =>
    simp only [readEvent]
    split
    · exact runArrived pace request _
    next passed =>
      obtain ⟨rfl, -⟩ := checkPassed passed
      exact waits reading

end Turn

namespace Worker

/- The worker moves until it has to wait for an event or is gone, and says these things. -/
inductive Settles (s : Service) : Globals → Worker → List Utterance → Globals → Worker → Prop where
  | waits {globals w} (idle : w.step s globals = none) : Settles s globals w [] globals w
  | moves {globals w t said globals' w'} (moved : w.step s globals = some t)
      (rest : Settles s t.globals t.worker said globals' w') :
      Settles s globals w (t.said ++ said) globals' w'

variable {s : Service} {w w' : Worker} {globals globals' : Globals} {t : Turn}
  {said : List Utterance}

theorem stepArrived (pace : s.pace = .throughRests) (sound : w.Sound)
    (moved : w.step s globals = some t) : t.Arrived s := by
  rcases w with ⟨me, activity, levels, mailbox, attached, backlog, interrupted, last, returned⟩
  cases activity with
  | finished => cases moved
  | starting request =>
    cases moved
    exact Turn.performArrived pace request
  | running request rest =>
    cases rest with
    | spin next =>
      simp only [step] at moved
      split at moved <;> cases moved
      exact Turn.runArrived pace request _
    | _ =>
      cases moved
      exact Turn.runArrived pace request _
  | prompt =>
    have nested := sound.prompt rfl
    rcases backlog with _ | ⟨request, later⟩
    · rcases mailbox with _ | ⟨event, later⟩
      · cases attached <;> cases moved
        exact Turn.hangUpArrived nested
      · cases moved
        exact Turn.promptEventArrived pace rfl nested event
    · cases moved
      exact Turn.performArrived pace request
  | reading request tag next =>
    rcases mailbox with _ | ⟨event, later⟩
    · cases attached <;> cases moved
      exact Turn.runArrived pace request _
    · cases moved
      exact Turn.readEventArrived pace rfl event

theorem stepLess (sound : w.Sound) (attached : w.attached = true) (listens : w.listens)
    (moved : w.step s globals = some t) :
    t.worker.isFinished = true ∨ t.worker.load < w.load := by
  rcases listens with prompt | ⟨request, tag, next, reading⟩
  · exact stepPrompt sound prompt moved
  · refine .inr ((stepReading sound reading moved).resolve_right fun alone => ?_)
    rw [attached] at alone
    exact absurd alone.1 (by simp)

theorem listeningSettles (pace : s.pace = .throughRests) (sound : w.Sound)
    (attached : w.attached = true) (listens : w.listens) (globals : Globals) :
    ∃ said globals' w', Settles s globals w said globals' w' := by
  induction left : w.load using Nat.strongRecOn generalizing w globals with
  | _ n ih =>
    subst left
    cases moved : w.step s globals with
    | none => exact ⟨_, _, _, .waits moved⟩
    | some t =>
      obtain ⟨still, -, kept⟩ := stepKeeps sound moved
      rcases stepLess sound attached listens moved with finished | less
      · have gone : t.worker.step s t.globals = none := by rw [step, finishedIff.mp finished]
        exact ⟨_, _, _, .moves moved (.waits gone)⟩
      · rcases stepArrived pace sound moved with waiting | idle
        · obtain ⟨said, globals', w', settles⟩ :=
            ih _ less still (kept.trans attached) waiting t.globals rfl
          exact ⟨_, _, _, .moves moved settles⟩
        · exact ⟨_, _, _, .moves moved (.waits (idle _))⟩

theorem settlesAlways (pace : s.pace = .throughRests) (sound : w.Sound)
    (attached : w.attached = true) (globals : Globals) :
    ∃ said globals' w', Settles s globals w said globals' w' := by
  cases moved : w.step s globals with
  | none => exact ⟨_, _, _, .waits moved⟩
  | some t =>
    obtain ⟨still, -, kept⟩ := stepKeeps sound moved
    rcases stepArrived pace sound moved with waiting | idle
    · obtain ⟨said, globals', w', settles⟩ :=
        listeningSettles pace still (kept.trans attached) waiting t.globals
      exact ⟨_, _, _, .moves moved settles⟩
    · exact ⟨_, _, _, .moves moved (.waits (idle _))⟩

theorem stepHeld (sound : w.Sound) (moved : w.step s globals = some t) :
    w.held.Perm (t.said.filterMap Utterance.answered? ++ t.worker.held) := by
  obtain ⟨asked, awaits⟩ := w.awaitsSome
  obtain ⟨_, conducts, _⟩ := stepConduct sound awaits moved
  have owed := conducts.held
  rw [deedsAnswered, stanceHeld, stanceHeld] at owed
  exact owed

theorem Settles.keeps (settles : Settles s globals w said globals' w') (sound : w.Sound) :
    w'.Sound ∧ w'.me = w.me ∧ w'.attached = w.attached ∧
      w.held.Perm (said.filterMap Utterance.answered? ++ w'.held) := by
  induction settles with
  | waits => exact ⟨sound, rfl, rfl, .refl _⟩
  | moves moved rest ih =>
    obtain ⟨still, me, attached⟩ := stepKeeps sound moved
    obtain ⟨last, same, kept, owed⟩ := ih still
    refine ⟨last, same.trans me, kept.trans attached, (stepHeld sound moved).trans ?_⟩
    rw [List.filterMap_append, List.append_assoc]
    exact owed.append_left _

end Worker
end RemoteEval
