import RemoteEval.Proofs.Worker.Acts

/-! How a worker conducts itself. Its stance is what matters for the things it may do
next: the request it is about, the open levels, the requests that wait for it and the
read it has announced. Each deed, which is to take up a request or to say something,
leads from one stance to the next. Every turn of a worker is a sequence of such deeds;
answers, debug levels and reads are accounted for from them alone. -/
namespace RemoteEval

inductive Task where
  | assigned (request : Request)
  /-- A level that the request had opened may have closed. -/
  | performing (request : Request) (closed : Bool)
  /-- The return to the prompt may be due to be reported. -/
  | prompting (due : Bool)
  | gone

structure Stance where
  task : Task
  levels : DebugStack Request := []
  queue : List Request := []
  asked : Option Tag := none

inductive Deed where
  | started (request : Request)
  | said (spoken : Spoken)

def Task.engaged : Task → Prop
  | .performing _ _ | .prompting false => True
  | _ => False

inductive Conduct (me : WorkerRef) : Stance → Deed → Stance → Prop where
  | start {request queue asked} :
      Conduct me ⟨.assigned request, [], queue, asked⟩ (.started request)
        ⟨.performing request false, [], queue, asked⟩
  | serve {request levels queue asked} (nested : levels ≠ []) :
      Conduct me ⟨.prompting false, levels, request :: queue, asked⟩ (.started request)
        ⟨.performing request false, levels, queue, asked⟩
  | aside {task levels queue asked utterance} (engaged : task.engaged)
      (aside : Aside me utterance) :
      Conduct me ⟨task, levels, queue, asked⟩ (.said ⟨utterance, levels⟩)
        ⟨task, levels, queue, asked⟩
  | ask {request closed levels queue asked} (tag : Tag) :
      Conduct me ⟨.performing request closed, levels, queue, asked⟩
        (.said ⟨.message (.readStringRequest me tag), levels⟩)
        ⟨.performing request closed, levels, queue, some tag⟩
  | abortRead {request closed levels queue tag} :
      Conduct me ⟨.performing request closed, levels, queue, some tag⟩
        (.said ⟨.message (.readAborted me tag), levels⟩)
        ⟨.performing request closed, levels, queue, none⟩
  | trap {request closed levels queue asked} (opened : DebugLevel Request) (frames)
      (origin : opened.origin = .evaluation request) :
      Conduct me ⟨.performing request closed, levels, queue, asked⟩
        (.said ⟨.message (.debugEnter me (levels.length + 1).toUInt64 opened.description
          opened.restartViews frames), opened :: levels⟩)
        ⟨.prompting false, opened :: levels, queue, asked⟩
  | interrupt {levels queue asked} (opened : DebugLevel Request) (frames)
      (origin : opened.origin = .prompt) (nested : levels ≠ []) :
      Conduct me ⟨.prompting false, levels, queue, asked⟩
        (.said ⟨.message (.debugEnter me (levels.length + 1).toUInt64 opened.description
          opened.restartViews frames), opened :: levels⟩)
        ⟨.prompting false, opened :: levels, queue, asked⟩
  | answer {request closed levels queue asked} (value : Outcome) (nested : levels ≠ []) :
      Conduct me ⟨.performing request closed, levels, queue, asked⟩
        (.said ⟨.message (.returned me value request.id), levels⟩)
        ⟨.prompting closed, levels, queue, asked⟩
  | finish {request closed queue asked} (value : Outcome) :
      Conduct me ⟨.performing request closed, [], queue, asked⟩
        (.said ⟨.message (.returned me value request.id), []⟩)
        ⟨.gone, [], queue, asked⟩
  | close {due closing levels queue asked request}
      (origin : closing.origin = .evaluation request) :
      Conduct me ⟨.prompting due, closing :: levels, queue, asked⟩
        (.said ⟨.message (.debugReturn me (levels.length + 1).toUInt64), levels⟩)
        ⟨.performing request true, levels, queue, asked⟩
  | resume {due closing levels queue asked} (origin : closing.origin = .prompt)
      (nested : levels ≠ []) :
      Conduct me ⟨.prompting due, closing :: levels, queue, asked⟩
        (.said ⟨.message (.debugReturn me (levels.length + 1).toUInt64), levels⟩)
        ⟨.prompting true, levels, queue, asked⟩
  | activate {levels queue asked} (nested : levels ≠ []) :
      Conduct me ⟨.prompting true, levels, queue, asked⟩
        (.said ⟨.message (.debugActivate me levels.length.toUInt64), levels⟩)
        ⟨.prompting false, levels, queue, asked⟩
  | refuse {request queue asked} :
      Conduct me ⟨.gone, [], request :: queue, asked⟩
        (.said ⟨.message (.returned me (.abort (some s!"worker {me} finished")) request.id), []⟩)
        ⟨.gone, [], queue, asked⟩
  | report {queue asked} (text : String) :
      Conduct me ⟨.gone, [], queue, asked⟩
        (.said ⟨.message (.backgroundMessage text), []⟩) ⟨.gone, [], queue, asked⟩

inductive Conducts (me : WorkerRef) : Stance → List Deed → Stance → Prop where
  | nil {stance} : Conducts me stance [] stance
  | cons {before deed between deeds after} (first : Conduct me before deed between)
      (rest : Conducts me between deeds after) : Conducts me before (deed :: deeds) after

namespace Conducts

theorem single {me before deed after} (conduct : Conduct me before deed after) :
    Conducts me before [deed] after := .cons conduct .nil

theorem append {me before first between second after}
    (left : Conducts me before first between) (right : Conducts me between second after) :
    Conducts me before (first ++ second) after := by
  induction left with
  | nil => exact right
  | cons conduct _ ih => exact .cons conduct (ih right)

end Conducts

def Event.request? : Event → Option Request
  | .request r => some r
  | _ => none

namespace Worker

def queue (w : Worker) : List Request := w.backlog ++ w.mailbox.filterMap Event.request?

def task (w : Worker) : Task :=
  match w.activity with
  | .starting request => .assigned request
  | .running request _ | .reading request _ _ => .performing request w.returnedToPrompt
  | .prompt => .prompting false
  | .finished => .gone

/- The read that is announced is not part of the worker's state once it is over. -/
def stance (w : Worker) (asked : Option Tag) : Stance := ⟨w.task, w.levels, w.queue, asked⟩

def awaits (w : Worker) (asked : Option Tag) : Prop :=
  ∀ request tag next, w.activity = .reading request tag next → asked = some tag

theorem awaitsSome (w : Worker) : ∃ asked, w.awaits asked := by
  cases activity : w.activity with
  | reading request tag next =>
    refine ⟨some tag, fun _ _ _ reading => ?_⟩
    rw [activity] at reading
    cases reading
    rfl
  | _ => exact ⟨none, by simp [awaits, activity]⟩

end Worker

namespace Moment

def task : Moment → Task
  | ⟨.waiting, t⟩ => t.worker.task
  | ⟨.performing request, t⟩ => .performing request t.worker.returnedToPrompt
  | ⟨.prompting, t⟩ => .prompting t.worker.returnedToPrompt
  | ⟨.left (.evaluation request), _⟩ => .performing request true
  | ⟨.left .prompt, _⟩ => .prompting true
  | ⟨.ended, _⟩ => .gone

def stance (μ : Moment) (asked : Option Tag) : Stance :=
  ⟨μ.task, μ.turn.worker.levels, μ.turn.worker.queue, asked⟩

def awaits (μ : Moment) (asked : Option Tag) : Prop :=
  match μ.phase with
  | .waiting => μ.turn.worker.awaits asked
  | _ => True

def Sound : Moment → Prop
  | ⟨.waiting, t⟩ => t.worker.Sound
  | ⟨.performing _, t⟩ => DebugStack.Grounded t.worker.levels
  | ⟨.prompting, t⟩ => DebugStack.Grounded t.worker.levels ∧ t.worker.levels ≠ []
  | ⟨.left origin, t⟩ => DebugStack.Grounded t.worker.levels ∧
      t.worker.returnedToPrompt = true ∧ (origin = .prompt → t.worker.levels ≠ [])
  | ⟨.ended, t⟩ => t.worker.levels = []

end Moment

namespace Turn

theorem foldUtter {α} (f : Worker → α → Utterance) (items : List α) (t : Turn) :
    items.foldl (fun t a => t.utter (f t.worker a)) t =
      { t with spoken := t.spoken ++ items.map fun a => ⟨f t.worker a, t.worker.levels⟩ } := by
  induction items generalizing t with
  | nil => simp
  | cons a rest ih =>
    rw [List.foldl_cons, ih]
    simp [utter]

def lastWords (w : Worker) : List Utterance :=
  (w.mailbox.filterMap fun
    | .readReply tag _ => some tag
    | _ => none).map (fun tag =>
      .message (.backgroundMessage (Error.tagNotFound w.me tag).message)) ++
  w.queue.map fun r =>
    .message (.returned w.me (.abort (some s!"worker {w.me} finished")) r.id)

theorem retireEq (t : Turn) : t.retire = { t with
    worker := { t.worker with activity := .finished, mailbox := [], backlog := [] }
    spoken := t.spoken ++ (lastWords t.worker).map (⟨·, t.worker.levels⟩) } := by
  have stale : ∀ (tags : List Tag) (u : Turn), tags.foldl staleReply u = { u with
      spoken := u.spoken ++ tags.map fun tag => ⟨.message (.backgroundMessage
        (Error.tagNotFound u.worker.me tag).message), u.worker.levels⟩ } :=
    foldUtter fun w tag => .message (.backgroundMessage (Error.tagNotFound w.me tag).message)
  have refused : ∀ (value : Outcome) (requests : List Request) (u : Turn),
      requests.foldl (fun u r => u.answer value r.id) u = { u with
        spoken := u.spoken ++ requests.map fun r =>
          ⟨.message (.returned u.worker.me value r.id), u.worker.levels⟩ } :=
    fun value => foldUtter fun w (r : Request) => .message (.returned w.me value r.id)
  simp only [retire, lastWords, Worker.queue, stale, refused, List.map_append, List.map_map,
    List.append_assoc]
  rfl

theorem lastWordsConduct {w : Worker} {asked : Option Tag} :
    Conducts w.me ⟨.gone, [], w.queue, asked⟩ (((lastWords w).map (⟨·, []⟩)).map .said)
      ⟨.gone, [], [], asked⟩ := by
  have reported : ∀ (tags : List Tag) (queue : List Request), Conducts w.me
      ⟨.gone, [], queue, asked⟩ (tags.map fun tag => .said ⟨.message (.backgroundMessage
        (Error.tagNotFound w.me tag).message), []⟩) ⟨.gone, [], queue, asked⟩ := by
    intro tags queue
    induction tags with
    | nil => exact .nil
    | cons tag rest ih => exact .cons (.report _) ih
  have refused : ∀ queue : List Request, Conducts w.me ⟨.gone, [], queue, asked⟩
      (queue.map fun r => .said ⟨.message (.returned w.me
        (.abort (some s!"worker {w.me} finished")) r.id), []⟩) ⟨.gone, [], [], asked⟩ := by
    intro queue
    induction queue with
    | nil => exact .nil
    | cons r rest ih => exact .cons .refuse ih
  simp only [lastWords, List.map_append, List.map_map]
  exact Conducts.append (reported _ w.queue) (refused w.queue)

end Turn

namespace Act
variable {s : Service} {before after : Moment}

theorem sound (act : Act s before after) (sound : before.Sound) : after.Sound := by
  cases act with
  | goOn | readOver | abortRead => exact Worker.Sound.grounded sound
  | discard mail =>
    refine ⟨sound.grounded, sound.prompt, sound.starting, fun finished => ?_⟩
    rw [(sound.finished finished).2.1] at mail
    contradiction
  | putOff reading =>
    refine ⟨sound.grounded, sound.prompt, sound.starting, fun finished => ?_⟩
    rw [show _ = _ from finished] at reading
    contradiction
  | remark => exact ⟨sound.grounded, sound.prompt, sound.starting, sound.finished⟩
  | @heed phase t =>
    cases phase with
    | waiting => exact ⟨sound.grounded, sound.prompt, sound.starting, sound.finished⟩
    | performing | prompting | left | ended => exact sound
  | interrupt prompt =>
    exact ⟨DebugStack.groundedCons sound.grounded (sound.prompt prompt),
      by simp [DebugStack.enter], by simp, by simp⟩
  | hangUp prompt levels cause =>
    have grounded := sound.grounded
    rw [levels] at grounded
    exact ⟨by simpa [levels] using DebugStack.groundedTail grounded, rfl,
      by simpa [levels] using DebugStack.groundedPrompt grounded⟩
  | store | comment => exact sound
  | ask | rest => exact ⟨sound, by simp, by simp, by simp⟩
  | trap c =>
    exact ⟨DebugStack.groundedEvaluation sound rfl, by simp [DebugStack.enter], by simp, by simp⟩
  | answer value nested => exact ⟨sound, nested⟩
  | finish value outermost => exact outermost
  | close levels =>
    have grounded := sound.1
    rw [levels] at grounded
    exact ⟨by simpa [levels] using DebugStack.groundedTail grounded, rfl,
      by simpa [levels] using DebugStack.groundedPrompt grounded⟩
  | again => exact sound.1
  | back levels => exact ⟨sound.1, levels⟩
  | activate | stay => exact ⟨sound.1, fun _ => sound.2, by simp, by simp⟩
  | retire => 
    rw [Turn.retireEq]
    exact ⟨by simp [show _ = _ from sound, DebugStack.Grounded], by simp, by simp,
      fun _ => ⟨sound, rfl, rfl⟩⟩

theorem keeps (act : Act s before after) :
    after.turn.worker.me = before.turn.worker.me ∧
    after.turn.worker.attached = before.turn.worker.attached := by
  cases act with
  | retire => rw [Turn.retireEq]; exact ⟨rfl, rfl⟩
  | _ => exact ⟨rfl, rfl⟩

theorem leaves {t : Turn} {phase : Phase} {closing below} {asked : Option Tag} {due : Bool}
    (levels : t.worker.levels = closing :: below)
    (grounded : DebugStack.Grounded t.worker.levels)
    (task : Moment.task ⟨phase, t⟩ = .prompting due) :
    ∃ new asked', t.leaveLevel.spoken = t.spoken ++ new ∧
      Conducts t.worker.me (Moment.stance ⟨phase, t⟩ asked) (new.map .said)
        (Moment.stance ⟨.left closing.origin, t.leaveLevel⟩ asked') ∧
      Moment.awaits ⟨.left closing.origin, t.leaveLevel⟩ asked' := by
  have spoken : t.leaveLevel.spoken = t.spoken ++
      [⟨.message (.debugReturn t.worker.me (below.length + 1).toUInt64), below⟩] := by
    simp [Turn.leaveLevel, Turn.say, Turn.utter, Turn.level, DebugStack.level, levels]
  rw [levels] at grounded
  refine ⟨_, asked, spoken, .single ?_, trivial⟩
  simp only [Moment.stance, task, levels, Turn.leaveLevelWorker, List.tail_cons]
  cases origin : closing.origin with
  | evaluation request => exact .close origin
  | prompt => exact .resume origin (DebugStack.groundedPrompt grounded origin)

theorem conducts (act : Act s before after) (sound : before.Sound) {asked : Option Tag}
    (awaits : before.awaits asked) :
    ∃ new asked', after.turn.spoken = before.turn.spoken ++ new ∧
      Conducts before.turn.worker.me (before.stance asked) (new.map .said)
        (after.stance asked') ∧ after.awaits asked' := by
  have silent : after.turn.spoken = before.turn.spoken →
      after.stance asked = before.stance asked → after.awaits asked →
      ∃ new asked', after.turn.spoken = before.turn.spoken ++ new ∧
        Conducts before.turn.worker.me (before.stance asked) (new.map .said)
          (after.stance asked') ∧ after.awaits asked' := by
    intro same stance awaits
    exact ⟨[], asked, by simp [same], by rw [stance]; exact .nil, awaits⟩
  cases act with
  | goOn running =>
    refine silent rfl ?_ trivial
    simp [Moment.stance, Moment.task, Worker.task, running]
  | @discard t event later mail listens other =>
    refine silent rfl ?_ awaits
    have none : event.request? = none := by
      cases event with
      | request r => exact absurd rfl (other r)
      | readReply | wake => rfl
    simp [Moment.stance, Moment.task, Worker.task, Worker.queue, mail, none]
  | putOff reading mail =>
    refine silent rfl ?_ awaits
    simp [Moment.stance, Moment.task, Worker.task, Worker.queue, mail, Event.request?]
  | @remark t utterance listens aside =>
    have engaged : t.worker.task.engaged := by
      rcases listens with prompt | ⟨request, tag, next, reading⟩
      · simp [Worker.task, prompt, Task.engaged]
      · simp [Worker.task, reading, Task.engaged]
    exact ⟨_, asked, rfl, .single (.aside engaged aside), awaits⟩
  | readOver reading =>
    refine silent rfl ?_ trivial
    simp [Moment.stance, Moment.task, Worker.task, reading]
  | abortRead reading =>
    cases awaits _ _ _ reading
    refine ⟨_, none, rfl, .single ?_, trivial⟩
    simpa [Moment.stance, Moment.task, Worker.task, reading] using Conduct.abortRead
  | @heed phase t =>
    refine silent rfl ?_ ?_
    · cases phase with
      | left origin => cases origin <;> rfl
      | waiting | performing | prompting | ended => rfl
    · cases phase with
      | waiting => exact awaits
      | performing | prompting | left | ended => trivial
  | interrupt prompt =>
    refine ⟨_, asked, Turn.enterSpoken .., .single ?_, by simp [Moment.awaits, Worker.awaits]⟩
    rw [Moment.stance, Moment.task, Worker.task, prompt]
    exact .interrupt _ _ rfl (sound.prompt prompt)
  | @hangUp t _ _ prompt levels =>
    have task : Moment.task ⟨.waiting, t⟩ = .prompting false := by
      simp [Moment.task, Worker.task, prompt]
    exact leaves levels sound.grounded task
  | store => exact silent rfl rfl trivial
  | comment aside => exact ⟨_, asked, rfl, .single (.aside trivial aside), trivial⟩
  | @ask t request next =>
    refine ⟨_, some (t.worker.lastTag + 1), rfl, .single (.ask _), ?_⟩
    simp [Moment.awaits, Worker.awaits]
  | rest => exact silent rfl rfl (by simp [Moment.awaits, Worker.awaits])
  | trap c =>
    exact ⟨_, asked, Turn.enterSpoken .., .single (.trap _ _ rfl),
      by simp [Moment.awaits, Worker.awaits]⟩
  | answer value nested => exact ⟨_, asked, rfl, .single (.answer value nested), trivial⟩
  | finish value outermost =>
    refine ⟨_, asked, rfl, .single ?_, trivial⟩
    simpa [Moment.stance, Moment.task, outermost] using Conduct.finish value
  | @close t _ _ levels =>
    have task : Moment.task ⟨.prompting, t⟩ = .prompting t.worker.returnedToPrompt := rfl
    exact leaves levels sound.1 task
  | again => 
    refine silent rfl ?_ trivial
    simp [Moment.stance, Moment.task, sound.2.1]
  | back levels =>
    refine silent rfl ?_ trivial
    simp [Moment.stance, Moment.task, sound.2.1]
  | activate returned => 
    refine ⟨_, asked, rfl, .single ?_, by simp [Moment.awaits, Worker.awaits]⟩
    rw [Moment.stance, Moment.task, returned]
    exact .activate sound.2
  | stay quiet =>
    refine silent rfl ?_ (by simp [Moment.awaits, Worker.awaits])
    rw [Moment.stance, Moment.stance, Moment.task, Moment.task, quiet]
    rfl
  | @retire t =>
    have outermost : t.worker.levels = [] := sound
    rw [Turn.retireEq]
    refine ⟨_, asked, rfl, ?_, by simp [Moment.awaits, Worker.awaits]⟩
    simp only [Moment.stance, Moment.task, Worker.task, outermost]
    exact Turn.lastWordsConduct

end Act

namespace Worker
variable {s : Service} {w : Worker} {asked : Option Tag}

theorem actsConduct {before after : Moment} (acts : Acts s before after) (sound : before.Sound)
    (awaits : before.awaits asked) :
    ∃ new asked', after.turn.spoken = before.turn.spoken ++ new ∧
      Conducts before.turn.worker.me (before.stance asked) (new.map .said)
        (after.stance asked') ∧ after.awaits asked' ∧ after.Sound ∧
      after.turn.worker.me = before.turn.worker.me ∧
      after.turn.worker.attached = before.turn.worker.attached := by
  induction acts with
  | refl => exact ⟨[], asked, by simp, .nil, awaits, sound, rfl, rfl⟩
  | tail _ act ih =>
    obtain ⟨new, between, spoken, conducts, awaits, sound, me, attached⟩ := ih
    obtain ⟨more, asked', said, conduct, awaits⟩ := act.conducts sound awaits
    obtain ⟨same, still⟩ := act.keeps
    rw [me] at conduct
    exact ⟨new ++ more, asked', by rw [said, spoken, List.append_assoc],
      by rw [List.map_append]; exact conducts.append conduct, awaits, act.sound sound,
      same.trans me, still.trans attached⟩

def startDeeds (w : Worker) : List Deed := w.taken?.toList.map fun taken => .started taken.1

theorem beginConduct (globals : Globals) (sound : w.Sound) (awaits : w.awaits asked) :
    Conducts w.me (w.stance asked) w.startDeeds ((w.begin globals).stance asked) ∧
    (w.begin globals).Sound ∧ (w.begin globals).awaits asked ∧
    (w.begin globals).turn.spoken = [] ∧ (w.begin globals).turn.worker.me = w.me ∧
    (w.begin globals).turn.worker.attached = w.attached := by
  rcases w with ⟨me, activity, levels, mailbox, attached, backlog, interrupted, tag, returned⟩
  have idle : Conducts me (stance ⟨me, activity, levels, mailbox, attached, backlog, interrupted,
      tag, returned⟩ asked) [] (Moment.stance ⟨.waiting, ⟨⟨me, activity, levels, mailbox, attached,
        backlog, interrupted, tag, returned⟩, globals, []⟩⟩ asked) := .nil
  cases activity with
  | starting request =>
    obtain ⟨rfl, rfl⟩ := sound.starting request rfl
    exact ⟨.single .start, trivial, trivial, rfl, rfl, rfl⟩
  | running | finished | reading => exact ⟨idle, sound, awaits, rfl, rfl, rfl⟩
  | prompt =>
    have nested := sound.prompt rfl
    cases backlog with
    | cons request later =>
      exact ⟨.single (.serve nested), sound.grounded, trivial, rfl, rfl, rfl⟩
    | nil =>
      cases mailbox with
      | nil => exact ⟨idle, sound, awaits, rfl, rfl, rfl⟩
      | cons event later =>
        cases event with
        | request request =>
          exact ⟨.single (.serve nested), sound.grounded, trivial, rfl, rfl, rfl⟩
        | readReply | wake => exact ⟨idle, sound, awaits, rfl, rfl, rfl⟩

def deeds (w : Worker) (t : Turn) : List Deed := w.startDeeds ++ t.spoken.map .said

theorem stepConduct {globals t} (sound : w.Sound) (awaits : w.awaits asked)
    (moved : w.step s globals = some t) :
    ∃ asked', Conducts w.me (w.stance asked) (w.deeds t) (t.worker.stance asked') ∧
      t.worker.awaits asked' ∧ t.worker.Sound ∧ t.worker.me = w.me ∧
      t.worker.attached = w.attached := by
  obtain ⟨began, begun, awaits, silent, me, attached⟩ := beginConduct globals sound awaits
  obtain ⟨new, asked', spoken, conducts, awaits, sound, same, still⟩ :=
    actsConduct (stepActs sound moved) begun awaits
  rw [silent, List.nil_append] at spoken
  have said : t.spoken = new := spoken
  rw [me] at conducts
  exact ⟨asked', by rw [deeds, said]; exact began.append conducts, awaits, sound,
    same.trans me, still.trans attached⟩

theorem actsKeep {globals t} (sound : w.Sound)
    (acts : Acts s (w.begin globals) ⟨.waiting, t⟩) :
    t.worker.Sound ∧ t.worker.me = w.me ∧ t.worker.attached = w.attached := by
  obtain ⟨asked, awaits⟩ := w.awaitsSome
  obtain ⟨-, begun, awaits, -, me, attached⟩ := beginConduct globals sound awaits
  obtain ⟨-, -, -, -, -, sound, same, still⟩ := actsConduct acts begun awaits
  exact ⟨sound, same.trans me, still.trans attached⟩

theorem stepKeeps {globals t} (sound : w.Sound) (moved : w.step s globals = some t) :
    t.worker.Sound ∧ t.worker.me = w.me ∧ t.worker.attached = w.attached :=
  actsKeep sound (stepActs sound moved)

end Worker
end RemoteEval
