import RemoteEval.Proofs.Worker.Course

/-! Which prompts a turn makes active. A prompt is active again with the last thing that is said in
a turn, and the worker then waits there. So no prompt is made active that the turn unwinds past. A
turn that begins by closing a level is one of a worker that is cut off. -/
namespace RemoteEval

namespace Utterance

def activates : Utterance → Bool
  | .message (.debugActivate ..) => true
  | _ => false

def closes : Utterance → Bool
  | .message (.debugReturn ..) => true
  | _ => false

end Utterance

namespace Turn

/- Here `cut` is what has to be the case for a prompt to be left that was asked for nothing. -/
structure KeepsPrompts (cut : Prop) (t : Turn) : Prop where
  earlier : ∀ x ∈ t.spoken.dropLast, x.utterance.activates = false
  last : ∀ x ∈ t.spoken.getLast?, x.utterance.activates = true →
    t.worker.activity = .prompt ∧ t.worker.levels ≠ [] ∧
    x.utterance = .message (.debugActivate t.worker.me t.level.toUInt64)
  first : ∀ x ∈ t.spoken.head?, x.utterance.closes = true → cut

structure Underway (cut : Prop) (t : Turn) : Prop where
  silent : ∀ x ∈ t.spoken, x.utterance.activates = false
  first : ∀ x ∈ t.spoken.head?, x.utterance.closes = true → cut

inductive Ends (cut : Prop) : Turn → Prop where
  | silent {t : Turn} (underway : t.Underway cut) : Ends cut t
  | active {t : Turn} (underway : t.Underway cut) (prompt : t.worker.activity = .prompt)
      (nested : t.worker.levels ≠ []) :
      Ends cut { t.say (.debugActivate t.worker.me t.level.toUInt64) with
        worker := { t.worker with returnedToPrompt := false } }

section
variable {cut : Prop} {s : Service} {t u : Turn}

theorem Underway.alike (underway : t.Underway cut) (same : u.spoken = t.spoken) :
    u.Underway cut :=
  ⟨same ▸ underway.silent, same ▸ underway.first⟩

theorem headSaid {said : List Spoken} {x y : Spoken} (head : x ∈ (said ++ [y]).head?) :
    x ∈ said.head? ∨ said = [] ∧ x = y := by
  cases said with
  | nil => exact .inr ⟨rfl, by simpa using head.symm⟩
  | cons z rest => exact .inl head

theorem Underway.utter (underway : t.Underway cut) {what : Utterance}
    (silent : what.activates = false) (first : what.closes = true → cut ∨ t.spoken ≠ []) :
    (t.utter what).Underway cut := by
  refine ⟨List.forall_mem_append.mpr ⟨underway.silent, by simpa using silent⟩, fun x head closes => ?_⟩
  rcases headSaid head with before | ⟨none, rfl⟩
  · exact underway.first x before closes
  · exact (first closes).resolve_right fun some => some none

theorem Underway.aside (underway : t.Underway cut) {what : Utterance}
    (silent : what.activates = false) (plain : what.closes = false) : (t.utter what).Underway cut :=
  underway.utter silent fun closes => absurd closes (by simp [plain])

theorem Ends.keepsPrompts (ends : Ends cut t) : t.KeepsPrompts cut := by
  cases ends with
  | silent underway =>
    refine ⟨fun x member => underway.silent x (List.dropLast_subset _ member),
      fun x last active => ?_, underway.first⟩
    have silent := underway.silent x (List.mem_of_getLast? last)
    rw [active] at silent
    contradiction
  | @active t underway prompt nested =>
    have whole : (t.say (.debugActivate t.worker.me t.level.toUInt64)).spoken = t.spoken ++
        [⟨.message (.debugActivate t.worker.me t.level.toUInt64), t.worker.levels⟩] := rfl
    refine ⟨?_, fun x last _ => ?_, fun x head closes => ?_⟩
    · rw [whole, List.dropLast_concat]
      exact underway.silent
    · rw [whole, List.getLast?_concat] at last
      cases last
      exact ⟨prompt, nested, rfl⟩
    · rcases headSaid head with before | ⟨-, rfl⟩
      · exact underway.first x before closes
      · contradiction

theorem Underway.answer (underway : t.Underway cut) (value : Outcome) (id : RequestId) :
    (t.answer value id).Underway cut := underway.aside rfl rfl

theorem Underway.machineError (underway : t.Underway cut) (e : Error) :
    (t.machineError e).Underway cut := underway.aside rfl rfl

theorem Underway.leaveLevel (underway : t.Underway cut) (later : cut ∨ t.spoken ≠ []) :
    t.leaveLevel.Underway cut := by
  have same : Turn.Underway cut { t with worker := { t.worker with
      levels := t.worker.levels.tail, returnedToPrompt := true } } := underway.alike rfl
  exact same.utter rfl fun _ => later

theorem Underway.retire (underway : t.Underway cut) : t.retire.Underway cut := by
  have plain : ∀ what ∈ lastWords t.worker, what.activates = false ∧ what.closes = false := by
    intro what said
    rcases lastWordsCases said with ⟨text, rfl⟩ | ⟨value, id, rfl⟩ <;> exact ⟨rfl, rfl⟩
  have words : ∀ x ∈ (lastWords t.worker).map (⟨·, t.worker.levels⟩ : Utterance → Spoken),
      x.utterance.activates = false ∧ x.utterance.closes = false := by
    intro x member
    obtain ⟨what, said, rfl⟩ := List.mem_map.mp member
    exact plain what said
  rw [retireEq]
  refine ⟨List.forall_mem_append.mpr ⟨underway.silent, fun x last => (words x last).1⟩,
    fun x head closes => ?_⟩
  cases said : t.spoken with
  | nil =>
    simp only [said, List.nil_append] at head
    rw [(words x (List.mem_of_mem_head? head)).2] at closes
    contradiction
  | cons y rest => exact underway.first x (by simpa [said] using head) closes

theorem answerSaid (t : Turn) (value : Outcome) (id : RequestId) : (t.answer value id).spoken ≠ [] := by
  simp [Turn.answer, say, utter]

theorem toPromptEnds (underway : t.Underway cut) (nested : t.worker.levels ≠ []) :
    Ends cut t.toPrompt := by
  have prompted : (t.doing .prompt).Underway cut := underway.alike rfl
  unfold toPrompt
  dsimp only
  split
  · exact .active prompted rfl nested
  · exact .silent prompted

theorem concludeEnds (underway : t.Underway cut) (request : Request) (value : Outcome) :
    Ends cut (t.conclude request value) := by
  have answered := underway.answer value request.id
  unfold conclude
  dsimp only
  split
  · exact .silent answered.retire
  next nested => exact toPromptEnds answered (by simpa using nested)

/- By induction on the levels that close. -/
theorem collapseEnds (underway : t.Underway cut) (later : cut ∨ t.spoken ≠ []) (target : Nat)
    (reason : Option String) {closing : DebugLevel Request} {below : DebugStack Request}
    (levels : t.worker.levels = closing :: below) :
    Ends cut (collapse target reason (closing :: below) t) := by
  induction below generalizing closing t with
  | nil =>
    have left := underway.leaveLevel later
    simp only [collapse, List.isEmpty_nil, if_true]
    cases closing.origin with
    | evaluation request => exact .silent (left.answer _ _).retire
    | prompt => exact .silent left.retire
  | cons next rest ih =>
    have left := underway.leaveLevel later
    -- the rounds after the first begin with something said, if only that a level closed
    have round (u : Turn) (underway : u.Underway cut) (said : u.spoken ≠ [])
        (levels : u.worker.levels = next :: rest) :
        Ends cut (if target < DebugStack.level (next :: rest) then
          collapse target reason (next :: rest) u else u.toPrompt) := by
      split
      · exact ih underway (.inr said) levels
      · exact toPromptEnds underway (by simp [levels])
    have below : t.leaveLevel.worker.levels = next :: rest := by simp [levels]
    rw [collapse]
    simp only [List.isEmpty_cons, Bool.false_eq_true, if_false]
    cases closing.origin with
    | evaluation request => exact round _ (left.answer _ _) (answerSaid _ _ _) below
    | prompt => exact round _ left (by simp [Turn.leaveLevel, say, utter]) below

theorem hangUpEnds (underway : t.Underway cut) (later : cut) : Ends cut t.hangUp := by
  unfold hangUp
  cases levels : t.worker.levels with
  | nil => exact .silent underway
  | cons closing below => exact collapseEnds underway (.inl later) 0 _ levels

theorem unwindEnds (underway : t.Underway cut) (request : Request) (target : Nat)
    (reason : Option String) : Ends cut (t.unwind request target reason) := by
  have answered := underway.answer (.abort reason) request.id
  unfold unwind
  dsimp only
  split
  · exact .silent answered.retire
  next nested =>
    split
    · obtain ⟨closing, below, levels⟩ :=
        List.exists_cons_of_ne_nil (l := t.worker.levels) (by simpa using nested)
      rw [answerWorker, levels]
      exact collapseEnds answered (.inr (answerSaid t _ _)) target reason levels
    · exact toPromptEnds answered (by simpa using nested)

theorem openLevelUnderway (underway : t.Underway cut) (c : Condition) (origin : Origin Request) :
    (t.openLevel s c origin).Underway cut := by
  have entered : (t.enter s c origin).Underway cut := by
    have same : Turn.Underway cut ({ t with worker := { t.worker with
        levels := DebugStack.enter t.worker.levels c origin } }.doing .prompt) := underway.alike rfl
    exact same.aside rfl rfl
  rcases openLevelEq t s c origin with same | ⟨e, same⟩
  · exact same ▸ entered
  · exact same ▸ entered.machineError e

theorem trapEnds (underway : t.Underway cut) (request : Request) (failure : Failure Condition) :
    Ends cut (t.trap s request failure) := by
  have either (c : Condition) : Ends cut (if c.isCancelled || s.cancelled then
      t.unwind request 0 (some connectionClosed)
      else t.openLevel s c (.evaluation request)) := by
    split
    · exact unwindEnds underway request 0 _
    · exact .silent (openLevelUnderway underway c _)
  exact either _

theorem checkUnderway (underway : t.Underway cut) : (t.check s).2.Underway cut := by
  unfold check
  split
  · exact underway
  split
  · exact underway.alike rfl
  · exact underway

theorem runEnds (underway : t.Underway cut) (request : Request) (program : Program Sexp) :
    Ends cut (run s request program t) := by
  induction program generalizing t with
  | done v => exact concludeEnds underway request _
  | stop failure => exact trapEnds underway request failure
  | write text next ih => exact ih (underway.aside rfl rfl)
  | fetch name next ih => exact ih _ underway
  | assign name value next ih => exact ih (underway.alike rfl)
  | pause next ih =>
    rw [run]
    split
    · exact .silent (underway.alike rfl)
    · exact ih underway
  | check next ih => exact ih _ (checkUnderway underway)
  | read next ih =>
    have checked := checkUnderway (s := s) underway
    rw [run]
    rcases outcome : t.check s with ⟨answer, u⟩
    rw [outcome] at checked
    cases answer with
    | error c => exact ih _ checked
    | ok =>
      have tagged : Turn.Underway cut
          { u with worker := { u.worker with lastTag := u.worker.lastTag + 1 } } := checked.alike rfl
      have asked : Turn.Underway cut (Turn.say { u with worker := { u.worker with
          lastTag := u.worker.lastTag + 1 } } (.readStringRequest u.worker.me (u.worker.lastTag + 1))) :=
        tagged.aside rfl rfl
      exact .silent (asked.alike rfl)
  | spin next ih =>
    have checked := checkUnderway (s := s) underway
    rw [run]
    rcases outcome : t.check s with ⟨answer, u⟩
    rw [outcome] at checked
    cases answer with
    | error c => exact ih _ checked
    | ok => exact .silent (checked.alike rfl)

theorem resolveEnds (underway : t.Underway cut) (grounded : DebugStack.Grounded t.worker.levels)
    (request : Request) (action : RestartAction) : Ends cut (t.resolve s request action) := by
  have answered := underway.answer (.abort none) request.id
  unfold resolve
  simp only [answerWorker]
  split
  · exact .silent answered.retire
  next closing below levels =>
    have left := answered.leaveLevel (.inr (answerSaid t _ _))
    split
    · exact concludeEnds left _ _
    · exact runEnds left _ _
    next origin =>
      rw [levels] at grounded
      exact toPromptEnds left (by simpa [levels] using DebugStack.groundedPrompt grounded origin)

theorem performEnds (underway : t.Underway cut) (grounded : DebugStack.Grounded t.worker.levels)
    (request : Request) : Ends cut (t.perform s request) := by
  unfold perform
  split
  · exact concludeEnds underway request _
  · exact runEnds underway request _
  next op parsed =>
    have executed : (t.execute s op).2.Underway cut := by
      rcases executeTurn t s op with same | ⟨e, same⟩
      · rw [same]
        exact underway
      · rw [same]
        exact underway.machineError e
    have levels := (executeActs s t request op).2
    rcases outcome : t.execute s op with ⟨result, u⟩
    rw [outcome] at executed levels
    cases result with
    | ok v => exact concludeEnds executed request _
    | error escape =>
      cases escape with
      | abort reason => exact concludeEnds executed request _
      | unwind target reason => exact unwindEnds executed request target reason
      | resolve action => exact resolveEnds executed (levels ▸ grounded) request action

theorem serveEnds (underway : t.Underway cut) (grounded : DebugStack.Grounded t.worker.levels)
    (request : Request) : Ends cut (t.serve s request) := by
  have asked : Turn.Underway cut { t with worker := { t.worker with returnedToPrompt := false } } :=
    underway.alike rfl
  exact performEnds asked grounded request

theorem promptEventEnds (underway : t.Underway cut) (grounded : DebugStack.Grounded t.worker.levels)
    (closing : s.cancelled = true → cut) (event : Event) : Ends cut (t.promptEvent s event) := by
  cases event with
  | request request => exact serveEnds underway grounded request
  | readReply tag text => exact .silent (underway.aside rfl rfl)
  | wake =>
    unfold promptEvent
    dsimp only
    split
    next cancelled => exact hangUpEnds underway (closing cancelled)
    split
    · have heeded : Turn.Underway cut { t with worker := { t.worker with
          interrupted := false, returnedToPrompt := false } } := underway.alike rfl
      exact .silent (openLevelUnderway heeded _ _)
    · exact .silent underway

theorem readEventEnds (underway : t.Underway cut) (request : Request) (tag : Tag)
    (next : Except Condition String → Program Sexp) (event : Event) :
    Ends cut (t.readEvent s request tag next event) := by
  cases event with
  | request later => exact .silent (underway.alike rfl)
  | readReply got text =>
    unfold readEvent
    dsimp only
    split
    · exact runEnds underway request _
    · exact .silent (underway.aside rfl rfl)
  | wake =>
    have checked := checkUnderway (s := s) underway
    rw [readEvent]
    rcases outcome : t.check s with ⟨answer, u⟩
    rw [outcome] at checked
    cases answer with
    | error c => exact runEnds (checked.aside rfl rfl) request _
    | ok => exact .silent checked

end
end Turn

namespace Worker

theorem stepEnds {s : Service} {globals : Globals} {w : Worker} {t : Turn} (sound : w.Sound)
    (moved : w.step s globals = some t) :
    Turn.Ends (s.cancelled = true ∨ w.attached = false) t := by
  have fresh (v : Worker) : Turn.Underway (s.cancelled = true ∨ w.attached = false)
      { worker := v, globals } := ⟨by simp, by simp⟩
  unfold step at moved
  dsimp only at moved
  split at moved
  · contradiction
  · cases moved
    exact Turn.performEnds (fresh w) sound.grounded _
  next request next running =>
    have checked := Turn.checkUnderway (s := s) (fresh w)
    rcases outcome : ({ worker := w, globals } : Turn).check s with ⟨answer, u⟩
    rw [outcome] at moved checked
    cases answer with
    | error c =>
      cases moved
      exact Turn.runEnds checked request _
    | ok => contradiction
  · cases moved
    exact Turn.runEnds (fresh w) _ _
  · split at moved
    · cases moved
      refine Turn.serveEnds (fresh _) ?_ _
      exact sound.grounded
    · cases moved
      refine Turn.promptEventEnds (fresh _) ?_ .inl _
      exact sound.grounded
    · split at moved
      · contradiction
      next detached =>
        cases moved
        exact Turn.hangUpEnds (fresh w) (.inr (by simpa using detached))
  next request tag next reading =>
    split at moved
    · cases moved
      exact Turn.readEventEnds (fresh _) request tag next _
    · split at moved
      · contradiction
      · cases moved
        exact Turn.runEnds (fresh w) request _

end Worker
end RemoteEval
