import RemoteEval.Proofs.Session.Unwinding

/-! Operations that leave the debug levels as they are: questions about the innermost level, and
choices of a restart that is not to be had. Every operation is of this kind or closes a level. What
it comes to at a prompt is one answer, after a complaint if the debugger itself failed, and the
prompt has the state it had. Where no level is open, the operations of the debugger are refused. -/
namespace RemoteEval

/- The operations that the level of number `n` outlives. -/
inductive Stays (s : Service) (opened : DebugLevel Request) (n : Nat) : Operation → Prop where
  | connectionInfo : Stays s opened n .connectionInfo
  | arglist (name : String) : Stays s opened n (.arglist name)
  | findDefinition (name : String) : Stays s opened n (.findDefinition name)
  | backtrace (first : Nat) (last : Option Nat) : Stays s opened n (.backtrace first last)
  | frameLocals (frame : Nat) : Stays s opened n (.frameLocals frame)
  | debuggerInfo (first : Nat) (last : Option Nat) : Stays s opened n (.debuggerInfo first last)
  | otherLevel {level index : Nat} (other : level ≠ n) :
      Stays s opened n (.invokeRestart level index)
  | notOffered {index : Nat}
      (absent : (offeredRestarts opened.condition opened.origin n)[index]? = none) :
      Stays s opened n (.invokeRestart n index)
  | unnamed (absent : ∀ r ∈ offeredRestarts opened.condition opened.origin n,
      r.view.name ≠ "CONTINUE") : Stays s opened n .continue
  | refused {op r index failure} (picks : Picks opened n op r) (kind : r.kind = .language index)
      (error : s.language.invokeRestart opened.condition index = .error failure) :
      Stays s opened n op

theorem offeredUnwind {c : Condition} {origin : Origin Request} {n k index : Nat}
    {r : OfferedRestart} (place : (offeredRestarts c origin n)[index]? = some r)
    (unwinds : r.kind = .unwind k) : k < n ∧ index = abortIndex c n k ∧ r = abortTo k := by
  have length := ownLength c origin n
  rw [offeredEq] at place
  by_cases inner : index < c.restarts.length + if c.kind = .interrupt then 1 else 0
  · rw [List.getElem?_append_left (by rw [length]; exact inner)] at place
    have resolves := ownResolves c origin n r (List.mem_of_getElem? place)
    rw [unwinds] at resolves
    exact absurd rfl resolves
  · rw [List.getElem?_append_right (by rw [length]; omega), length, List.getElem?_map,
      Option.map_eq_some_iff] at place
    obtain ⟨level, found, rfl⟩ := place
    obtain ⟨bound, same⟩ := List.getElem?_eq_some_iff.mp found
    rw [List.getElem_reverse, List.getElem_range] at same
    simp only [List.length_reverse, List.length_range] at bound same
    cases unwinds
    refine ⟨by omega, ?_, rfl⟩
    rw [abortIndex]
    omega

theorem Picks.closes (s : Service) {opened : DebugLevel Request} {n : Nat} {op : Operation}
    {r : OfferedRestart} (picks : Picks opened n op r) :
    Stays s opened n op ∨ (∃ k, r.kind = .unwind k) ∨
      ∃ action, r.kind.action? s opened.condition = some action := by
  cases kind : r.kind with
  | language index =>
    cases made : s.language.invokeRestart opened.condition index with
    | error failure => exact .inl (.refused picks kind made)
    | ok action => exact .inr (.inr ⟨action, by simp [RestartKind.action?, made, Except.toOption]⟩)
  | retry => exact .inr (.inr ⟨_, rfl⟩)
  | «continue» => exact .inr (.inr ⟨_, rfl⟩)
  | unwind k => exact .inr (.inl ⟨k, rfl⟩)

theorem staysOrCloses (s : Service) (opened : DebugLevel Request) (below : DebugStack Request)
    (op : Operation) :
    Stays s opened (below.length + 1) op ∨ (∃ k, Chooses (opened :: below) op k) ∨
      ∃ r action, Picks opened (below.length + 1) op r ∧
        r.kind.action? s opened.condition = some action := by
  cases op with
  | connectionInfo => exact .inl .connectionInfo
  | arglist name => exact .inl (.arglist name)
  | findDefinition name => exact .inl (.findDefinition name)
  | backtrace first last => exact .inl (.backtrace first last)
  | frameLocals frame => exact .inl (.frameLocals frame)
  | debuggerInfo first last => exact .inl (.debuggerInfo first last)
  | abort => exact .inr (.inl ⟨_, .abort⟩)
  | throwToToplevel => exact .inr (.inl ⟨_, .toplevel⟩)
  | invokeRestart level index =>
    by_cases this : level = below.length + 1
    · subst this
      cases place : (offeredRestarts opened.condition opened.origin (below.length + 1))[index]? with
      | none => exact .inl (.notOffered place)
      | some r =>
        have picks : Picks opened (below.length + 1) (.invokeRestart (below.length + 1) index) r :=
          .indexed place
        rcases picks.closes s with stays | ⟨k, unwinds⟩ | ⟨action, resolves⟩
        · exact .inl stays
        · obtain ⟨inner, rfl, -⟩ := offeredUnwind place unwinds
          exact .inr (.inl ⟨k, .restart inner⟩)
        · exact .inr (.inr ⟨r, action, picks, resolves⟩)
    · exact .inl (.otherLevel this)
  | «continue» =>
    cases first : (offeredRestarts opened.condition opened.origin (below.length + 1)).find?
        (·.view.name == "CONTINUE") with
    | none =>
      refine .inl (.unnamed fun r member => ?_)
      simpa using List.find?_eq_none.mp first r member
    | some r =>
      have picks : Picks opened (below.length + 1) .continue r := .named first
      rcases picks.closes s with stays | ⟨k, unwinds⟩ | ⟨action, resolves⟩
      · exact .inl stays
      · obtain ⟨index, place⟩ := List.getElem?_of_mem (List.mem_of_find?_eq_some first)
        obtain ⟨-, -, rfl⟩ := offeredUnwind place unwinds
        have name := List.find?_some first
        simp [abortTo] at name
      · exact .inr (.inr ⟨r, action, picks, resolves⟩)

namespace Turn
variable {s : Service} {t : Turn} {opened : DebugLevel Request} {below : DebugStack Request}
  {op : Operation}

inductive Inspects (t : Turn) : Except Escape Sexp × Turn → Prop where
  | value (v : Sexp) : Inspects t (.ok v, t)
  | abort (reason : Option String) : Inspects t (.error (.abort reason), t)
  | refuse (e : Error) : Inspects t (t.refuse e)

theorem backtraceInspects (first : Nat) (last : Option Nat) :
    t.Inspects (t.backtrace s first last) := by
  unfold backtrace
  split
  · exact .value _
  · exact .refuse _

theorem executeStays (levels : t.worker.levels = opened :: below)
    (offering : DebugStack.Offering t.worker.levels)
    (stays : Stays s opened (below.length + 1) op) : t.Inspects (t.execute s op) := by
  have offered := offering opened below (levels ▸ List.suffix_rfl)
  have condition : t.condition = opened.condition := by
    simp [condition, DebugStack.current?, levels]
  have nested : t.worker.levels.isEmpty = false := by simp [levels]
  simp only [execute, nested, Bool.and_false, Bool.false_eq_true, if_false]
  cases stays with
  | connectionInfo | arglist => exact .value _
  | findDefinition name =>
    dsimp only
    split
    · exact .value _
    · exact .abort _
  | backtrace first last => exact backtraceInspects first last
  | frameLocals frame =>
    dsimp only
    split
    · exact .value _
    · exact .refuse _
  | debuggerInfo first last =>
    have traced := t.backtraceInspects (s := s) first last
    have current : DebugStack.current? t.worker.levels = some opened := by
      simp [DebugStack.current?, levels]
    dsimp only
    rw [current]
    generalize t.backtrace s first last = result at traced
    cases traced with
    | value v => exact .value _
    | abort reason => exact .abort reason
    | refuse e => exact .refuse e
  | @otherLevel level index other =>
    have picked : DebugStack.restart t.worker.levels level index =
        .error (.otherLevel level (below.length + 1)) := by
      simp [DebugStack.restart, DebugStack.level, levels, other]
    simp only [picked]
    exact .refuse _
  | @notOffered index absent =>
    have picked : DebugStack.restart t.worker.levels (below.length + 1) index =
        .error (.noSuchRestart index (below.length + 1)) := by
      simp [DebugStack.restart, DebugStack.level, levels, offered, absent]
    simp only [picked]
    exact .refuse _
  | unnamed absent =>
    have picked : DebugStack.findRestart t.worker.levels "CONTINUE" = none := by
      simpa [DebugStack.findRestart, DebugStack.current?, levels, offered] using absent
    simp only [picked]
    exact .abort _
  | refused picks kind error =>
    have picked := executePicked (s := s) levels offering picks
    simp only [execute, nested, Bool.and_false, Bool.false_eq_true, if_false] at picked
    rw [picked, kind, restart, condition, error]
    exact .refuse _

inductive Answered (me : WorkerRef) (id : RequestId) : List Utterance → Prop where
  | plain (value : Outcome) : Answered me id [.message (.returned me value id)]
  | complaint (text : String) : Answered me id
      [.message (.debugConditionText me text), .message (.returned me (.abort (some text)) id)]

structure Stood (t : Turn) (w : Worker) (globals : Globals) (id : RequestId) : Prop where
  worker : t.worker = w
  globals : t.globals = globals
  said : Answered w.me id t.said

theorem concludeKeeps {request : Request} {value : Outcome} (nested : t.worker.levels ≠ [])
    (prompt : t.worker.activity = .prompt) (quiet : t.worker.returnedToPrompt = false) :
    t.conclude request value = t.answer value request.id := by
  have same : (t.answer value request.id).doing .prompt = t.answer value request.id := by
    rw [doing, answerWorker, ← prompt]
    rfl
  simp [conclude, nested, toPrompt, same, quiet]

theorem performStands {w : Worker} {globals : Globals} {request : Request}
    (levels : w.levels = opened :: below) (offering : DebugStack.Offering w.levels)
    (prompt : w.activity = .prompt) (quiet : w.returnedToPrompt = false)
    (asked : (∃ e, Operation.parse request.form = .error e) ∨
      ∃ op, Operation.parse request.form = .ok (some op) ∧ Stays s opened (below.length + 1) op) :
    (({ worker := w, globals } : Turn).perform s request).Stood w globals request.id := by
  have nested : w.levels ≠ [] := by simp [levels]
  unfold perform
  rcases asked with ⟨e, parsed⟩ | ⟨op, parsed, stays⟩
  · rw [parsed]
    dsimp only
    rw [concludeKeeps nested prompt quiet]
    exact ⟨rfl, rfl, .plain _⟩
  · rw [parsed]
    dsimp only
    have inspects := executeStays (t := { worker := w, globals }) levels offering stays
    generalize Turn.execute { worker := w, globals } s op = result at inspects
    cases inspects with
    | value v =>
      dsimp only
      rw [concludeKeeps nested prompt quiet]
      exact ⟨rfl, rfl, .plain _⟩
    | abort reason =>
      dsimp only
      rw [concludeKeeps nested prompt quiet]
      exact ⟨rfl, rfl, .plain _⟩
    | refuse e =>
      simp only [refuse]
      rw [concludeKeeps (t := machineError { worker := w, globals } e) nested prompt quiet]
      exact ⟨rfl, rfl, .complaint _⟩

theorem performRefused {w : Worker} (s : Service) (globals : Globals) {request : Request}
    (levels : w.levels = []) (asked : (∃ e, Operation.parse request.form = .error e) ∨
      ∃ op, Operation.parse request.form = .ok (some op) ∧ op.needsDebugger = true) :
    ∃ reason, (({ worker := w, globals } : Turn).perform s request).said =
        .message (.returned w.me (.abort (some reason)) request.id) :: lastWords w ∧
      (({ worker := w, globals } : Turn).perform s request).worker =
        { w with activity := .finished, mailbox := [], backlog := [] } ∧
      (({ worker := w, globals } : Turn).perform s request).globals = globals := by
  have refused (reason : String) :
      let t := ({ worker := w, globals } : Turn).conclude request (.abort (some reason))
      t.said = .message (.returned w.me (.abort (some reason)) request.id) :: lastWords w ∧
      t.worker = { w with activity := .finished, mailbox := [], backlog := [] } ∧
      t.globals = globals := by
    have retired : ({ worker := w, globals } : Turn).conclude request (.abort (some reason)) =
        (({ worker := w, globals } : Turn).answer (.abort (some reason)) request.id).retire := by
      simp [conclude, levels]
    simp only [retired, saidRetire]
    rw [retireEq]
    exact ⟨rfl, rfl, rfl⟩
  rcases asked with ⟨e, parsed⟩ | ⟨op, parsed, needs⟩
  · refine ⟨e.toError.message, ?_⟩
    simp only [perform, parsed]
    exact refused _
  · have executed : ({ worker := w, globals } : Turn).execute s op =
        (.error (.abort (some s!"worker {w.me} is not in the debugger")),
          { worker := w, globals }) := by
      simp [execute, needs, levels]
    refine ⟨s!"worker {w.me} is not in the debugger", ?_⟩
    simp only [perform, parsed, executed]
    exact refused _

end Turn

theorem Worker.takenFrom {w w' : Worker} {request : Request} (prompt : w.activity = .prompt)
    (taken : w.taken? = some (request, w')) :
    (∃ later, w.backlog = request :: later ∧
      w' = { w with backlog := later, returnedToPrompt := false }) ∨
    (∃ later, w.backlog = [] ∧ w.mailbox = .request request :: later ∧
      w' = { w with mailbox := later, returnedToPrompt := false }) := by
  rcases w with ⟨me, activity, levels, mailbox, attached, backlog, interrupted, tag, returned⟩
  obtain rfl : activity = .prompt := prompt
  cases backlog with
  | cons next later =>
    cases taken
    exact .inl ⟨later, rfl, rfl⟩
  | nil =>
    cases mailbox with
    | nil => cases taken
    | cons event later =>
      cases event with
      | request next =>
        cases taken
        exact .inr ⟨later, rfl, rfl, rfl⟩
      | readReply | wake => cases taken

namespace Log

/- A request for an operation that neither resolves nor unwinds the level changes nothing at the
prompt but that it is gone, and has one answer. As an outermost request it is refused if it is for
the debugger, and no level opens. -/
theorem operationsKeepLevels (service : Service) (port : UInt16) (moves : List Move)
    {worker : WorkerId} {w : Worker}
    (found : ((opening service port).run moves).session.workers.get? worker = some w) :
    (w.activity = .prompt → ∃ opened below, w.levels = opened :: below ∧
      ∀ request w', w.taken? = some (request, w') →
      ((∃ later, w.backlog = request :: later ∧
          w' = { w with backlog := later, returnedToPrompt := false }) ∨
        ∃ later, w.backlog = [] ∧ w.mailbox = .request request :: later ∧
          w' = { w with mailbox := later, returnedToPrompt := false }) ∧
      ∀ s globals, ∃ t, w.step s globals = some t ∧
      (∀ e, Operation.parse request.form = .error e → t.Stood w' globals request.id) ∧
      ∀ op, Operation.parse request.form = .ok (some op) →
        (¬ (∃ k, Chooses w.levels op k) → ¬ (∃ r action, Picks opened (below.length + 1) op r ∧
            r.kind.action? s opened.condition = some action) →
          Stays s opened (below.length + 1) op) ∧
        (Stays s opened (below.length + 1) op → t.Stood w' globals request.id)) ∧
    ∀ request, w.activity = .starting request → ∀ s globals,
      ((∃ e, Operation.parse request.form = .error e) ∨
        ∃ op, Operation.parse request.form = .ok (some op) ∧ op.needsDebugger = true) →
      ∃ t reason, w.step s globals = some t ∧ t.worker.levels = [] ∧
        t.worker.activity = .finished ∧ t.globals = globals ∧
        t.said =
          .message (.returned w.me (.abort (some reason)) request.id) :: Turn.lastWords w := by
  have sound := (runOrderly (openingOrderly service port) moves).sound found
  have shown := runShows (openingShows service port) (openingOrderly service port) moves _ w found
  refine ⟨fun prompt => ?_, fun request starting s globals asked => ?_⟩
  · obtain ⟨opened, below, levels⟩ := List.exists_cons_of_ne_nil (sound.prompt prompt)
    refine ⟨opened, below, levels, fun request w' taken => ?_⟩
    have taking := Worker.takenFrom prompt taken
    obtain ⟨prompt', quiet⟩ : w'.activity = .prompt ∧ w'.returnedToPrompt = false := by
      rcases taking with ⟨later, -, rfl⟩ | ⟨later, -, -, rfl⟩ <;> exact ⟨prompt, rfl⟩
    have same := (Worker.takenKeeps taken).2
    refine ⟨taking, fun s globals => ⟨_, Worker.stepTaken prompt taken, fun e parsed => ?_,
      fun op parsed => ⟨fun unwinds resolves => ?_, fun stays => ?_⟩⟩⟩
    · exact Turn.performStands (same.trans levels) (same ▸ shown.offering) prompt' quiet
        (.inl ⟨e, parsed⟩)
    · rw [levels] at unwinds
      rcases staysOrCloses s opened below op with stays | chooses | picks
      · exact stays
      · contradiction
      · contradiction
    · exact Turn.performStands (same.trans levels) (same ▸ shown.offering) prompt' quiet
        (.inr ⟨op, parsed, stays⟩)
  · have levels := (sound.starting request starting).1
    obtain ⟨reason, said, worker, same⟩ := Turn.performRefused s globals levels asked
    refine ⟨_, reason, ?_, ?_, ?_, same, said⟩
    · simp [Worker.step, starting]
    · rw [worker]
      exact levels
    · rw [worker]

def frameAsked : List Move := [
  .receive (.request "x" "U" .new 1), .work 0 .throughRests [],
  .receive (.request "(slink:frame-locals 9)" "U" (.worker 1) 2)]

theorem frameAskedStands :
    let s := ((opening { language := Calc.language } 0).run frameAsked).session
    ∃ w t, s.workers.get? 0 = some w ∧ w.activity = .prompt ∧ w.step s.service [] = some t ∧
      t.worker.levels = w.levels ∧ t.globals = [] ∧ Turn.Answered 1 2 t.said := by
  intro s
  have ready : (s.workers.get? 0).any (fun w => AboutToTake w ⟨"(slink:frame-locals 9)", "U", 2⟩
      [.debugReturn 1 1, .returned 1 (.abort none) 1] []) = true := by decide +kernel
  obtain ⟨w, found, ready⟩ := (Option.any_eq_true _ _).mp ready
  obtain ⟨prompt, me, -, -, w', taken, -⟩ := of_decide_eq_true ready
  have parsed : Operation.parse "(slink:frame-locals 9)" = .ok (some (.frameLocals 9)) := by
    decide +kernel
  obtain ⟨opened, below, levels, served⟩ :=
    (operationsKeepLevels { language := Calc.language } 0 frameAsked found).1 prompt
  obtain ⟨t, moved, -, asked⟩ := (served _ w' taken).2 s.service []
  have stood := (asked _ parsed).2 (.frameLocals 9)
  obtain ⟨kept, same⟩ := Worker.takenKeeps taken
  refine ⟨w, t, found, prompt, moved, ?_, stood.globals, ?_⟩
  · rw [stood.worker, same]
  · rw [← me, ← kept]
    exact stood.said

end Log
end RemoteEval
