import RemoteEval.Calc.Basic
import RemoteEval.Proofs.Worker.Closing

/-! How many levels a turn leaves open. A program opens one level at most, when it is trapped, and
an operation of the server opens none: it leaves the levels as they are, or closes some, and if it
has the request evaluated again that opened the innermost one, then only after closing that. -/
namespace RemoteEval.Turn
variable {s : Service} {request : Request}

theorem retireLevels (t : Turn) : t.retire.worker.levels = t.worker.levels := by
  rw [retireEq]

theorem toPromptLevels (t : Turn) : t.toPrompt.worker.levels = t.worker.levels := by
  rw [toPromptWorker]

theorem concludeLevels (t : Turn) (value : Outcome) :
    (t.conclude request value).worker.levels = t.worker.levels := by
  unfold conclude
  dsimp only
  split
  · rw [retireLevels, answerWorker]
  · rw [toPromptLevels, answerWorker]

theorem collapseLevels (target : Nat) (reason : Option String) (stack : DebugStack Request)
    (t : Turn) : (collapse target reason stack t).worker.levels.length ≤ t.worker.levels.length := by
  induction stack generalizing t with
  | nil => exact Nat.le_refl _
  | cons closing below ih =>
    have closed : ∀ u : Turn, u.worker.levels = t.worker.levels.tail →
        (if below.isEmpty then u.retire
          else if target < DebugStack.level below then collapse target reason below u
          else u.toPrompt).worker.levels.length ≤ t.worker.levels.length := by
      intro u left
      have fewer : u.worker.levels.length ≤ t.worker.levels.length := by
        rw [left, List.length_tail]
        exact Nat.sub_le _ _
      split
      · rwa [retireLevels]
      split
      · exact Nat.le_trans (ih u) fewer
      · rwa [toPromptLevels]
    rw [collapse]
    cases closing.origin with
    | evaluation opener => exact closed _ rfl
    | prompt => exact closed _ rfl

theorem unwindLevels (t : Turn) (target : Nat) (reason : Option String) :
    (t.unwind request target reason).worker.levels.length ≤ t.worker.levels.length := by
  unfold unwind
  dsimp only
  split
  · exact Nat.le_of_eq (congrArg List.length (retireLevels _))
  split
  · exact collapseLevels target reason _ _
  · exact Nat.le_of_eq (congrArg List.length (toPromptLevels _))

theorem trapLevels (t : Turn) (failure : Failure Condition) :
    (t.trap s request failure).worker.levels.length ≤ t.worker.levels.length + 1 := by
  have either : ∀ c : Condition, (if c.isCancelled || s.cancelled then
      t.unwind request 0 (some connectionClosed)
      else t.openLevel s c (.evaluation request)).worker.levels.length ≤
        t.worker.levels.length + 1 := by
    intro c
    split
    · exact Nat.le_trans (unwindLevels t 0 _) (Nat.le_succ _)
    · rw [openLevelWorker]
      exact Nat.le_refl _
  exact either _

theorem runLevels (program : Program Sexp) (t : Turn) :
    (run s request program t).worker.levels.length ≤ t.worker.levels.length + 1 := by
  induction program generalizing t with
  | done v =>
    rw [run, concludeLevels]
    exact Nat.le_succ _
  | stop failure => exact trapLevels t failure
  | write text next ih => exact ih _
  | fetch name next ih => exact ih _ _
  | assign name value next ih => exact ih _
  | pause next ih =>
    rw [run]
    split
    · exact Nat.le_succ _
    · exact ih t
  | read next ih | check next ih | spin next ih =>
    have levels := (checkActs s t .waiting).2
    rw [run]
    rcases outcome : t.check s with ⟨answer, u⟩
    rw [outcome] at levels
    rw [← levels]
    cases answer with
    | error c => exact ih _ u
    | ok => first | exact ih _ u | exact Nat.le_succ _

theorem resolveLevels (t : Turn) (action : RestartAction) :
    (t.resolve s request action).worker.levels.length ≤ t.worker.levels.length := by
  unfold resolve
  dsimp only
  split
  · exact Nat.le_of_eq (congrArg List.length (retireLevels _))
  next closing below levels =>
    rw [answerWorker] at levels
    have left : (t.answer (.abort none) request.id).leaveLevel.worker.levels = below := by
      simp [levels]
    rw [levels, List.length_cons]
    split
    · rw [concludeLevels, left]
      exact Nat.le_succ _
    next opener _ =>
      rw [← left]
      exact runLevels _ (t.answer (.abort none) request.id).leaveLevel
    · rw [toPromptLevels, left]
      exact Nat.le_succ _

theorem performLevels {op : Operation} (parsed : Operation.parse request.form = .ok (some op))
    (t : Turn) : (t.perform s request).worker.levels.length ≤ t.worker.levels.length := by
  have kept := (executeActs s t request op).2
  simp only [perform, parsed]
  rcases outcome : t.execute s op with ⟨result, u⟩
  rw [outcome] at kept
  rw [← kept]
  rcases result with escape | v
  · cases escape with
    | abort reason => exact Nat.le_of_eq (congrArg List.length (concludeLevels u (.abort reason)))
    | unwind target reason => exact unwindLevels u target reason
    | resolve action => exact resolveLevels u action
  · exact Nat.le_of_eq (congrArg List.length (concludeLevels u (.ok v)))

theorem performUnread {e : Sexp.ReadError} (language : s.language = Calc.language)
    (live : s.cancelled = false) (unread : Sexp.read request.form = .error e) (t : Turn) :
    (t.perform s request).worker.levels.length = t.worker.levels.length + 1 := by
  have parsed : Operation.parse request.form = .ok none := by simp [Operation.parse, unread]
  have program : s.language.evaluate request.form request.package = .signal
      (.error "READER-ERROR" s!"read {Text.quoted request.form}: {e.message}") := by
    rw [language]
    simp [Calc.language, Calc.evaluate, unread]
  rw [perform, parsed]
  simp [evaluate, program, Program.signal, run, trap, Condition.isCancelled, Condition.error, live,
    openLevelWorker, DebugStack.enter]

end RemoteEval.Turn
