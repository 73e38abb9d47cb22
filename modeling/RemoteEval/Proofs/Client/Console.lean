import RemoteEval.Operation
import RemoteEval.Client.Console
import RemoteEval.Proofs.Client.Nesting

/-! Whom the lines of a console are for. The focus follows what the console hears, apart from the
machine, and may name a worker that is busy again, or gone, or another one by now. It only says
which prompt is preferred: whether there is one, and at which level, is asked of the machine. -/
namespace RemoteEval.Client

namespace Machine
variable {γ : Type} {m : Machine γ} {w : WorkerRef}

theorem topBusy (busy : m.top w ≠ .idle) : w ∈ m.busyWorkers := by
  rw [busyWorkers, Table.memKeys]
  cases found : m.busy.get? w with
  | none => simp [top, stack, found] at busy
  | some frames => exact ⟨frames, rfl⟩

theorem promptsMem {level : Level} : (w, level) ∈ m.prompts ↔ m.top w = .debugging level := by
  rw [prompts, List.mem_filterMap]
  constructor
  · rintro ⟨v, -, waits⟩
    split at waits <;> cases waits
    assumption
  · intro waits
    exact ⟨w, topBusy (by simp [waits]), by simp [waits]⟩

theorem Nested.promptLevel (nested : m.Nested) {level : Level} (waits : m.top w = .debugging level) :
    m.debugLevel w = level.toNat := by
  cases frames : m.stack w with
  | nil => simp [top, frames] at waits
  | cons f below =>
    obtain ⟨n, nests⟩ := nested.stack w (by simp [frames])
    rw [debugLevel, nests.number]
    rw [frames] at nests
    cases nests with
    | outermost => simp [top, frames, StackFrame.kind] at waits
    | nested => simp [top, frames, StackFrame.kind] at waits
    | level view number lower =>
      have same : view.level = level := by simpa [top, frames, StackFrame.kind] using waits
      rw [← same, number]

end Machine

def addressee : Option WorkerRef → Target
  | none => .new
  | some w => .worker w

/- The commands that ask something of the server, at a prompt of this level: what each is meant to
ask, and the form that is sent for it. -/
inductive Commands (level : Nat) : String → List String → Operation → String → Prop where
  | restart {text args index} (number : Console.number? text = some index) :
      Commands level "r" (text :: args) (.invokeRestart level index)
        (Console.restartForm level index)
  | locals {text args frame} (number : Console.number? text = some frame) :
      Commands level "locals" (text :: args) (.frameLocals frame) (Console.localsForm frame)
  | backtrace {args} : Commands level "bt" args (.backtrace 0 none) "(slink:backtrace 0)"
  | continue {args} : Commands level "c" args .continue "(slink:continue)"
  | abort {args} : Commands level "abort" args .abort "(slink:abort)"
  | toplevel {args} : Commands level "top" args .throwToToplevel "(slink:throw-to-toplevel)"
  | info {args} : Commands level "info" args .connectionInfo "(slink:connection-info)"

def IsCommand (line name : String) (args : List String) : Prop :=
  ∃ rest, line.toList = ':' :: rest ∧ Console.words rest = name :: args

namespace Console
variable {c : Console} {w : WorkerRef} {line name form : String} {args : List String}
  {op : Operation}

theorem promptWaits (chosen : c.promptWorker = some w) :
    ∃ level, c.connection.machine.top w = .debugging level := by
  rw [promptWorker, Option.or_eq_some_iff] at chosen
  rcases chosen with focused | ⟨-, last⟩
  · obtain ⟨-, waits⟩ := Option.filter_eq_some_iff.mp focused
    split at waits
    next level top => exact ⟨level, top⟩
    · contradiction
  · obtain ⟨⟨v, level⟩, found, rfl⟩ := Option.map_eq_some_iff.mp last
    exact ⟨level, Machine.promptsMem.mp (List.mem_of_getLast? found)⟩

theorem promptChosen {level : Level} (waits : c.connection.machine.top w = .debugging level) :
    ∃ v, c.promptWorker = some v := by
  cases chosen : c.promptWorker with
  | some v => exact ⟨v, rfl⟩
  | none =>
    obtain ⟨-, none⟩ := Option.or_eq_none_iff.mp chosen
    have member := Machine.promptsMem.mpr waits
    rw [List.getLast?_eq_none_iff.mp (Option.map_eq_none_iff.mp none)] at member
    contradiction

theorem runningEvaluates (chosen : c.runningWorker = some w) :
    ∃ id, c.connection.machine.top w = .evaluating id := by
  have evaluates := List.find?_some chosen
  split at evaluates
  next id top => exact ⟨id, top⟩
  · contradiction

theorem runningChosen {id : RequestId} (top : c.connection.machine.top w = .evaluating id) :
    ∃ v, c.runningWorker = some v := by
  cases chosen : c.runningWorker with
  | some v => exact ⟨v, rfl⟩
  | none =>
    have busy := Machine.topBusy (m := c.connection.machine) (w := w) (by simp [top])
    have other := List.find?_eq_none.mp chosen w (List.mem_reverse.mpr busy)
    simp [top] at other

def handing (c : Console) (m : Message) : Except Error (List Message) :=
  (c.connection.send m).map fun _ => [m]

theorem handingFailure {m : Message} {e : Error} (failed : c.handing m = .error e) :
    e = .connectionClosed ∨ ∃ fault, e = .wire fault := by
  unfold handing Connection.send at failed
  split at failed
  · split at failed <;> cases failed
    exact .inr ⟨_, rfl⟩
  · cases failed
    exact .inl rfl

theorem handingSent {m : Message} {sent : List Message} (handed : c.handing m = .ok sent) :
    sent = [m] := by
  unfold handing at handed
  cases result : c.connection.send m <;> rw [result] at handed <;> cases handed
  rfl

theorem evaluateHands {worker : Option WorkerRef}
    (free : ∀ w, worker = some w → ∃ level, c.connection.machine.top w = .debugging level) :
    (c.evaluate form worker).1.map Reaction.sent =
      c.handing (.request form c.package (addressee worker) (c.connection.machine.lastId + 1)) := by
  have accepted : ∃ after, c.connection.machine.evaluate form c.package worker none =
      (.ok (c.connection.machine.lastId + 1, .request form c.package (addressee worker)
        (c.connection.machine.lastId + 1)), after) := by
    cases worker with
    | none => exact ⟨_, rfl⟩
    | some w =>
      obtain ⟨level, waits⟩ := free w rfl
      simp only [Machine.evaluate, waits, addressee]
      exact ⟨_, rfl⟩
  obtain ⟨after, accepted⟩ := accepted
  rw [evaluate, Connection.evaluate, handing]
  by_cases stands : c.connection.connected = true
  · simp only [stands, if_true, accepted]
    cases c.connection.send _ <;> rfl
  · simp only [stands, Bool.false_eq_true, if_false, Connection.send]
    rfl

theorem replyHands {tag : Tag} {others : List (WorkerRef × Tag)}
    (first : c.connection.machine.pendingReads = (w, tag) :: others) (filled : line.isEmpty = false) :
    (c.handleLine line).1.map Reaction.sent = c.handing (.readStringReply w tag line) := by
  have pending : c.connection.machine.reads.contains (w, tag) = true := by
    have member : (w, tag) ∈ c.connection.machine.pendingReads := by simp [first]
    obtain ⟨_, found⟩ := Table.memKeys.mp member
    simp [Table.contains, found]
  simp only [handleLine, filled, Bool.false_eq_true, if_false, first, Connection.returnString,
    Machine.returnString, pending, if_true, handing]
  cases c.connection.send _ <;> rfl

theorem plainEvaluates (filled : line.isEmpty = false)
    (free : c.connection.machine.pendingReads = []) (plain : line.toList.head? ≠ some ':') :
    c.handleLine line = c.evaluate line c.promptWorker := by
  simp only [handleLine, filled, Bool.false_eq_true, if_false, free]
  split
  next rest start => simp [start] at plain
  · rfl

theorem commandHandled (free : c.connection.machine.pendingReads = [])
    (typed : IsCommand line name args) : c.handleLine line = c.command name args := by
  obtain ⟨rest, start, split⟩ := typed
  have filled : line.isEmpty = false := by
    rw [Bool.eq_false_iff]
    intro empty
    simp [String.isEmpty_iff.mp empty] at start
  simp only [handleLine, filled, Bool.false_eq_true, if_false, free, start, split]

theorem commandEvaluates {level : Nat} (commands : Commands level name args op form)
    (numbered : ∀ w, c.promptWorker = some w → c.connection.machine.debugLevel w = level) :
    c.command name args = if op.needsDebugger then c.inDebugger form else c.evaluate form none := by
  cases commands with
  | locals number => simp [command, number, Operation.needsDebugger]
  | restart number =>
    cases prompt : c.promptWorker with
    | none => simp [command, number, prompt, Operation.needsDebugger, inDebugger]
    | some w => simp [command, number, prompt, Operation.needsDebugger, numbered w prompt]
  | backtrace | «continue» | abort | toplevel | info => rfl

theorem commandHands {level : Nat} (commands : Commands level name args op form)
    (needs : op.needsDebugger = true) (prompt : c.promptWorker = some w)
    (numbered : c.connection.machine.debugLevel w = level) :
    (c.command name args).1.map Reaction.sent =
      c.handing (.request form c.package (.worker w) (c.connection.machine.lastId + 1)) := by
  have alone : ∀ v, c.promptWorker = some v → c.connection.machine.debugLevel v = level := by
    intro v same
    cases prompt.symm.trans same
    exact numbered
  rw [commandEvaluates commands alone]
  simp only [needs, if_true, inDebugger, prompt]
  refine evaluateHands fun v same => ?_
  cases same
  exact promptWaits prompt

theorem commandSent {level : Nat} {r : Reaction} {after : Console}
    (free : c.connection.machine.pendingReads = []) (typed : IsCommand line name args)
    (commands : Commands level name args op form)
    (numbered : ∀ w, c.promptWorker = some w → c.connection.machine.debugLevel w = level)
    (accepted : c.handleLine line = (.ok r, after)) : ∃ target,
      r.sent = [.request form c.package target (c.connection.machine.lastId + 1)] := by
  rw [commandHandled free typed] at accepted
  by_cases needs : op.needsDebugger = true
  · cases prompt : c.promptWorker with
    | none =>
      rw [commandEvaluates commands numbered, if_pos needs] at accepted
      simp [inDebugger, prompt] at accepted
    | some w =>
      have handed := commandHands commands needs prompt (numbered w prompt)
      rw [accepted] at handed
      exact ⟨_, handingSent handed.symm⟩
  · rw [commandEvaluates commands numbered, if_neg needs] at accepted
    have handed : (c.evaluate form none).1.map Reaction.sent =
        c.handing (.request form c.package .new (c.connection.machine.lastId + 1)) :=
      evaluateHands fun v same => nomatch same
    rw [accepted] at handed
    exact ⟨_, handingSent handed.symm⟩

theorem interruptHands (chosen : c.runningWorker = some w) :
    c.interrupt.1.map Reaction.sent = c.handing (.interrupt w) := by
  simp only [interrupt, chosen, Connection.interrupt, Machine.interrupt, handing]
  cases c.connection.send _ <;> rfl

/- Where the lines of a console go, whatever it has in focus. A read that waits gets the line. Any
other line, and every command of the debugger, goes to a worker that waits at a prompt if there is
one, and with the level of that prompt; the machine then takes it, and only the connection can
fail. An interrupt is for a worker that evaluates something, if there is one. -/
theorem linesAddressed {calls : List (Call Unit)} {c : Console}
    (reached : c.connection.machine = (Ledger.run calls).machine) :
    let m := c.connection.machine
    ((∃ w, c.promptWorker = some w) ↔ ∃ w level, m.top w = .debugging level) ∧
    (∀ w, c.promptWorker = some w → ∃ level, m.top w = .debugging level) ∧
    (∀ line w tag others, line.isEmpty = false → m.pendingReads = (w, tag) :: others →
      (c.handleLine line).1.map Reaction.sent = c.handing (.readStringReply w tag line)) ∧
    (m.pendingReads = [] →
      (∀ line, line.isEmpty = false → line.toList.head? ≠ some ':' →
        (c.handleLine line).1.map Reaction.sent =
          c.handing (.request line c.package (addressee c.promptWorker) (m.lastId + 1))) ∧
      ∀ line name args, IsCommand line name args →
        (∀ w level op form, c.promptWorker = some w → m.top w = .debugging level →
          Commands level.toNat name args op form → op.needsDebugger = true →
          (c.handleLine line).1.map Reaction.sent =
            c.handing (.request form c.package (.worker w) (m.lastId + 1))) ∧
        (∀ level op form, c.promptWorker = none → Commands level name args op form →
          op.needsDebugger = true → (c.handleLine line).1 = .error noDebugger) ∧
        ∀ level form, Commands level name args .connectionInfo form →
          (c.handleLine line).1.map Reaction.sent =
            c.handing (.request form c.package .new (m.lastId + 1))) ∧
    (∀ message e, c.handing message = .error e →
      e = .connectionClosed ∨ ∃ fault, e = .wire fault) ∧
    ((∃ w, c.runningWorker = some w) ↔ ∃ w id, m.top w = .evaluating id) ∧
    (∀ w, c.runningWorker = some w → (∃ id, m.top w = .evaluating id) ∧
      c.interrupt.1.map Reaction.sent = c.handing (.interrupt w)) := by
  intro m
  have nested : m.Nested := by
    unfold m
    rw [reached]
    exact Ledger.runNested calls
  refine ⟨⟨fun ⟨w, chosen⟩ => ⟨w, promptWaits chosen⟩, fun ⟨w, level, waits⟩ => promptChosen waits⟩,
    fun w => promptWaits, fun line w tag others filled first => replyHands first filled,
    fun free => ⟨fun line filled plain => ?_, fun line name args typed => ?_⟩,
    fun message e => handingFailure,
    ⟨fun ⟨w, chosen⟩ => ⟨w, runningEvaluates chosen⟩, fun ⟨w, id, top⟩ => runningChosen top⟩,
    fun w chosen => ⟨runningEvaluates chosen, interruptHands chosen⟩⟩
  · rw [plainEvaluates filled free plain]
    exact evaluateHands fun w => promptWaits
  · rw [commandHandled free typed]
    refine ⟨fun w level op form prompt waits commands needs => ?_,
      fun level op form none commands needs => ?_, fun level form commands => ?_⟩
    · exact commandHands commands needs prompt (nested.promptLevel waits)
    · rw [commandEvaluates commands fun v same => nomatch none.symm.trans same]
      simp [needs, inDebugger, none]
    · cases commands
      exact evaluateHands fun v same => nomatch same

/- A prompt at level 1 of worker 1, while the focus is on a worker that is gone. -/
def promptCalls : List (Call Unit) :=
  [.evaluate "(/ 1 0)" "USER" none none, .handle (.workerAssigned 1 1),
    .handle (.debugEnter 1 1 "DIVISION-BY-ZERO: arithmetic error: division by zero" [] [])]

def strayFocus : Console :=
  { connection := { machine := (Ledger.run promptCalls).machine }, focus := some 7 }

theorem strayFocusAddressed :
    strayFocus.connection.machine = (Ledger.run promptCalls).machine ∧
    strayFocus.promptWorker = some 1 ∧
    (strayFocus.handleLine ":r 2").1.map Reaction.sent = strayFocus.handing
      (.request "(slink:invoke-restart 1 2)" "USER" (.worker 1) 2) := by
  have reached : strayFocus.connection.machine = (Ledger.run promptCalls).machine := rfl
  have prompt : strayFocus.promptWorker = some 1 := by decide +kernel
  have waits : strayFocus.connection.machine.top 1 = .debugging 1 := by decide +kernel
  have free : strayFocus.connection.machine.pendingReads = [] := by decide +kernel
  have typed : IsCommand ":r 2" "r" ["2"] := ⟨_, rfl, by decide +kernel⟩
  have commands : Commands (1 : Level).toNat "r" ["2"] (.invokeRestart 1 2)
      "(slink:invoke-restart 1 2)" := .restart (by decide +kernel)
  obtain ⟨-, -, -, lines, -⟩ := linesAddressed reached
  exact ⟨reached, prompt,
    ((lines free).2 ":r 2" "r" ["2"] typed).1 1 1 _ _ prompt waits commands rfl⟩

end Console
end RemoteEval.Client
