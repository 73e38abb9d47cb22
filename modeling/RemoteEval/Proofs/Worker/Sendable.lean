import RemoteEval.Proofs.Worker.Conduct
import RemoteEval.Proofs.Calc.Values
import RemoteEval.Proofs.Message.RoundTrip

/-! What a worker says, as messages that can be read. A value that is returned is proper, since
programs compute with proper values and the answers of the server's own operations are proper;
its depth and its size are not bounded. The numbers are in range as long as the worker has
opened fewer levels and made fewer reads than a number can count, which is assumed of `small`
and used for nothing else. A step opens at most one level and makes at most one read. -/
namespace RemoteEval
open Message (wordLimit)

def Request.Fits (r : Request) : Prop := r.id.toNat < wordLimit

def Globals.Proper (g : Globals) : Prop := ∀ entry ∈ g, entry.2.isProper = true

theorem Globals.fetchProper {g : Globals} (proper : g.Proper) {name : String} {v : Sexp}
    (known : g.fetch name = some v) : v.isProper = true := by
  obtain ⟨before, after, split, _⟩ := List.lookup_eq_some_iff.mp known
  exact proper (name, v) (by simp [split])

theorem Globals.assignProper {g : Globals} (proper : g.Proper) (name : String) {v : Sexp}
    (good : v.isProper = true) : (g.assign name v).Proper := by
  induction g with
  | nil => simpa [Globals.assign, Globals.Proper] using good
  | cons entry rest ih =>
    obtain ⟨first, others⟩ := List.forall_mem_cons.mp proper
    obtain ⟨other, old⟩ := entry
    rw [Globals.assign]
    split
    · exact List.forall_mem_cons.mpr ⟨good, others⟩
    · exact List.forall_mem_cons.mpr ⟨first, ih others⟩

section
variable (small : Prop)

def Message.Sendable (m : Message) : Prop :=
  (∀ v, m.value? = some v → v.isProper = true) ∧ (small → m.numbersFit = true)

def Utterance.Sendable : Utterance → Prop
  | .message m => m.Sendable small
  | .output _ => True

def Activity.Proper : Activity → Prop
  | .starting request => request.Fits
  | .running request rest => request.Fits ∧ rest.Proper (·.isProper = true)
  | .reading request tag next => request.Fits ∧ (small → tag.toNat < wordLimit) ∧
      ∀ answer, Bare answer → (next answer).Proper (·.isProper = true)
  | .prompt | .finished => True

/- The worker apart from its activity, which is out of date in the middle of a turn. -/
structure Worker.Clean (count : Nat) (w : Worker) : Prop where
  me : small → 1 ≤ w.me
  grounded : DebugStack.Grounded w.levels
  openers : ∀ level ∈ w.levels, ∀ request, level.origin = .evaluation request → request.Fits
  queue : ∀ request ∈ w.queue, request.Fits
  depth : w.levels.length ≤ count
  tag : small → w.lastTag.toNat ≤ count

structure Turn.Clean (count : Nat) (t : Turn) : Prop where
  worker : t.worker.Clean small count
  globals : t.globals.Proper
  spoken : ∀ u ∈ t.said, u.Sendable small

structure Turn.Settled (count : Nat) (t : Turn) : Prop where
  clean : t.Clean small count
  activity : t.worker.activity.Proper small
end

theorem Worker.Clean.more {small : Prop} {count : Nat} {w : Worker} (clean : w.Clean small count) :
    w.Clean small (count + 1) :=
  ⟨clean.me, clean.grounded, clean.openers, clean.queue, Nat.le_succ_of_le clean.depth,
    fun n => Nat.le_succ_of_le (clean.tag n)⟩

namespace Turn
variable {small : Prop} {count : Nat} {t : Turn} {s : Service}

theorem Clean.withWorker (clean : t.Clean small count) {w : Worker} (kept : w.Clean small count) :
    Clean small count { t with worker := w } := ⟨kept, clean.globals, clean.spoken⟩

theorem Clean.alike (clean : t.Clean small count) {u : Turn} (me : u.worker.me = t.worker.me)
    (levels : u.worker.levels = t.worker.levels) (queue : u.worker.queue = t.worker.queue)
    (tag : u.worker.lastTag = t.worker.lastTag) (globals : u.globals = t.globals)
    (spoken : u.spoken = t.spoken) : u.Clean small count := by
  obtain ⟨worker, proper, sendable⟩ := clean
  refine ⟨⟨me ▸ worker.me, levels ▸ worker.grounded, levels ▸ worker.openers,
    queue ▸ worker.queue, levels ▸ worker.depth, tag ▸ worker.tag⟩, globals ▸ proper, ?_⟩
  rw [said, spoken]
  exact sendable

theorem Clean.utter (clean : t.Clean small count) {u : Utterance} (sendable : u.Sendable small) :
    (t.utter u).Clean small count := by
  refine ⟨clean.worker, clean.globals, fun v mem => ?_⟩
  simp only [said, Turn.utter, List.map_append, List.mem_append, List.map_cons, List.map_nil,
    List.mem_singleton] at mem
  rcases mem with older | rfl
  · exact clean.spoken v older
  · exact sendable

theorem Clean.background (clean : t.Clean small count) (text : String) :
    (t.background text).Clean small count :=
  clean.utter ⟨by simp [Message.value?], fun _ => rfl⟩

theorem Clean.machineError (clean : t.Clean small count) (e : Error) :
    (t.machineError e).Clean small count := by
  refine clean.utter ⟨by simp [Message.value?], fun n => ?_⟩
  simpa [Message.numbersFit] using clean.worker.me n

theorem returnedSendable {w : Worker} (clean : w.Clean small count) {value : Outcome}
    {id : RequestId} (fits : id.toNat < wordLimit)
    (proper : ∀ v, value = .ok v → v.isProper = true) :
    (Message.returned w.me value id).Sendable small := by
  constructor
  · cases value with
    | ok v => simpa [Message.value?] using proper v rfl
    | abort reason => simp [Message.value?]
  · intro n
    simpa [Message.numbersFit, fits] using clean.me n

theorem Clean.answer (clean : t.Clean small count) {value : Outcome} {id : RequestId}
    (fits : id.toNat < wordLimit) (proper : ∀ v, value = .ok v → v.isProper = true) :
    (t.answer value id).Clean small count :=
  clean.utter (returnedSendable clean.worker fits proper)

theorem Clean.abort (clean : t.Clean small count) (reason : Option String) {id : RequestId}
    (fits : id.toNat < wordLimit) : (t.answer (.abort reason) id).Clean small count :=
  clean.answer fits (by simp)

theorem Clean.doing (clean : t.Clean small count) (activity : Activity) :
    (t.doing activity).Clean small count :=
  clean.alike rfl rfl rfl rfl rfl rfl

theorem Clean.retire (clean : t.Clean small count) : t.retire.Settled small count := by
  rw [retireEq]
  have worker := clean.worker
  refine ⟨⟨⟨worker.me, worker.grounded, worker.openers, by simp [Worker.queue], worker.depth,
    worker.tag⟩, clean.globals, fun u mem => ?_⟩, trivial⟩
  simp only [said, List.map_append, List.map_map, List.mem_append] at mem
  rcases mem with older | last
  · exact clean.spoken u older
  · have words : u ∈ lastWords t.worker := by simpa using last
    simp only [lastWords, List.mem_append, List.mem_map] at words
    rcases words with ⟨tag, _, rfl⟩ | ⟨r, waits, rfl⟩
    · exact ⟨by simp [Message.value?], fun _ => rfl⟩
    · exact returnedSendable worker (worker.queue r waits) (by simp)

theorem natWord {n : Nat} (low : n < wordLimit) : n.toUInt64.toNat = n := by
  simp only [wordLimit] at low
  rw [Nat.toUInt64, UInt64.toNat_ofNat']
  omega

theorem levelFits {w : Worker} (clean : w.Clean small count) (room : small → count < wordLimit)
    {level : Nat} (positive : 0 < level) (most : level ≤ count) {m : Message}
    (quiet : m.value? = none) (workers : m.workers = [w.me]) (words : m.words = [])
    (levels : m.levels = [level.toUInt64]) : m.Sendable small := by
  refine ⟨by simp [quiet], fun n => Message.numbersFitIff.mpr ?_⟩
  have bound := room n
  rw [workers, words, levels, List.forall_mem_singleton, List.forall_mem_singleton,
    natWord (by omega)]
  exact ⟨clean.me n, by simp, by omega⟩

section
variable (room : small → count < wordLimit)
include room

theorem Clean.toPrompt (clean : t.Clean small count) (nested : t.worker.levels ≠ []) :
    t.toPrompt.Settled small count := by
  have prompt := clean.doing .prompt
  have worker := clean.worker
  unfold Turn.toPrompt
  dsimp only
  split
  · have positive : 0 < t.worker.levels.length := List.length_pos_iff.mpr nested
    have said : ((t.doing .prompt).say (.debugActivate t.worker.me t.level.toUInt64)).Clean
        small count :=
      prompt.utter (levelFits worker room positive worker.depth rfl rfl rfl rfl)
    exact ⟨said.alike rfl rfl rfl rfl rfl rfl, trivial⟩
  · exact ⟨prompt, trivial⟩

theorem Clean.leaveLevel (clean : t.Clean small count) (nested : t.worker.levels ≠ []) :
    t.leaveLevel.Clean small count := by
  have worker := clean.worker
  obtain ⟨closing, below, levels⟩ := List.exists_cons_of_ne_nil nested
  have grounded := worker.grounded
  have depth := worker.depth
  rw [levels] at grounded depth
  have left : Worker.Clean small count
      { t.worker with levels := t.worker.levels.tail, returnedToPrompt := true } := by
    refine ⟨worker.me, ?_, fun level mem => ?_, worker.queue, ?_, worker.tag⟩
    · simpa [levels] using DebugStack.groundedTail grounded
    · exact worker.openers level (List.mem_of_mem_tail mem)
    · simp [levels] at depth ⊢
      omega
  have positive : 0 < t.worker.levels.length := List.length_pos_iff.mpr nested
  exact (clean.withWorker left).utter (levelFits worker room positive worker.depth rfl rfl rfl rfl)

theorem Clean.conclude (clean : t.Clean small count) {request : Request} (fits : request.Fits)
    {value : Outcome} (proper : ∀ v, value = .ok v → v.isProper = true) :
    (t.conclude request value).Settled small count := by
  have answered := clean.answer fits proper
  unfold Turn.conclude
  cases levels : t.worker.levels with
  | nil => simpa [levels] using answered.retire
  | cons closing below => simpa [levels] using answered.toPrompt room (by simp [levels])

theorem Clean.collapse {target : Nat} {reason : Option String} {levels : DebugStack Request}
    (clean : t.Clean small count) (nested : levels ≠ []) (same : t.worker.levels = levels) :
    (Turn.collapse target reason levels t).Settled small count := by
  induction levels generalizing t with
  | nil => contradiction
  | cons closing below ih =>
    have left := clean.leaveLevel room (by simp [same])
    unfold Turn.collapse
    dsimp only
    suffices next : ∀ u : Turn, u.Clean small count → u.worker.levels = below →
        (if below.isEmpty then u.retire
          else if target < DebugStack.level below then Turn.collapse target reason below u
          else u.toPrompt).Settled small count by
      cases origin : closing.origin with
      | evaluation request =>
        have fits := clean.worker.openers closing (by simp [same]) request origin
        exact next _ (left.abort reason fits) (by simp [same])
      | prompt => exact next _ left (by simp [same])
    intro u answered levels
    split
    · exact answered.retire
    next more =>
      have inner : below ≠ [] := by simpa using more
      split
      · exact ih answered inner levels
      · exact answered.toPrompt room (levels ▸ inner)

theorem Clean.unwind (clean : t.Clean small count) {request : Request} (fits : request.Fits)
    (target : Nat) (reason : Option String) :
    (t.unwind request target reason).Settled small count := by
  have answered := clean.abort reason fits
  unfold Turn.unwind
  dsimp only
  split
  · exact answered.retire
  next more =>
    have nested : (t.answer (.abort reason) request.id).worker.levels ≠ [] := by simpa using more
    split
    · exact answered.collapse room nested rfl
    · exact answered.toPrompt room nested

end

theorem Clean.check (clean : t.Clean small count) (s : Service) :
    (t.check s).2.Clean small count ∧ Bare (t.check s).1 ∧
      (t.check s).2.worker.activity = t.worker.activity := by
  unfold Turn.check
  split
  · exact ⟨clean, rfl, rfl⟩
  · split
    · exact ⟨clean.alike rfl rfl rfl rfl rfl rfl, rfl, rfl⟩
    · exact ⟨clean, trivial, rfl⟩

theorem Clean.more (clean : t.Clean small count) : t.Clean small (count + 1) :=
  ⟨clean.worker.more, clean.globals, clean.spoken⟩

theorem Settled.more (settled : t.Settled small count) : t.Settled small (count + 1) :=
  ⟨settled.clean.more, settled.activity⟩

theorem shownFit (language : s.language.Proper) {c : Condition}
    (short : c.frames.length ≤ 256) :
    ∀ view ∈ shownFrames s c, view.index.toNat < wordLimit := by
  unfold shownFrames
  split
  next frames backtrace =>
    have few := language.frames short backtrace
    intro view mem
    obtain ⟨i, bound, rfl⟩ := List.mem_mapIdx.mp mem
    have low : 0 + i < wordLimit := by simp [wordLimit]; omega
    exact Nat.lt_of_le_of_lt (Nat.le_of_eq (natWord low)) low
  · simp

section
variable (room : small → count + 1 < wordLimit) (language : s.language.Proper)
include room language

theorem Clean.openLevel (clean : t.Clean small count) {c : Condition}
    (short : c.frames.length ≤ 256) {origin : Origin Request}
    (fits : ∀ request, origin = .evaluation request → request.Fits)
    (nested : origin = .prompt → t.worker.levels ≠ []) :
    (t.openLevel s c origin).Settled small (count + 1) := by
  have worker := clean.more.worker
  have grounded : DebugStack.Grounded (DebugStack.enter t.worker.levels c origin) := by
    cases source : origin with
    | evaluation request => exact DebugStack.groundedEvaluation worker.grounded rfl
    | prompt => exact DebugStack.groundedCons worker.grounded (nested source)
  have depth : t.worker.levels.length + 1 ≤ count + 1 := Nat.succ_le_succ clean.worker.depth
  have inside : Worker.Clean small (count + 1) { t.worker with
      levels := DebugStack.enter t.worker.levels c origin, activity := .prompt } :=
    ⟨worker.me, grounded, List.forall_mem_cons.mpr ⟨fits, worker.openers⟩, worker.queue, depth,
      worker.tag⟩
  have opened : (t.enter s c origin).Clean small (count + 1) := by
    refine (clean.more.withWorker inside).utter ⟨by simp [Message.value?], fun n => ?_⟩
    have bound := room n
    have level := natWord (show t.worker.levels.length + 1 < wordLimit by omega)
    refine Message.numbersFitIff.mpr ⟨by simpa using worker.me n, ?_, ?_⟩
    · simpa using shownFit language short
    · rw [Message.levels, List.forall_mem_singleton]
      change 1 ≤ (t.worker.levels.length + 1).toUInt64.toNat ∧
        (t.worker.levels.length + 1).toUInt64.toNat < wordLimit
      rw [level]
      omega
  rcases openLevelEq t s c origin with same | ⟨e, same⟩
  · rw [same]
    exact ⟨opened, trivial⟩
  · rw [same]
    exact ⟨opened.machineError e, trivial⟩

theorem Clean.trap (clean : t.Clean small count) {request : Request} (fits : request.Fits)
    {failure : Failure Condition}
    (short : ∀ c, failure = .failed c → c.frames.length ≤ 256) :
    (t.trap s request failure).Settled small (count + 1) := by
  have unwound := (clean.unwind (fun n => by have := room n; omega) fits 0
    (some connectionClosed)).more
  have opened {c : Condition} (few : c.frames.length ≤ 256) :
      (t.openLevel s c (.evaluation request)).Settled small (count + 1) :=
    clean.openLevel room language few (fun r same => by cases same; exact fits) (by simp)
  unfold Turn.trap
  cases failure with
  | failed c =>
    dsimp only
    split
    · exact unwound
    · exact opened (short c rfl)
  | crashed reason =>
    dsimp only
    split
    · exact unwound
    · exact opened (by simp [Condition.error])

omit language in
theorem Clean.asking (clean : t.Clean small count) :
    let tag := t.worker.lastTag + 1
    Clean small (count + 1) { t with worker := { t.worker with lastTag := tag } } ∧
      (Message.readStringRequest t.worker.me tag).Sendable small ∧
      (small → tag.toNat < wordLimit) := by
  intro tag
  have worker := clean.more.worker
  have next (n : small) : tag.toNat ≤ count + 1 := by
    have last := clean.worker.tag n
    have bound := room n
    simp only [wordLimit] at bound
    rw [UInt64.toNat_add]
    change (t.worker.lastTag.toNat + 1) % 2 ^ 64 ≤ count + 1
    omega
  have low (n : small) : tag.toNat < wordLimit := Nat.lt_of_le_of_lt (next n) (room n)
  refine ⟨clean.more.withWorker ⟨worker.me, worker.grounded, worker.openers, worker.queue,
    worker.depth, next⟩, ⟨by simp [Message.value?], fun n => ?_⟩, low⟩
  exact Message.numbersFitIff.mpr ⟨by simpa using worker.me n, by simpa using low n, by simp⟩

theorem Clean.run {request : Request} (fits : request.Fits) {p : Program Sexp}
    (proper : p.Proper (·.isProper = true)) (clean : t.Clean small count) :
    (Turn.run s request p t).Settled small (count + 1) := by
  have near : small → count < wordLimit := fun n => by have := room n; omega
  induction p generalizing t with
  | done v =>
    exact (clean.conclude near fits (by rintro _ ⟨⟩; exact proper)).more
  | stop failure =>
    refine clean.trap room language fits fun c same => ?_
    subst same
    exact proper
  | write text next ih => exact ih proper (clean.utter trivial)
  | read next ih =>
    obtain ⟨checked, bare, same⟩ := clean.check s
    rw [Turn.run]
    split
    next c u looked =>
      rw [looked] at checked bare
      exact ih _ (proper _ bare) checked
    next u looked =>
      rw [looked] at checked
      obtain ⟨counted, sendable, low⟩ := checked.asking room
      have said := counted.utter (u := .message _) sendable
      exact ⟨said.doing _, fits, low, proper⟩
  | check next ih =>
    obtain ⟨checked, bare, same⟩ := clean.check s
    exact ih _ (proper _ bare) checked
  | fetch name next ih =>
    exact ih _ (proper _ fun v known => Globals.fetchProper clean.globals known) clean
  | assign name v next ih =>
    exact ih proper.2 ⟨clean.worker, Globals.assignProper clean.globals name proper.1, clean.spoken⟩
  | pause next ih =>
    rw [Turn.run]
    split
    · exact ⟨(clean.doing _).more, fits, proper⟩
    · exact ih proper clean
  | spin next ih =>
    obtain ⟨checked, bare, same⟩ := clean.check s
    rw [Turn.run]
    split
    next c u looked =>
      rw [looked] at checked bare
      exact ih _ (proper c bare) checked
    next u looked =>
      rw [looked] at checked
      exact ⟨(checked.doing _).more, fits, proper⟩

end

structure Answers (small : Prop) (count : Nat) (r : Except Escape Sexp × Turn) : Prop where
  clean : r.2.Clean small count
  value : ∀ v, r.1 = .ok v → v.isProper = true
  resumed : ∀ v, r.1 = .error (.resolve (.resume v)) → v.isProper = true

theorem Clean.ok (clean : t.Clean small count) {v : Sexp} (proper : v.isProper = true) :
    Answers small count (.ok v, t) :=
  ⟨clean, by rintro _ ⟨⟩; exact proper, by simp⟩

theorem Clean.escape (clean : t.Clean small count) {e : Escape}
    (plain : ∀ v, e = .resolve (.resume v) → v.isProper = true) :
    Answers small count (.error e, t) :=
  ⟨clean, by simp, by rintro v ⟨⟩; exact plain v rfl⟩

theorem Clean.refuse (clean : t.Clean small count) (e : Error) :
    Answers small count (t.refuse e) :=
  (clean.machineError e).escape (by simp)

theorem Clean.restart (clean : t.Clean small count) (language : s.language.Proper)
    (kind : RestartKind) : Answers small count (t.restart s kind) := by
  cases kind with
  | language index =>
    unfold Turn.restart
    dsimp only
    split
    next action chosen =>
      exact clean.escape fun v same => by cases same; exact language.restart chosen
    · exact clean.refuse _
  | retry => exact clean.escape (by simp)
  | «continue» => exact clean.escape (by rintro v ⟨⟩; rfl)
  | unwind target => exact clean.escape (by simp)

theorem Clean.backtrace (clean : t.Clean small count) (s : Service) (first : Nat)
    (last : Option Nat) : Answers small count (t.backtrace s first last) := by
  unfold Turn.backtrace
  split
  · refine clean.ok (Sexp.ofItemsProper.mpr ?_)
    simp [Message.frameSexp, Message.word, Sexp.isProper, Sexp.allProper]
  · exact clean.refuse _

theorem connectionInfoProper (s : Service) : (connectionInfo s).isProper = true := by
  have features : (Sexp.ofItems (s.language.features.map .str)).isProper = true :=
    Sexp.ofItemsProper.mpr (by simp [Sexp.isProper])
  have names : ∀ name ∈ ["pid", "version", "runtime", "name", "features", "package"],
      Sexp.isKeywordName name = true := by decide
  simp_all [connectionInfo, Sexp.isProper, Sexp.allProper, Message.workerSexp, Message.word]

theorem Clean.execute (clean : t.Clean small count) (language : s.language.Proper)
    (op : Operation) : Answers small count (t.execute s op) := by
  unfold Turn.execute
  split
  · exact clean.escape (by simp)
  cases op with
  | connectionInfo => exact clean.ok (connectionInfoProper s)
  | arglist name => exact clean.ok (by cases s.language.arglist name <;> rfl)
  | findDefinition name =>
    dsimp only
    split
    · have names : ∀ name ∈ ["file", "line"], Sexp.isKeywordName name = true := by decide
      exact clean.ok (by simp_all [locationSexp, Message.workerSexp, Message.word, Sexp.isProper,
        Sexp.allProper])
    · exact clean.escape (by simp)
  | backtrace first last => exact clean.backtrace s first last
  | frameLocals frame =>
    dsimp only
    split
    · refine clean.ok (Sexp.ofItemsProper.mpr ?_)
      simp [Sexp.isProper, Sexp.allProper]
    · exact clean.refuse _
  | debuggerInfo first last =>
    have answers := clean.backtrace s first last
    dsimp only
    split
    next frames u level shown _ =>
      rw [shown] at answers
      have proper := answers.value frames rfl
      have restarts : (Sexp.ofItems (level.restartViews.map Message.restartSexp)).isProper = true :=
        Sexp.ofItemsProper.mpr (by simp [Message.restartSexp, Sexp.isProper, Sexp.allProper])
      have names : ∀ name ∈ ["condition", "restarts", "frames"],
          Sexp.isKeywordName name = true := by decide
      exact answers.clean.ok (by simp_all [Sexp.isProper, Sexp.allProper])
    next shown _ =>
      rw [shown] at answers
      exact answers.clean.escape (by simp)
    next shown =>
      rw [shown] at answers
      exact answers.clean.escape fun v same => answers.resumed v (by rw [same])
  | invokeRestart level index =>
    dsimp only
    split
    · exact clean.restart language _
    · exact clean.refuse _
  | abort =>
    dsimp only
    split
    · exact clean.restart language _
    · exact clean.escape (by simp)
  | «continue» =>
    dsimp only
    split
    · exact clean.restart language _
    · exact clean.escape (by simp)
  | throwToToplevel => exact clean.escape (by simp)

section
variable (room : small → count + 1 < wordLimit) (language : s.language.Proper)
include room language

theorem Clean.evaluate (clean : t.Clean small count) {request : Request} (fits : request.Fits) :
    (t.evaluate s request).Settled small (count + 1) :=
  clean.run room language fits (language.evaluate request.form request.package)

theorem Clean.resolve (clean : t.Clean small count) {request : Request} (fits : request.Fits)
    {action : RestartAction} (proper : ∀ v, action = .resume v → v.isProper = true) :
    (t.resolve s request action).Settled small (count + 1) := by
  have near : small → count < wordLimit := fun n => by have := room n; omega
  have answered : (t.answer (.abort none) request.id).Clean small count := clean.abort none fits
  unfold Turn.resolve
  dsimp only
  split
  · exact answered.retire.more
  next closing below levels =>
    replace levels : t.worker.levels = closing :: below := levels
    have left := answered.leaveLevel near (by simp [levels])
    have openers := clean.worker.openers closing (by simp [levels])
    have grounded := clean.worker.grounded
    rw [levels] at grounded
    split
    next opener v origin =>
      exact (left.conclude near (openers opener origin) (by rintro _ ⟨⟩; exact proper v rfl)).more
    next opener origin => exact left.evaluate room language (openers opener origin)
    next origin =>
      have nested := DebugStack.groundedPrompt grounded origin
      exact (left.toPrompt near (by simpa [levels] using nested)).more

theorem Clean.perform (clean : t.Clean small count) {request : Request} (fits : request.Fits) :
    (t.perform s request).Settled small (count + 1) := by
  have near : small → count < wordLimit := fun n => by have := room n; omega
  unfold Turn.perform
  split
  · exact (clean.conclude near fits (by simp)).more
  · exact clean.evaluate room language fits
  next op _ =>
    have answers := clean.execute language op
    split
    next v u done =>
      rw [done] at answers
      exact (answers.clean.conclude near fits (by rintro _ ⟨⟩; exact answers.value v rfl)).more
    next done =>
      rw [done] at answers
      exact (answers.clean.conclude near fits (by simp)).more
    next target reason u done =>
      rw [done] at answers
      exact (answers.clean.unwind near fits target reason).more
    next action u done =>
      rw [done] at answers
      exact answers.clean.resolve room language fits fun v same => answers.resumed v (by rw [same])

theorem Clean.serve (clean : t.Clean small count) {request : Request} (fits : request.Fits) :
    (t.serve s request).Settled small (count + 1) := by
  have free : Clean small count { t with worker := { t.worker with returnedToPrompt := false } } :=
    clean.alike rfl rfl rfl rfl rfl rfl
  exact free.perform room language fits

theorem Settled.promptEvent (settled : t.Settled small count) (nested : t.worker.levels ≠ [])
    {event : Event} (fits : ∀ request, event = .request request → request.Fits) :
    (t.promptEvent s event).Settled small (count + 1) := by
  have near : small → count < wordLimit := fun n => by have := room n; omega
  have clean := settled.clean
  cases event with
  | request request => exact clean.serve room language (fits request rfl)
  | readReply tag text => exact Settled.more ⟨clean.background _, settled.activity⟩
  | wake =>
    unfold Turn.promptEvent
    dsimp only
    split
    · exact (clean.collapse near nested rfl).more
    · split
      · have calm : Clean small count { t with worker :=
            { t.worker with interrupted := false, returnedToPrompt := false } } :=
          clean.alike rfl rfl rfl rfl rfl rfl
        exact calm.openLevel room language (by simp [Condition.interrupt]) (by simp) fun _ => nested
      · exact settled.more

theorem Settled.readEvent (settled : t.Settled small count) {request : Request} {tag : Tag}
    {next : Except Condition String → Program Sexp}
    (reading : t.worker.activity = .reading request tag next)
    {event : Event} (fits : ∀ request, event = .request request → request.Fits) :
    (t.readEvent s request tag next event).Settled small (count + 1) := by
  have clean := settled.clean
  have worker := clean.worker
  have activity := settled.activity
  rw [reading] at activity
  obtain ⟨own, low, proper⟩ := activity
  cases event with
  | request later =>
    refine Settled.more ⟨clean.withWorker ⟨worker.me, worker.grounded, worker.openers, ?_,
      worker.depth, worker.tag⟩, settled.activity⟩
    intro r mem
    have waits : r ∈ t.worker.queue ∨ r = later := by
      simp only [Worker.queue, List.mem_append, List.mem_singleton] at mem ⊢
      grind
    rcases waits with older | rfl
    · exact worker.queue r older
    · exact fits r rfl
  | readReply got text =>
    unfold Turn.readEvent
    dsimp only
    split
    · exact clean.run room language own (proper (.ok text) trivial)
    · exact Settled.more ⟨clean.background _, settled.activity⟩
  | wake =>
    obtain ⟨checked, bare, same⟩ := clean.check s
    unfold Turn.readEvent
    dsimp only
    split
    next c u looked =>
      rw [looked] at checked bare
      refine Clean.run room language own (proper _ bare)
        (checked.utter ⟨by simp [Message.value?], fun n => ?_⟩)
      exact Message.numbersFitIff.mpr
        ⟨by simpa using checked.worker.me n, by simpa using low n, by simp⟩
    next u looked =>
      rw [looked] at checked same
      exact Settled.more ⟨checked, same ▸ settled.activity⟩

end

end Turn

namespace Worker
variable {small : Prop} {count : Nat} {s : Service}

structure Settled (small : Prop) (count : Nat) (w : Worker) : Prop where
  clean : w.Clean small count
  activity : w.activity.Proper small

theorem Settled.more {w : Worker} (settled : w.Settled small count) : w.Settled small (count + 1) :=
  ⟨settled.clean.more, settled.activity⟩

theorem startSettled {ref : WorkerRef} {request : Request} (fits : request.Fits)
    (positive : small → 1 ≤ ref) : (start ref request).Settled small count :=
  ⟨⟨positive, trivial, by simp [start], by simp [start, queue], Nat.zero_le _,
    fun _ => Nat.zero_le _⟩, fits⟩

theorem Settled.turn {w : Worker} (settled : w.Settled small count) {globals : Globals}
    (proper : globals.Proper) : Turn.Settled small count { worker := w, globals } :=
  ⟨⟨settled.clean, proper, by simp [Turn.said]⟩, settled.activity⟩

theorem Settled.unmailed {w : Worker} (settled : w.Settled small count) {event : Event}
    {later : List Event} (mailbox : w.mailbox = event :: later) :
    Settled small count { w with mailbox := later } ∧
      ∀ request, event = .request request → request.Fits := by
  have clean := settled.clean
  refine ⟨⟨⟨clean.me, clean.grounded, clean.openers, fun r mem => ?_, clean.depth, clean.tag⟩,
    settled.activity⟩, fun request same => ?_⟩
  · refine clean.queue r ?_
    simp only [queue, mailbox, List.mem_append, List.mem_filterMap] at mem ⊢
    grind
  · refine clean.queue request ?_
    simp [queue, mailbox, same, Event.request?]

theorem stepSettled {w : Worker} (room : small → count + 1 < wordLimit)
    (language : s.language.Proper) (settled : w.Settled small count) (sound : w.Sound)
    {globals : Globals} (proper : globals.Proper) {t : Turn} (moved : w.step s globals = some t) :
    t.Settled small (count + 1) := by
  have near : small → count < wordLimit := fun n => by have := room n; omega
  have start := settled.turn proper
  have clean := start.clean
  have activity := settled.activity
  have queue := settled.clean.queue
  unfold step at moved
  dsimp only at moved
  split at moved
  · contradiction
  next request about =>
    rw [about] at activity
    cases moved
    exact clean.perform room language activity
  next request next about =>
    rw [about] at activity
    obtain ⟨checked, bare, _⟩ := clean.check s
    split at moved
    next c u looked =>
      rw [looked] at checked bare
      cases moved
      exact checked.run room language activity.1 (activity.2 c bare)
    · contradiction
  next request rest _ about =>
    rw [about] at activity
    cases moved
    exact clean.run room language activity.1 activity.2
  next about =>
    split at moved
    next request later backlog =>
      cases moved
      obtain ⟨first, others⟩ := List.forall_mem_cons.mp
        (show ∀ r ∈ request :: (later ++ w.mailbox.filterMap Event.request?), r.Fits by
          simpa [Worker.queue, backlog] using queue)
      have served : Turn.Clean small count { worker := { w with backlog := later }, globals } :=
        clean.withWorker ⟨settled.clean.me, settled.clean.grounded, settled.clean.openers, others,
          settled.clean.depth, settled.clean.tag⟩
      exact served.serve room language first
    next event later _ mailbox =>
      cases moved
      obtain ⟨rest, fits⟩ := settled.unmailed mailbox
      exact (rest.turn proper).promptEvent room language (sound.prompt about) fits
    · split at moved
      · contradiction
      · cases moved
        exact (clean.collapse near (sound.prompt about) rfl).more
  next request tag next about =>
    split at moved
    next event later mailbox =>
      cases moved
      obtain ⟨rest, fits⟩ := settled.unmailed mailbox
      exact (rest.turn proper).readEvent room language about fits
    · split at moved
      · contradiction
      · cases moved
        rw [about] at activity
        exact clean.run room language activity.1 (activity.2.2 (.error .cancelled) rfl)

end Worker
end RemoteEval
