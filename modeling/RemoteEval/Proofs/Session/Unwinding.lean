import RemoteEval.Calc.Builtin
import RemoteEval.Proofs.Session.Sendable
import RemoteEval.Proofs.Worker.Unwinding

/-! Prompts that a session can come to. Each level that is open was announced by its worker, with
the restarts that it still offers; so what the client was shown is what a request at the prompt
chooses from, and the levels unwind as the choice says. -/
namespace RemoteEval

def Worker.Shown (w : Worker) (worker : WorkerId) (entries : List Entry) : Prop :=
  ∀ opened below, (opened :: below) <:+ w.levels →
    opened.restarts = offeredRestarts opened.condition opened.origin (below.length + 1) ∧
    ∃ frames, ⟨some ⟨worker, w.me⟩, .said ⟨.message (.debugEnter w.me
      (below.length + 1).toUInt64 opened.description opened.restartViews frames),
        opened :: below⟩⟩ ∈ entries

namespace Worker
variable {v w : Worker} {worker : WorkerId} {entries more : List Entry}

theorem Shown.later (shown : w.Shown worker entries) : w.Shown worker (entries ++ more) := by
  intro opened below isOpen
  obtain ⟨offered, frames, said⟩ := shown opened below isOpen
  exact ⟨offered, frames, List.mem_append_left _ said⟩

theorem Shown.alike (shown : w.Shown worker entries) (me : v.me = w.me)
    (levels : v.levels = w.levels) : v.Shown worker entries := by
  unfold Shown
  rw [me, levels]
  exact shown

theorem Shown.offering (shown : w.Shown worker entries) : DebugStack.Offering w.levels :=
  fun opened below isOpen => (shown opened below isOpen).1

theorem Shown.step {s : Service} {globals : Globals} {t : Turn} (shown : w.Shown worker entries)
    (sound : w.Sound) (moved : w.step s globals = some t) (me : t.worker.me = w.me) :
    t.worker.Shown worker (entries ++ (w.deeds t).map (⟨some ⟨worker, w.me⟩, ·⟩)) := by
  intro opened below isOpen
  rw [me]
  rcases stepAnnounces sound moved opened below isOpen with before | ⟨offered, frames, said⟩
  · exact shown.later opened below before
  · refine ⟨offered, frames, List.mem_append_right _ (List.mem_map.mpr ⟨_, ?_, rfl⟩)⟩
    rw [me] at said
    exact List.mem_append_right _ (List.mem_map.mpr ⟨_, said, rfl⟩)

end Worker

namespace Log

def Shows (l : Log) : Prop :=
  ∀ worker w, l.session.workers.get? worker = some w → w.Shown worker l.entries

theorem receiveShows {l : Log} (shows : l.Shows) (m : Message) :
    (l.step (.receive m)).Shows := by
  intro worker w found
  obtain ⟨inFlight, side, effect, _⟩ := l.stepReceive m
  rw [effect] at found ⊢
  refine Worker.Shown.later ?_
  have routed := l.session.routeRouted m
  generalize l.session.route m = result at routed found
  obtain ⟨said, s⟩ := result
  have posted : ∀ {other v event interrupted}, l.session.workers.get? other = some v →
      (l.session.workers.insert other (Session.mail event { v with interrupted })).get? worker =
        some w → w.Shown worker l.entries := by
    intro other v event interrupted before after
    simp only [Table.getInsert, Table.rankEq] at after
    split at after
    next same =>
      subst same
      cases after
      exact (shows other v before).alike rfl rfl
    · exact shows worker w after
  cases routed with
  | spawned allocated =>
    simp only [Table.getInsert, Table.rankEq] at found
    split at found
    · cases found
      intro opened below isOpen
      simp [Worker.start] at isOpen
    · exact shows worker w found
  | queued live before => exact posted before found
  | unknown absent | noted text other => exact shows worker w found
  | posted interrupted before other news => exact posted before found

theorem workShows {l : Log} (shows : l.Shows) (orderly : l.Orderly) (id : WorkerId) (pace : Pace)
    (globals : Globals) : (l.step (.work id pace globals)).Shows := by
  intro worker v there
  rcases l.stepWork id pace globals with same | ⟨w, t, inFlight, side, found, moved, effect, _⟩
  · rw [same] at there ⊢
    exact shows worker v there
  obtain ⟨-, me, -⟩ := Worker.stepKeeps (orderly.sound found) moved
  rw [effect] at there ⊢
  simp only [Session.resumeGet] at there
  split at there
  next same =>
    subst same
    split at there <;> cases there
    exact (shows worker w found).step (orderly.sound found) moved me
  · obtain ⟨before, standing, rfl⟩ := Option.map_eq_some_iff.mp there
    refine Worker.Shown.later ?_
    split
    · exact (shows worker before standing).alike rfl rfl
    · exact shows worker before standing

theorem stepShows {l : Log} (shows : l.Shows) (orderly : l.Orderly) (move : Move) :
    (l.step move).Shows := by
  cases move with
  | receive m => exact receiveShows shows m
  | work worker pace globals => exact workShows shows orderly worker pace globals
  | loseSide | cancel | closeWriter => exact shows
  | cutOff =>
    intro worker v there
    have inward := l.session.cutOffInward worker
    rw [show l.session.cutOff.workers.get? worker = some v from there, Option.map_some] at inward
    obtain ⟨w, found, same⟩ := Option.map_eq_some_iff.mp inward.symm
    have levels : v.inward.levels = w.inward.levels := by rw [same]
    exact (shows worker w found).alike (Worker.inwardMe same.symm) levels

theorem runShows {l : Log} (shows : l.Shows) (orderly : l.Orderly) (moves : List Move) :
    (l.run moves).Shows := by
  induction moves generalizing l with
  | nil => exact shows
  | cons move rest ih => exact ih (stepShows shows orderly move) (stepOrderly orderly move)

theorem openingShows (service : Service) (port : UInt16) : (opening service port).Shows := by
  intro worker w found
  obtain ⟨side, session⟩ := openingSession service port
  rw [session] at found
  cases found

/- What a prompt offers is what was announced of its level. The restart of a level below stands at
its index, and each way of choosing it closes the levels down to it in the turn that takes the
request. A restart that resolves the level closes just that one. -/
theorem promptUnwinds (service : Service) (port : UInt16) (moves : List Move) {worker : WorkerId}
    {w : Worker} (found : ((opening service port).run moves).session.workers.get? worker = some w)
    (prompt : w.activity = .prompt) :
    ∃ opened below, w.levels = opened :: below ∧
    (∃ frames, ⟨some ⟨worker, w.me⟩, .said ⟨.message (.debugEnter w.me
      (below.length + 1).toUInt64 opened.description
      (offeredViews opened.condition opened.origin (below.length + 1)) frames), w.levels⟩⟩ ∈
        ((opening service port).run moves).entries) ∧
    (∀ k < below.length + 1, (offeredViews opened.condition opened.origin (below.length + 1))[
      abortIndex opened.condition (below.length + 1) k]? = some (abortTo k).view) ∧
    ∀ request w', w.taken? = some (request, w') →
      ∀ op, Operation.parse request.form = .ok (some op) → ∀ s globals,
      ∃ t, w.step s globals = some t ∧
      (∀ k, Chooses w.levels op k →
        t.Lands w' ((.returned w.me (.abort none) request.id ::
          closings w.me none k w.levels).map .message) k) ∧
      (∀ r action, Picks opened (below.length + 1) op r →
        r.kind.action? s opened.condition = some action →
        t.Resolves s w' globals request opened below action) := by
  have orderly := runOrderly (openingOrderly service port) moves
  have sound := orderly.sound found
  have shown := runShows (openingShows service port) (openingOrderly service port) moves _ w found
  obtain ⟨opened, below, levels⟩ := List.exists_cons_of_ne_nil (sound.prompt prompt)
  obtain ⟨offered, frames, said⟩ := shown opened below (levels ▸ List.suffix_rfl)
  have views : opened.restartViews =
      offeredViews opened.condition opened.origin (below.length + 1) := by
    rw [DebugLevel.restartViews, offered, offeredViewsEq]
  refine ⟨opened, below, levels, ⟨frames, ?_⟩, fun k inner => ?_, fun request w' taken op parsed
    s globals => ⟨_, Worker.stepTaken prompt taken, fun k chooses => ?_,
      fun r action picks resolves => ?_⟩⟩
  · rw [← views, levels]
    exact said
  · rw [← offeredViewsEq, List.getElem?_map, offeredAbort _ _ inner]
    rfl
  · obtain ⟨me, same⟩ := Worker.takenKeeps taken
    rw [← me, ← same]
    rw [← same] at chooses
    exact performLands parsed (same ▸ shown.offering) chooses
  · obtain ⟨-, same⟩ := Worker.takenKeeps taken
    exact performResolves parsed (same.trans levels) (same ▸ shown.offering)
      (same ▸ sound.grounded) picks resolves

def AboutToTake (w : Worker) (request : Request) (closed last : List Message) : Prop :=
  w.activity = .prompt ∧ w.me = 1 ∧ w.levels ≠ [] ∧ closings w.me none 0 w.levels = closed ∧
    ∃ w', w.taken? = some (request, w') ∧ Turn.lastWords w' = last.map .message

instance (w : Worker) (request : Request) (closed last : List Message) :
    Decidable (AboutToTake w request closed last) :=
  decidable_of_iff (((match w.activity with
      | .prompt => true
      | _ => false) && w.me == 1 && !w.levels.isEmpty && closings w.me none 0 w.levels == closed &&
      w.taken?.any fun taken => taken.1 == request && Turn.lastWords taken.2 == last.map .message)
        = true) (by
    unfold AboutToTake
    cases w.activity <;> simp [Option.any_eq_true, and_assoc])

def twoLevels : List Move := [
  .receive (.request "x" "U" .new 1), .work 0 .throughRests [],
  .receive (.request "y" "U" (.worker 1) 2), .work 0 .throughRests [],
  .receive (.request "(slink:throw-to-toplevel)" "U" (.worker 1) 3)]

theorem twoLevelsUnwind :
    let s := ((opening { language := Calc.language } 0).run twoLevels).session
    ∃ w t, s.workers.get? 0 = some w ∧ w.activity = .prompt ∧ w.step s.service [] = some t ∧
      t.said = ([.returned 1 (.abort none) 3, .debugReturn 1 2, .returned 1 (.abort none) 2,
        .debugReturn 1 1, .returned 1 (.abort none) 1] : List Message).map .message := by
  intro s
  have ready : (s.workers.get? 0).any (fun w => AboutToTake w
      ⟨"(slink:throw-to-toplevel)", "U", 3⟩ [.debugReturn 1 2, .returned 1 (.abort none) 2,
        .debugReturn 1 1, .returned 1 (.abort none) 1] []) = true := by decide +kernel
  obtain ⟨w, found, ready⟩ := (Option.any_eq_true _ _).mp ready
  obtain ⟨prompt, me, nested, closed, w', taken, last⟩ := of_decide_eq_true ready
  obtain ⟨opened, below, levels, -, -, served⟩ :=
    promptUnwinds { language := Calc.language } 0 twoLevels found prompt
  have parsed : Operation.parse "(slink:throw-to-toplevel)" = .ok (some .throwToToplevel) := by
    decide +kernel
  obtain ⟨t, moved, unwinds, -⟩ := served _ w' taken _ parsed s.service []
  have lands := unwinds 0 (levels ▸ .toplevel)
  refine ⟨w, t, found, prompt, moved, ?_⟩
  rw [lands.said, closed, me, Worker.arrival, if_pos rfl, last]
  rfl

def replyBehind : List Move := [
  .receive (.request "x" "U" .new 1), .work 0 .throughRests [],
  .receive (.request "(slink:throw-to-toplevel)" "U" (.worker 1) 2),
  .receive (.readStringReply 1 5 "line")]

/- So not only answers follow when a worker has come to its end. -/
theorem staleReplyReported : ¬ ∀ (moves : List Move) (worker : WorkerId) (w w' : Worker)
    (request : Request) (globals : Globals) (t : Turn),
    let s := ((opening { language := Calc.language } 0).run moves).session
    s.workers.get? worker = some w → w.activity = .prompt → w.taken? = some (request, w') →
    Operation.parse request.form = .ok (some .throwToToplevel) →
    w.step s.service globals = some t →
    ∃ leftover : List Request, t.said = (Message.returned w.me (.abort none) request.id ::
      (closings w.me none 0 w.levels ++ leftover.map fun r =>
        .returned w.me (.abort (some s!"worker {w.me} finished")) r.id)).map .message := by
  intro onlyAnswers
  have ready : (((opening { language := Calc.language } 0).run replyBehind).session.workers.get?
      0).any (fun w => AboutToTake w ⟨"(slink:throw-to-toplevel)", "U", 2⟩
        [.debugReturn 1 1, .returned 1 (.abort none) 1]
        [.backgroundMessage "worker 1 has no pending read with tag 5"]) = true := by
    decide +kernel
  obtain ⟨w, found, ready⟩ := (Option.any_eq_true _ _).mp ready
  obtain ⟨prompt, me, nested, closed, w', taken, last⟩ := of_decide_eq_true ready
  have parsed : Operation.parse (⟨"(slink:throw-to-toplevel)", "U", 2⟩ : Request).form =
      .ok (some .throwToToplevel) := by decide +kernel
  obtain ⟨leftover, said⟩ := onlyAnswers replyBehind 0 w w' _ [] _ found prompt taken parsed
    (Worker.stepTaken prompt taken)
  obtain ⟨me', same⟩ := Worker.takenKeeps taken
  obtain ⟨opened, below, levels⟩ := List.exists_cons_of_ne_nil nested
  have shown := runShows (openingShows { language := Calc.language } 0)
    (openingOrderly { language := Calc.language } 0) replyBehind 0 w found
  have chooses : Chooses w'.levels .throwToToplevel 0 := by
    rw [same, levels]
    exact .toplevel
  have late := (performLands parsed (same ▸ shown.offering) chooses).said.symm.trans said
  rw [me', same, closed, Worker.arrival, if_pos rfl, last] at late
  cases leftover <;> simp at late

end Log
end RemoteEval
