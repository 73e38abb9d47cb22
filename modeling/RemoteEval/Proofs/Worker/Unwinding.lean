import RemoteEval.Proofs.Worker.Conduct

/-! How levels close. What a level offers is a list in a fixed order, so the restart that unwinds
to a level stands at a known index, whatever the restarts of the condition are called. Choosing it
closes the levels above one after the other, in the same turn, and no event is looked at before the
worker is back at a prompt or has ended. -/
namespace RemoteEval

def abortTo (k : Nat) : OfferedRestart :=
  ⟨⟨"ABORT", if k = 0 then "Return to top level." else s!"Return to debug level {k}."⟩, .unwind k⟩

theorem unwindRestartsEq (n : Nat) : unwindRestarts n = (List.range n).reverse.map abortTo := by
  induction n using unwindRestarts.induct with
  | case1 | case2 => rfl
  | case3 n ih =>
    rw [unwindRestarts, ih, List.range_succ (n := n + 1), List.reverse_append]
    rfl

def ownRestarts {ρ : Type} (c : Condition) (origin : Origin ρ) (n : Nat) : List OfferedRestart :=
  c.restarts.mapIdx (fun i r => ⟨⟨r.name, r.description⟩, .language i⟩) ++
  if c.kind = .interrupt then [interruptRestart origin n] else []

section Offered
variable {ρ : Type} (c : Condition) (origin : Origin ρ) (n : Nat)

theorem offeredEq : offeredRestarts c origin n =
    ownRestarts c origin n ++ (List.range n).reverse.map abortTo := by
  rw [offeredRestarts, unwindRestartsEq, ownRestarts]

theorem ownLength : (ownRestarts c origin n).length =
    c.restarts.length + if c.kind = .interrupt then 1 else 0 := by
  unfold ownRestarts
  split <;> simp

theorem ownResolves :
    ∀ r ∈ ownRestarts c origin n, ¬ DebugStack.RestartKind.isUnwind r.kind = true := by
  intro r member
  rcases List.mem_append.mp member with language | interrupt
  · obtain ⟨i, _, rfl⟩ := List.mem_mapIdx.mp language
    simp [DebugStack.RestartKind.isUnwind]
  · split at interrupt
    · obtain rfl := List.mem_singleton.mp interrupt
      cases origin <;> simp [interruptRestart, DebugStack.RestartKind.isUnwind]
    · cases interrupt

end Offered

def abortIndex (c : Condition) (n k : Nat) : Nat :=
  c.restarts.length + (if c.kind = .interrupt then 1 else 0) + (n - 1 - k)

theorem offeredAbort {ρ : Type} (c : Condition) (origin : Origin ρ) {n k : Nat} (inner : k < n) :
    (offeredRestarts c origin n)[abortIndex c n k]? = some (abortTo k) := by
  have length := ownLength c origin n
  have place : (List.range n).reverse[n - 1 - k]? = some k := by
    rw [List.getElem?_reverse (by simpa using (by omega : n - 1 - k < n)), List.length_range,
      List.getElem?_range (by omega)]
    congr 1
    omega
  rw [offeredEq, abortIndex, List.getElem?_append_right (by omega), length,
    Nat.add_sub_cancel_left, List.getElem?_map, place]
  rfl

def offeredViews (c : Condition) (origin : Origin Request) (n : Nat) : List RestartView :=
  c.restarts.map (fun r => ⟨r.name, r.description⟩) ++
  (if c.kind = .interrupt then
    match origin with
    | .evaluation _ => [⟨"RETRY", "Evaluate the interrupted form again."⟩]
    | .prompt => [⟨"CONTINUE", s!"Return to debug level {n - 1}."⟩]
  else []) ++
  (List.range n).reverse.map fun k => (abortTo k).view

theorem offeredViewsEq (c : Condition) (origin : Origin Request) (n : Nat) :
    (offeredRestarts c origin n).map OfferedRestart.view = offeredViews c origin n := by
  have taken : (if c.kind = .interrupt then [interruptRestart origin n] else []).map
      OfferedRestart.view = if c.kind = .interrupt then
        match origin with
        | .evaluation _ => [⟨"RETRY", "Evaluate the interrupted form again."⟩]
        | .prompt => [⟨"CONTINUE", s!"Return to debug level {n - 1}."⟩]
      else [] := by
    split
    · cases origin <;> rfl
    · rfl
  have own : (c.restarts.mapIdx fun i r =>
      (⟨⟨r.name, r.description⟩, .language i⟩ : OfferedRestart)).map OfferedRestart.view =
        c.restarts.map fun r => ⟨r.name, r.description⟩ := by
    refine List.ext_getElem? fun i => ?_
    simp [Function.comp_def]
  rw [offeredRestarts, unwindRestartsEq, List.map_append, List.map_append, taken, own,
    List.map_map]
  rfl

namespace DebugStack

def Offering (levels : DebugStack Request) : Prop :=
  ∀ opened below, (opened :: below) <:+ levels →
    opened.restarts = offeredRestarts opened.condition opened.origin (below.length + 1)

theorem abortOffered {opened : DebugLevel Request} {below : DebugStack Request}
    (offered : opened.restarts =
      offeredRestarts opened.condition opened.origin (below.length + 1)) :
    abortRestart (opened :: below) = some (.unwind below.length) := by
  have first : ((List.range (below.length + 1)).reverse.map abortTo).find?
      (RestartKind.isUnwind ·.kind) = some (abortTo below.length) := by
    rw [List.range_succ, List.reverse_append]
    rfl
  rw [abortRestart, current?, List.head?_cons]
  simp only [Option.bind_eq_bind, Option.bind_some, offered, offeredEq, List.find?_append,
    List.find?_eq_none.mpr (ownResolves _ _ _), first, Option.none_or]
  rfl

end DebugStack

def openerAnswer (me : WorkerRef) (reason : Option String) : Origin Request → List Message
  | .evaluation opener => [.returned me (.abort reason) opener.id]
  | .prompt => []

/- What is said of the levels that close down to number `k`: each is reported, and then the request
that had opened it is answered. -/
def closings (me : WorkerRef) (reason : Option String) (k : Nat) : DebugStack Request → List Message
  | [] => []
  | closing :: below =>
    if below.length < k then []
    else .debugReturn me (below.length + 1).toUInt64 ::
      openerAnswer me reason closing.origin ++ closings me reason k below

namespace Worker

def landed (w : Worker) (k : Nat) : Worker :=
  if k = 0 then { w with
    activity := .finished, levels := [], mailbox := [], backlog := [], returnedToPrompt := true }
  else { w with
    activity := .prompt, levels := w.levels.drop (w.levels.length - k), returnedToPrompt := false }

def arrival (w : Worker) (k : Nat) : List Utterance :=
  if k = 0 then Turn.lastWords w else [.message (.debugActivate w.me k.toUInt64)]

end Worker

/- The turn has come to level `k`, and `told` was all that was said on the way. -/
structure Turn.Lands (t : Turn) (w : Worker) (told : List Utterance) (k : Nat) : Prop where
  said : t.said = told ++ w.arrival k
  worker : t.worker = w.landed k

namespace Turn
variable {s : Service} {t : Turn}

@[simp] theorem saidSay (m : Message) : (t.say m).said = t.said ++ [.message m] := by
  simp [said, say, utter]

@[simp] theorem saidAnswer (value : Outcome) (id : RequestId) :
    (t.answer value id).said = t.said ++ [.message (.returned t.worker.me value id)] := saidSay _

theorem saidRetire : t.retire.said = t.said ++ lastWords t.worker := by
  rw [retireEq]
  simp [said, Function.comp_def]

theorem saidLeaveLevel {closing : DebugLevel Request} {below : DebugStack Request}
    (levels : t.worker.levels = closing :: below) : t.leaveLevel.said =
      t.said ++ [.message (.debugReturn t.worker.me (below.length + 1).toUInt64)] := by
  rw [leaveLevel, saidSay, level, DebugStack.level, levels]
  rfl

theorem saidToPrompt (returned : t.worker.returnedToPrompt = true) : t.toPrompt.said =
    t.said ++ [.message (.debugActivate t.worker.me t.worker.levels.length.toUInt64)] := by
  have due : (t.doing .prompt).worker.returnedToPrompt = true := returned
  simp only [toPrompt, due, if_true]
  exact saidSay (t := t.doing .prompt) _

theorem toPromptWorker (t : Turn) : t.toPrompt.worker =
    { t.worker with activity := .prompt, returnedToPrompt := false } := by
  unfold toPrompt
  cases flag : t.worker.returnedToPrompt with
  | true => simp [flag]
  | false => simp [flag]

theorem arriveLands {w : Worker} {closing : DebugLevel Request} {below : DebugStack Request}
    (levels : w.levels = closing :: below)
    (worker : t.worker = { w with levels := below, returnedToPrompt := true }) :
    (if below.isEmpty then t.retire else t.toPrompt).Lands w t.said below.length := by
  have returned : t.worker.returnedToPrompt = true := by rw [worker]
  cases below with
  | nil =>
    constructor
    · rw [List.isEmpty_nil, if_pos rfl, saidRetire, worker]
      rfl
    · rw [List.isEmpty_nil, if_pos rfl, retireEq, worker]
      rfl
  | cons next rest =>
    have outer : (next :: rest).length ≠ 0 := Nat.succ_ne_zero _
    have deep : w.levels.drop (w.levels.length - (next :: rest).length) = next :: rest := by
      simp [levels]
    rw [List.isEmpty_cons, if_neg Bool.false_ne_true]
    constructor
    · rw [saidToPrompt returned, Worker.arrival, if_neg outer, worker]
    · rw [toPromptWorker, Worker.landed, if_neg outer, deep, worker]

theorem collapseOne (reason : Option String) {closing : DebugLevel Request}
    {below : DebugStack Request} (levels : t.worker.levels = closing :: below) :
    ∃ u : Turn, u.worker = { t.worker with levels := below, returnedToPrompt := true } ∧
      u.said = t.said ++ (Message.debugReturn t.worker.me (below.length + 1).toUInt64 ::
        openerAnswer t.worker.me reason closing.origin).map .message ∧
      ∀ k, collapse k reason (closing :: below) t =
        if k < below.length then collapse k reason below u
        else if below.isEmpty then u.retire else u.toPrompt := by
  have left := saidLeaveLevel levels
  have worker := t.leaveLevelWorker
  rw [levels, List.tail_cons] at worker
  have round (u : Turn) (k : Nat) : (if below.isEmpty then u.retire
      else if k < DebugStack.level below then collapse k reason below u else u.toPrompt) =
        if k < below.length then collapse k reason below u
        else if below.isEmpty then u.retire else u.toPrompt := by
    cases below <;> rfl
  cases origin : closing.origin with
  | evaluation opener =>
    refine ⟨t.leaveLevel.answer (.abort reason) opener.id, worker, ?_, fun k => ?_⟩
    · rw [saidAnswer, left, worker, List.append_assoc]
      rfl
    · simp only [collapse, origin, round]
  | prompt =>
    refine ⟨t.leaveLevel, worker, left, fun k => ?_⟩
    simp only [collapse, origin, round]

theorem Lands.above {w : Worker} {told : List Utterance} {k : Nat} {closing : DebugLevel Request}
    {below : DebugStack Request} (levels : w.levels = closing :: below) (inner : k ≤ below.length)
    (lands : t.Lands { w with levels := below, returnedToPrompt := true } told k) :
    t.Lands w told k := by
  refine ⟨lands.said, lands.worker.trans ?_⟩
  unfold Worker.landed
  split
  · rfl
  · rw [levels, List.length_cons, Nat.succ_sub inner, List.drop_succ_cons]

/- By induction on the levels that close. The request that opened a level is answered when the
level is gone, and the turn goes on from there. -/
theorem collapseLands (reason : Option String) {k : Nat} {closing : DebugLevel Request}
    {below : DebugStack Request} (levels : t.worker.levels = closing :: below)
    (inner : k ≤ below.length) : (collapse k reason (closing :: below) t).Lands t.worker
      (t.said ++ (closings t.worker.me reason k (closing :: below)).map .message) k := by
  induction below generalizing closing t with
  | nil =>
    obtain rfl : k = 0 := Nat.le_zero.mp inner
    obtain ⟨u, worker, told, round⟩ := collapseOne reason levels
    have landed := arriveLands levels worker
    rw [told] at landed
    simpa [round, closings] using landed
  | cons next rest ih =>
    obtain ⟨u, worker, told, round⟩ := collapseOne reason levels
    have deeper : u.worker.levels = next :: rest := by rw [worker]
    rw [round, closings, if_neg (Nat.not_lt.mpr inner), List.map_append, ← List.append_assoc,
      ← told]
    by_cases further : k < (next :: rest).length
    · have landed := ih deeper (Nat.lt_succ_iff.mp further)
      rw [worker] at landed
      rw [if_pos further]
      exact landed.above levels inner
    · obtain rfl : (next :: rest).length = k := Nat.le_antisymm (Nat.not_lt.mp further) inner
      have closed : closings t.worker.me reason (next :: rest).length (next :: rest) = [] := by
        simp [closings]
      rw [if_neg further, closed, List.map_nil, List.append_nil]
      exact arriveLands levels worker

theorem unwindLands {request : Request} {reason : Option String} {k : Nat}
    (inner : k < t.worker.levels.length) : (t.unwind request k reason).Lands t.worker
      (t.said ++ (Message.returned t.worker.me (.abort reason) request.id ::
        closings t.worker.me reason k t.worker.levels).map .message) k := by
  have worker := t.answerWorker (.abort reason) request.id
  have unwound : t.unwind request k reason =
      collapse k reason t.worker.levels (t.answer (.abort reason) request.id) := by
    have open' : t.worker.levels.isEmpty = false := by
      cases levels : t.worker.levels with
      | nil => simp [levels] at inner
      | cons => rfl
    have deep : k < (t.answer (.abort reason) request.id).level := inner
    simp only [unwind, answerWorker, open', deep, Bool.false_eq_true, if_false, if_true]
  obtain ⟨closing, below, levels⟩ := List.exists_cons_of_length_pos (Nat.zero_lt_of_lt inner)
  rw [levels] at inner
  have landed := collapseLands reason (t := t.answer (.abort reason) request.id) levels
    (Nat.lt_succ_iff.mp inner)
  rw [saidAnswer, answerWorker] at landed
  rw [unwound, levels, List.map_cons, List.append_cons]
  exact landed

end Turn

inductive Chooses : DebugStack Request → Operation → Nat → Prop where
  | restart {opened below k} (inner : k < below.length + 1) :
      Chooses (opened :: below)
        (.invokeRestart (below.length + 1) (abortIndex opened.condition (below.length + 1) k)) k
  | abort {opened below} : Chooses (opened :: below) .abort below.length
  | toplevel {opened below} : Chooses (opened :: below) .throwToToplevel 0

inductive Picks (opened : DebugLevel Request) (n : Nat) : Operation → OfferedRestart → Prop where
  | indexed {index r}
      (place : (offeredRestarts opened.condition opened.origin n)[index]? = some r) :
      Picks opened n (.invokeRestart n index) r
  | named {r} (first : (offeredRestarts opened.condition opened.origin n).find?
      (·.view.name == "CONTINUE") = some r) : Picks opened n .continue r

def RestartKind.action? (s : Service) (c : Condition) : RestartKind → Option RestartAction
  | .language index => (s.language.invokeRestart c index).toOption
  | .retry => some .retry
  | .continue => some (.resume .nil)
  | .unwind _ => none

/- A turn in which a request has resolved the innermost level of `w`. The request that opened the
level has the value or is evaluated again, and a prompt that was interrupted is active again. -/
def Turn.Resolves (t : Turn) (s : Service) (w : Worker) (globals : Globals) (request : Request)
    (opened : DebugLevel Request) (below : DebugStack Request) (action : RestartAction) : Prop :=
  let told : List Utterance := [.message (.returned w.me (.abort none) request.id),
    .message (.debugReturn w.me (below.length + 1).toUInt64)]
  match opened.origin, action with
  | .evaluation opener, .resume v =>
    t.Lands w (told ++ [.message (.returned w.me (.ok v) opener.id)]) below.length
  | .evaluation opener, .retry => ∃ u : Turn, t = u.evaluate s opener ∧ u.globals = globals ∧
      u.worker = { w with levels := below, returnedToPrompt := true } ∧ u.said = told
  | .prompt, _ => t.Lands w told below.length

namespace Turn
variable {s : Service} {t : Turn}

theorem executeChooses {op : Operation} {k : Nat}
    (offering : DebugStack.Offering t.worker.levels) (chooses : Chooses t.worker.levels op k) :
    t.execute s op = (.error (.unwind k none), t) ∧ k < t.worker.levels.length := by
  generalize levels : t.worker.levels = stack at chooses offering
  cases chooses with
  | @restart opened below k inner =>
    have offered := offering opened below List.suffix_rfl
    have picked : DebugStack.restart (opened :: below) (below.length + 1)
        (abortIndex opened.condition (below.length + 1) k) = .ok (.unwind k) := by
      have place := offeredAbort opened.condition opened.origin inner
      simp [DebugStack.restart, DebugStack.level, offered, place, abortTo]
    refine ⟨?_, inner⟩
    simp [execute, Operation.needsDebugger, levels, picked, Turn.restart]
  | @abort opened below =>
    have picked := DebugStack.abortOffered (offering opened below List.suffix_rfl)
    refine ⟨?_, Nat.lt_succ_self _⟩
    simp [execute, Operation.needsDebugger, levels, picked, Turn.restart]
  | toplevel =>
    refine ⟨?_, Nat.zero_lt_succ _⟩
    simp [execute, Operation.needsDebugger, levels]

theorem executePicked {op : Operation} {opened : DebugLevel Request}
    {below : DebugStack Request} {r : OfferedRestart} (levels : t.worker.levels = opened :: below)
    (offering : DebugStack.Offering t.worker.levels)
    (picks : Picks opened (below.length + 1) op r) : t.execute s op = t.restart s r.kind := by
  rw [levels] at offering
  have offered := offering opened below List.suffix_rfl
  cases picks with
  | @indexed index _ place =>
    have picked : DebugStack.restart (opened :: below) (below.length + 1) index = .ok r.kind := by
      simp [DebugStack.restart, DebugStack.level, offered, place]
    simp [execute, Operation.needsDebugger, levels, picked]
  | named first =>
    have picked : DebugStack.findRestart (opened :: below) "CONTINUE" = some r.kind := by
      simp [DebugStack.findRestart, DebugStack.current?, offered, first]
    simp [execute, Operation.needsDebugger, levels, picked]

theorem executePicks {op : Operation} {opened : DebugLevel Request}
    {below : DebugStack Request} {r : OfferedRestart} {action : RestartAction}
    (levels : t.worker.levels = opened :: below)
    (offering : DebugStack.Offering t.worker.levels) (picks : Picks opened (below.length + 1) op r)
    (resolves : r.kind.action? s opened.condition = some action) :
    t.execute s op = (.error (.resolve action), t) := by
  rw [executePicked levels offering picks]
  have condition : t.condition = opened.condition := by
    simp [condition, DebugStack.current?, levels]
  cases kind : r.kind with
  | language index =>
    rw [kind, RestartKind.action?] at resolves
    rw [Turn.restart, condition]
    cases made : s.language.invokeRestart opened.condition index <;>
      simp_all [Except.toOption]
  | retry | «continue» | unwind => simp_all [RestartKind.action?, Turn.restart]

theorem resolveResolves (request : Request) (action : RestartAction) {opened : DebugLevel Request}
    {below : DebugStack Request} (levels : t.worker.levels = opened :: below)
    (grounded : DebugStack.Grounded t.worker.levels) (silent : t.said = []) :
    (t.resolve s request action).Resolves s t.worker t.globals request opened below action := by
  have told := saidLeaveLevel (t := t.answer (.abort none) request.id) levels
  have worker := (t.answer (.abort none) request.id).leaveLevelWorker
  rw [saidAnswer, silent, List.nil_append, answerWorker] at told
  rw [answerWorker, levels, List.tail_cons] at worker
  unfold Turn.Resolves
  cases origin : opened.origin with
  | evaluation opener =>
    cases action with
    | resume v =>
      simp only [resolve, answerWorker, levels, origin]
      have landed := arriveLands (t := (t.answer (.abort none) request.id).leaveLevel.answer (.ok v)
        opener.id) levels worker
      rw [saidAnswer, told, worker] at landed
      simp only [conclude, answerWorker, worker]
      exact landed
    | retry =>
      simp only [resolve, answerWorker, levels, origin]
      exact ⟨_, rfl, rfl, worker, told⟩
  | prompt =>
    simp only [resolve, answerWorker, levels, origin]
    rw [levels] at grounded
    have landed := arriveLands levels worker
    rw [told] at landed
    simpa [DebugStack.groundedPrompt grounded origin] using landed

end Turn

def Turn.Announces (t : Turn) (old : DebugStack Request) : Prop :=
  ∀ opened below, (opened :: below) <:+ t.worker.levels → (opened :: below) <:+ old ∨
    opened.restarts = offeredRestarts opened.condition opened.origin (below.length + 1) ∧
    ∃ frames, ⟨.message (.debugEnter t.worker.me (below.length + 1).toUInt64 opened.description
      opened.restartViews frames), opened :: below⟩ ∈ t.spoken

namespace Turn
variable {s : Service} {t u : Turn} {old : DebugStack Request}

theorem Announces.goesOn (announces : t.Announces old)
    (levels : u.worker.levels <:+ t.worker.levels) (me : u.worker.me = t.worker.me)
    {new : List Spoken} (spoken : u.spoken = t.spoken ++ new) : u.Announces old := by
  intro opened below isOpen
  rcases announces opened below (isOpen.trans levels) with before | ⟨offered, frames, said⟩
  · exact .inl before
  · refine .inr ⟨offered, frames, ?_⟩
    rw [me, spoken]
    exact List.mem_append_left _ said

theorem Announces.enter (announces : t.Announces old) (c : Condition) (origin : Origin Request) :
    (t.enter s c origin).Announces old := by
  intro opened below isOpen
  have spoken := t.enterSpoken s c origin
  rcases List.suffix_cons_iff.mp isOpen with new | before
  · obtain ⟨rfl, rfl⟩ := List.cons.inj new
    refine .inr ⟨rfl, shownFrames s c, ?_⟩
    rw [spoken]
    exact List.mem_append_right _ List.mem_cons_self
  · rcases announces opened below before with inside | ⟨offered, frames, said⟩
    · exact .inl inside
    · exact .inr ⟨offered, frames, spoken ▸ List.mem_append_left _ said⟩

end Turn

theorem Act.announces {s : Service} {before after : Moment} {old : DebugStack Request}
    (act : Act s before after) (announces : before.turn.Announces old) :
    after.turn.Announces old := by
  cases act with
  | @trap t request c => exact announces.enter c (.evaluation request)
  | @interrupt t prompt =>
    have quiet : ({ t with worker := { t.worker with returnedToPrompt := false } } : Turn).Announces
      old := announces
    exact quiet.enter .interrupt .prompt
  | hangUp | close => exact announces.goesOn (List.tail_suffix _) rfl rfl
  | retire =>
    rw [Turn.retireEq]
    exact announces.goesOn List.suffix_rfl rfl rfl
  | goOn | readOver | again | back => exact announces
  | discard | putOff | heed | store | stay | rest =>
    exact announces.goesOn List.suffix_rfl rfl (List.append_nil _).symm
  | _ => exact announces.goesOn List.suffix_rfl rfl rfl

namespace Worker
variable {s : Service} {w : Worker} {globals : Globals}

theorem actsAnnounce {before after : Moment} {old : DebugStack Request} (acts : Acts s before after)
    (announces : before.turn.Announces old) : after.turn.Announces old := by
  induction acts with
  | refl => exact announces
  | tail _ act ih => exact act.announces ih

theorem takenKeeps {request : Request} {w' : Worker} (taken : w.taken? = some (request, w')) :
    w'.me = w.me ∧ w'.levels = w.levels := by
  unfold taken? at taken
  split at taken <;> cases taken <;> exact ⟨rfl, rfl⟩

theorem stepAnnounces {t : Turn} (sound : w.Sound) (moved : w.step s globals = some t) :
    t.Announces w.levels := by
  refine actsAnnounce (stepActs sound moved) fun opened below isOpen => .inl ?_
  unfold begin at isOpen
  split at isOpen
  next request w' taken => exact (takenKeeps taken).2 ▸ isOpen
  · exact isOpen

theorem stepTaken {request : Request} {w' : Worker} (prompt : w.activity = .prompt)
    (taken : w.taken? = some (request, w')) :
    w.step s globals = some (({ worker := w', globals } : Turn).perform s request) := by
  rcases w with ⟨me, activity, levels, mailbox, attached, backlog, interrupted, tag, returned⟩
  obtain rfl : activity = .prompt := prompt
  cases backlog with
  | cons next later =>
    cases taken
    rfl
  | nil =>
    cases mailbox with
    | nil => cases taken
    | cons event later =>
      cases event with
      | request next =>
        cases taken
        rfl
      | readReply | wake => cases taken

end Worker

section Served
variable {s : Service} {w : Worker} {globals : Globals} {request : Request} {op : Operation}

theorem performLands {k : Nat} (parsed : Operation.parse request.form = .ok (some op))
    (offering : DebugStack.Offering w.levels) (chooses : Chooses w.levels op k) :
    (({ worker := w, globals } : Turn).perform s request).Lands w
      ((.returned w.me (.abort none) request.id :: closings w.me none k w.levels).map .message)
        k := by
  let t : Turn := { worker := w, globals }
  obtain ⟨escape, inner⟩ := t.executeChooses (s := s) offering chooses
  have unwound : t.perform s request = t.unwind request k none := by
    simp only [Turn.perform, parsed, escape]
  change (t.perform s request).Lands w _ k
  rw [unwound]
  exact Turn.unwindLands inner

theorem performResolves {opened : DebugLevel Request} {below : DebugStack Request}
    {r : OfferedRestart} {action : RestartAction}
    (parsed : Operation.parse request.form = .ok (some op)) (levels : w.levels = opened :: below)
    (offering : DebugStack.Offering w.levels) (grounded : DebugStack.Grounded w.levels)
    (picks : Picks opened (below.length + 1) op r)
    (resolves : r.kind.action? s opened.condition = some action) :
    (({ worker := w, globals } : Turn).perform s request).Resolves s w globals request opened below
      action := by
  let t : Turn := { worker := w, globals }
  have escape := t.executePicks levels offering picks resolves
  have resolved : t.perform s request = t.resolve s request action := by
    simp only [Turn.perform, parsed, escape]
  change (t.perform s request).Resolves s w globals request opened below action
  rw [resolved]
  exact Turn.resolveResolves request action levels grounded rfl

end Served
end RemoteEval
