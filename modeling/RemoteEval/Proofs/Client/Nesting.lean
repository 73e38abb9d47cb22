import RemoteEval.Proofs.Client.Ledger

/-! The shape of the client's stacks. At the bottom lies the outermost request; a level may open
on any frame, and a nested request is asked at the prompt of a level, so that it stands on one.
Frames are taken from the middle of a stack as well as from its top, and each message leaves the
shape as it was, also one that is refused. What the server means by its messages plays no part. -/
namespace RemoteEval.Client
variable {γ : Type}

/- A stack with the number of levels that are open in it. -/
inductive Nests : Nat → List (StackFrame γ) → Prop where
  | outermost (id : RequestId) (k : Option γ) : Nests 0 [.evaluating id k]
  | level {n frames} (view : DebuggerView) (number : view.level.toNat = n + 1)
      (below : Nests n frames) : Nests (n + 1) (.debugging view :: frames)
  | nested {n view frames} (id : RequestId) (k : Option γ)
      (prompt : Nests n (.debugging view :: frames)) :
      Nests n (.evaluating id k :: .debugging view :: frames)

namespace Nests
variable {n : Nat} {stack : List (StackFrame γ)}

theorem nonempty (nests : Nests n stack) : stack ≠ [] := by
  cases nests <;> simp

theorem number (nests : Nests n stack) : stack.countP StackFrame.isDebugging = n := by
  induction nests with
  | outermost => rfl
  | level view number below ih =>
    rw [List.countP_cons, ih]
    rfl
  | nested id k prompt ih =>
    rw [List.countP_cons, ih]
    rfl

theorem bottom (nests : Nests n stack) : ∃ id k, stack.getLast? = some (.evaluating id k) := by
  induction nests with
  | outermost id k => exact ⟨id, k, rfl⟩
  | level view number below ih =>
    rw [List.getLast?_cons_of_ne_nil below.nonempty]
    exact ih
  | nested id k prompt ih =>
    rw [List.getLast?_cons_of_ne_nil prompt.nonempty]
    exact ih

theorem levels (nests : Nests n stack) :
    (stack.reverse.filterMap StackFrame.view?).map (·.level.toNat) = List.range' 1 n := by
  induction nests with
  | outermost => rfl
  | level view number below ih =>
    rw [List.reverse_cons, List.filterMap_append, List.map_append, ih, List.range'_concat]
    simp [StackFrame.view?, number, Nat.add_comm]
  | nested id k prompt ih =>
    rw [List.reverse_cons, List.filterMap_append, List.map_append, ih]
    simp [StackFrame.view?]

theorem innermost (nests : Nests n stack) :
    (stack.findSome? StackFrame.view?).elim 0 (·.level.toNat) = n := by
  induction nests with
  | outermost => rfl
  | level view number below ih => exact number
  | nested id k prompt ih => exact ih

theorem under {above below : List (StackFrame γ)} {id : RequestId} {k : Option γ}
    (nests : Nests n (above ++ .evaluating id k :: below)) :
    below = [] ∨ ∃ view rest, below = .debugging view :: rest := by
  generalize whole : above ++ .evaluating id k :: below = stack at nests
  induction nests generalizing above with
  | outermost own j =>
    cases above with
    | nil => cases whole; exact .inl rfl
    | cons f above => cases above <;> cases whole
  | level view number lower ih =>
    cases above with
    | nil => cases whole
    | cons f above => cases whole; exact ih rfl
  | nested own j prompt ih =>
    cases above with
    | nil => cases whole; exact .inr ⟨_, _, rfl⟩
    | cons f above => exact ih (List.cons.inj whole).2

theorem close {requests below : List (StackFrame γ)} {view : DebuggerView}
    (above : ∀ f ∈ requests, Machine.isRequest f = true)
    (nests : Nests n (requests ++ .debugging view :: below)) : ∃ m, Nests m below := by
  induction requests with
  | nil =>
    cases nests with
    | level _ _ lower => exact ⟨_, lower⟩
  | cons f rest ih =>
    have own := above f List.mem_cons_self
    cases f with
    | debugging => contradiction
    | evaluating id k =>
      refine ih (fun g member => above g (List.mem_cons_of_mem _ member)) ?_
      rw [List.cons_append] at nests
      generalize lower : rest ++ .debugging view :: below = frames at nests
      cases nests with
      | outermost => simp at lower
      | nested _ _ prompt => exact lower ▸ prompt

theorem uncover {levels below : List (StackFrame γ)} {id : RequestId} {k : Option γ}
    (above : ∀ f ∈ levels, f.isDebugging = true) (inner : below ≠ [])
    (nests : Nests n (levels ++ .evaluating id k :: below)) : Nests n (levels ++ below) := by
  induction levels generalizing n with
  | nil =>
    cases nests with
    | outermost => contradiction
    | nested _ _ prompt => exact prompt
  | cons f rest ih =>
    have own := above f List.mem_cons_self
    cases f with
    | evaluating => contradiction
    | debugging view =>
      cases nests with
      | level _ number lower =>
        exact .level view number (ih (fun g member => above g (List.mem_cons_of_mem _ member)) lower)

end Nests

namespace Machine
variable {c c' : Machine γ}

def Nested (c : Machine γ) : Prop :=
  ∀ ref stack, c.busy.get? ref = some stack → ∃ n, Nests n stack

theorem Nested.tidy (nested : c.Nested) : c.Tidy := by
  intro ref empty
  obtain ⟨n, nests⟩ := nested ref [] empty
  exact nests.nonempty rfl

theorem Nested.busy (nested : c.Nested) {ref : WorkerRef} :
    c.busy.contains ref = true ↔ c.stack ref ≠ [] := by
  rw [Table.contains, Option.isSome_iff_ne_none, ne_eq, nested.tidy.idle]

theorem Nested.stack (nested : c.Nested) (ref : WorkerRef) (busy : c.stack ref ≠ []) :
    ∃ n, Nests n (c.stack ref) := by
  cases found : c.busy.get? ref with
  | none => exact absurd (nested.tidy.idle.mp found) busy
  | some stack =>
    obtain ⟨n, nests⟩ := nested ref stack found
    exact ⟨n, by simpa [Machine.stack, found] using nests⟩

theorem nestedBusy (nested : c.Nested) (same : c'.busy = c.busy) : c'.Nested := by
  unfold Nested
  rw [same]
  exact nested

theorem nestedSetStack (nested : c.Nested) (ref : WorkerRef) {stack : List (StackFrame γ)}
    (fits : stack ≠ [] → ∃ n, Nests n stack) : (c.setStack ref stack).Nested := by
  intro other frames found
  rw [busySetStack] at found
  split at found
  · split at found <;> cases found
    next some => exact fits some
  · exact nested other frames found

theorem nestedOrphan (nested : c.Nested) (ref : WorkerRef) (frames : List (StackFrame γ)) :
    (c.orphan ref frames).Nested := nestedBusy nested (orphanRest ..).1

theorem Takes.nests {m : Message} (takes : Takes c m c') (nested : c.Nested) : c'.Nested := by
  cases takes with
  | unreached | orphaned | activated | asked | aborted | told => exact nested
  | @bound id ref k waiting idle =>
    refine nestedSetStack (c := { c with unbound := c.unbound.erase id }) nested ref fun _ => ?_
    exact ⟨0, .outermost id k⟩
  | @uncovered ref _ id k levels below _ _ stack above inner =>
    refine nestedSetStack nested ref fun some => ?_
    obtain ⟨n, nests⟩ := nested.stack ref (by simp [stack])
    have lower : below ≠ [] := by
      rintro rfl
      simp_all
    rw [stack] at nests
    exact ⟨n, nests.uncover above lower⟩
  | @opened ref level description restarts backtrace stack next busy =>
    refine nestedSetStack nested ref fun _ => ?_
    obtain ⟨n, nests⟩ := nested ref stack busy
    have count : c.debugLevel ref = n := by simpa [debugLevel, Machine.stack, busy] using nests.number
    exact ⟨n + 1, .level _ (next.trans (by rw [count])) nests⟩
  | @closed ref level requests view below stack above same =>
    refine nestedSetStack (nestedOrphan nested ref requests) ref fun _ => ?_
    obtain ⟨n, nests⟩ := nested.stack ref (by simp [stack])
    rw [stack] at nests
    exact nests.close above

theorem Sends.nests {m : Message} (sends : Sends c m c') (nested : c.Nested) : c'.Nested := by
  cases sends with
  | fresh | interrupt | reply => exact nested
  | @nested _ _ ref view below k prompt =>
    refine nestedSetStack (c := { c with lastId := c.lastId + 1 }) nested ref fun _ => ?_
    obtain ⟨n, nests⟩ := nested.stack ref (by simp [prompt])
    exact ⟨n, .nested _ _ (prompt ▸ nests)⟩

theorem reactRefused {m : Message} {d : Desync} (refused : c.react m = (.error d, c')) :
    c'.busy = c.busy := by
  cases m with
  | workerAssigned id ref =>
    simp only [react, bind] at refused
    split at refused
    · cases refused
      rfl
    · split at refused <;> cases refused
      rfl
  | returned ref value id =>
    simp only [react, takeRequest] at refused
    split at refused
    · cases refused
    · split at refused
      · split at refused <;> cases refused
        rfl
      · split at refused <;> cases refused
        rfl
  | debugEnter ref level description restarts backtrace =>
    simp only [react, openLevel] at refused
    split at refused
    · cases refused
      rfl
    · split at refused <;> cases refused
      rfl
  | debugReturn ref level =>
    simp only [react, closeLevel] at refused
    split at refused
    · split at refused <;> cases refused
      rfl
    · cases refused
      rfl
  | debugActivate | readAborted =>
    simp only [react] at refused
    split at refused <;> cases refused
    rfl
  | request | interrupt | readStringReply =>
    cases refused
    rfl
  | _ => cases refused

theorem handleRefused {m : Message} {e : Error} (refused : c.handle m = (.error e, c')) :
    c'.busy = c.busy := by
  rcases result : c.react m with ⟨d | effects, after⟩ <;> simp only [handle, result] at refused <;>
    cases refused
  exact reactRefused result

theorem setStackBusy (c : Machine γ) (ref other : WorkerRef) (stack : List (StackFrame γ)) :
    (c.setStack ref stack).busy.contains other =
      if other = ref then !stack.isEmpty else c.busy.contains other := by
  unfold Table.contains
  rw [busySetStack]
  cases stack <;> by_cases same : other = ref <;> simp [same]

theorem Sends.stays {m : Message} (sends : Sends c m c') (other : WorkerRef) :
    c'.busy.contains other = c.busy.contains other := by
  cases sends with
  | fresh | interrupt | reply => rfl
  | @nested _ _ ref view below k prompt =>
    rw [setStackBusy]
    split
    next same =>
      subst same
      cases found : c.busy.get? other with
      | none => simp [Machine.stack, found] at prompt
      | some frames => simp [Table.contains, found]
    · rfl

theorem Takes.closedStays {ref : WorkerRef} {level : Level}
    (takes : Takes c (.debugReturn ref level) c') (nested : c.Nested) (other : WorkerRef) :
    c'.busy.contains other = c.busy.contains other := by
  cases takes with
  | told plain => contradiction
  | @closed _ _ requests view below stack above same =>
    have busy : c.busy.contains ref = true := nested.busy.mpr (by simp [stack])
    obtain ⟨n, nests⟩ := nested.stack ref (by simp [stack])
    rw [stack] at nests
    obtain ⟨m, lower⟩ := nests.close above
    rw [setStackBusy, (orphanRest ..).1]
    split
    next own => simp [own, busy, lower.nonempty]
    · rfl

theorem Takes.leaves {m : Message} (takes : Takes c m c') (nested : c.Nested) {ref : WorkerRef}
    (busy : c.busy.contains ref = true) (idle : c'.busy.contains ref = false) :
    ∃ id k value, m = .returned ref value id ∧ c.busy.get? ref = some [.evaluating id k] ∧
      c.handle m = (.ok [.returned (some ref) id value (continuationFor value k)], c') := by
  cases takes with
  | unreached | orphaned | activated | asked | aborted | told =>
    rw [show c.busy.contains ref = false from idle] at busy
    contradiction
  | bound | opened =>
    rw [setStackBusy] at idle
    split at idle
    · contradiction
    · rw [show c.busy.contains ref = false from idle] at busy
      contradiction
  | closed stack above same =>
    rw [Takes.closedStays (.closed stack above same) nested, busy] at idle
    contradiction
  | @uncovered own value id k levels below reached owned stack above inner =>
    rw [setStackBusy] at idle
    split at idle
    next same =>
      subst same
      obtain ⟨rfl, rfl⟩ : levels = [] ∧ below = [] := by simpa using idle
      have found : uncover id (c.stack ref) = some (k, []) :=
        uncoverEq.mpr ⟨[], [], stack, above, inner, rfl⟩
      refine ⟨id, k, value, rfl, ?_, ?_⟩
      · cases whole : c.busy.get? ref with
        | none => simp [Machine.stack, whole] at stack
        | some frames => simpa [Machine.stack, whole] using stack
      · simp only [handle, react, takeRequest, reached, owned, found]
        rfl
    · rw [busy] at idle
      contradiction

end Machine

namespace Ledger
open Machine

inductive Stepped (l : Ledger γ) : Call γ → Machine γ → Prop where
  | idle {call after} (same : after.busy = l.machine.busy) : Stepped l call after
  | sent {call m after} (sends : l.machine.Sends m after) : Stepped l call after
  | taken {m after} (takes : l.machine.Takes m after) : Stepped l (.handle m) after
  | aborted {reason after} (empty : after.busy = {}) : Stepped l (.abortAll reason) after

theorem stepStepped (l : Ledger γ) (call : Call γ) : l.Stepped call (l.step call).machine := by
  cases call with
  | evaluate form package worker k =>
    rcases result : l.machine.evaluate form package worker k with ⟨_ | ⟨id, m⟩, after⟩ <;>
      simp only [step, result]
    · exact .idle (congrArg busy (evaluateRefused result))
    · exact .sent (evaluateSends result)
  | interrupt => exact .idle rfl
  | returnString ref tag text =>
    rcases result : l.machine.returnString ref tag text with ⟨_ | m, after⟩ <;>
      simp only [step, result]
    · unfold returnString at result
      split at result <;> cases result
      exact .idle rfl
    · exact .sent (returnStringSends result)
  | handle m =>
    rcases result : l.machine.handle m with ⟨_ | effects, after⟩ <;> simp only [step, result]
    · exact .idle (handleRefused result)
    · exact .taken (handleTakes.mp ⟨effects, result⟩)
  | abortAll => exact .aborted rfl

theorem stepNested {l : Ledger γ} (nested : l.machine.Nested) (call : Call γ) :
    (l.step call).machine.Nested := by
  cases l.stepStepped call with
  | idle same => exact nestedBusy nested same
  | sent sends => exact sends.nests nested
  | taken takes => exact takes.nests nested
  | aborted empty =>
    intro ref stack found
    simp [empty] at found

theorem runNested (calls : List (Call γ)) : (run calls).machine.Nested := by
  induction calls using List.reverseRecOn with
  | nil => exact fun ref stack found => by cases found
  | append_singleton before call ih => exact runSnoc before call ▸ stepNested ih call

/- The shape of all stacks after any sequence of calls, and how a worker comes to be idle. -/
theorem stacksNested (calls : List (Call γ)) :
    let l := run calls
    (∀ ref stack, l.machine.busy.get? ref = some stack →
      stack ≠ [] ∧ .idle ∉ stack.map StackFrame.kind ∧
      (∃ id k, stack.getLast? = some (.evaluating id k)) ∧
      (stack.reverse.filterMap StackFrame.view?).map (·.level.toNat) =
        List.range' 1 (l.machine.debugLevel ref) ∧
      ∀ above id k below, stack = above ++ .evaluating id k :: below →
        below = [] ∨ ∃ view rest, below = .debugging view :: rest) ∧
    (∀ ref, l.machine.debugLevel ref = (l.machine.debugger ref).elim 0 (·.level.toNat)) ∧
    (∀ ref level other, (l.step (.handle (.debugReturn ref level))).machine.busy.contains other =
      l.machine.busy.contains other) ∧
    ∀ call ref, l.machine.busy.contains ref = true →
      (l.step call).machine.busy.contains ref = false →
      (∃ reason, call = .abortAll reason) ∨
      ∃ id k value, call = .handle (.returned ref value id) ∧
        l.machine.busy.get? ref = some [.evaluating id k] ∧
        (l.step call).effects =
          l.effects ++ [.returned (some ref) id value (continuationFor value k)] := by
  intro l
  have nested : l.machine.Nested := runNested calls
  refine ⟨fun ref stack found => ?_, fun ref => ?_, fun ref level other => ?_,
    fun call ref busy idle => ?_⟩
  · obtain ⟨n, nests⟩ := nested ref stack found
    have count : l.machine.debugLevel ref = n := by
      simpa [debugLevel, Machine.stack, found] using nests.number
    refine ⟨nests.nonempty, ?_, nests.bottom, count ▸ nests.levels, ?_⟩
    · intro member
      obtain ⟨f, _, kind⟩ := List.mem_map.mp member
      cases f <;> cases kind
    · rintro above id k below rfl
      exact nests.under
  · by_cases busy : l.machine.stack ref = []
    · simp [debugLevel, debugger, busy]
    · obtain ⟨n, nests⟩ := nested.stack ref busy
      exact nests.number.trans nests.innermost.symm
  · cases l.stepStepped (.handle (.debugReturn ref level)) with
    | idle same => rw [same]
    | sent sends => exact sends.stays other
    | taken takes => exact takes.closedStays nested other
  · have stepped := l.stepStepped call
    generalize after : (l.step call).machine = c at stepped idle
    cases stepped with
    | idle same =>
      rw [same, busy] at idle
      contradiction
    | sent sends =>
      rw [sends.stays, busy] at idle
      contradiction
    | aborted => exact .inl ⟨_, rfl⟩
    | @taken m _ takes =>
      obtain ⟨id, k, value, rfl, outermost, told⟩ := takes.leaves nested busy idle
      exact .inr ⟨id, k, value, rfl, outermost, by simp only [step, told]⟩

end Ledger
end RemoteEval.Client
