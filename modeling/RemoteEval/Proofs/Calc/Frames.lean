import Mathlib.Data.List.Infix
import RemoteEval.Proofs.Calc.Reference
import RemoteEval.Worker.Turn

/-! The frames of a condition. They are the calls that the reference evaluator stopped in; each is
the call of a function, lies in the argument that the next one outside was evaluating, and shows the
values of the arguments before that one. Numbers of frames count from the innermost. -/
namespace RemoteEval

def Dealing.Bare : Dealing → Prop
  | .read answer => RemoteEval.Bare answer
  | .checked answer => RemoteEval.Bare answer
  | .spun reason => reason.frames = []
  | .wrote _ | .fetched .. | .assigned .. | .paused => True

namespace Script
variable {s : Script}

def Bare (s : Script) : Prop := ∀ limit c, s.stopAfter = some (limit, c) → c.frames = []

theorem Bare.meet (bare : s.Bare) (d : Dealing) : (s.meet d).Bare := by
  rw [Bare, meetLimit]
  exact bare

theorem readBare : RemoteEval.Bare s.read.1 := by
  unfold read
  split <;> trivial

theorem Bare.check (bare : s.Bare) : RemoteEval.Bare s.check.1 := by
  simp only [Script.check]
  split
  next limit c stop =>
    split
    · exact bare limit c stop
    · trivial
  · trivial

theorem Bare.limitReason (bare : s.Bare) : s.limitReason.frames = [] := by
  cases stop : s.stopAfter with
  | none => simp [Script.limitReason, stop, Condition.cancelled]
  | some pair => simpa [Script.limitReason, stop] using bare pair.1 pair.2 stop

theorem Bare.dealings {α : Type} (bare : s.Bare) (p : Program α) : ∀ d ∈ s.dealings p, d.Bare := by
  induction p generalizing s with
  | done | stop => exact fun _ mem => absurd mem List.not_mem_nil
  | write _ _ ih | assign _ _ _ ih => exact List.forall_mem_cons.mpr ⟨trivial, ih (bare.meet _)⟩
  | pause _ ih => exact List.forall_mem_cons.mpr ⟨trivial, ih bare⟩
  | fetch _ _ ih => exact List.forall_mem_cons.mpr ⟨trivial, ih _ bare⟩
  | read _ ih => exact List.forall_mem_cons.mpr ⟨readBare, ih _ (bare.meet (.read s.read.1))⟩
  | check _ ih =>
    exact List.forall_mem_cons.mpr ⟨bare.check, ih _ (bare.meet (.checked s.check.1))⟩
  | spin _ ih => exact List.forall_mem_cons.mpr ⟨bare.limitReason, ih _ (bare.meet _)⟩

end Script

namespace Calc
open Program (endsBind endsThen endsAttempt)

theorem sleepBare {n : Nat} {ds : List Dealing} {failure : Failure Condition}
    (ends : (sleep n).Ends ds (.error failure)) :
    ∃ c, failure = .failed c ∧ ((∀ d ∈ ds, d.Bare) → c.frames = []) := by
  induction n generalizing ds with
  | zero => cases ends
  | succ n ih =>
    cases ends with
    | @check _ answer _ _ ends =>
      cases answer with
      | ok =>
        cases ends with
        | pause ends =>
          obtain ⟨c, same, bare⟩ := ih ends
          exact ⟨c, same, fun all => bare fun d mem => all d (by simp [mem])⟩
      | error c =>
        cases ends
        exact ⟨c, rfl, fun all => all (.checked (.error c)) (by simp)⟩

theorem appliedBare {p : Program Sexp} (applied : Applied p) {ds : List Dealing}
    {failure : Failure Condition} (ends : p.Ends ds (.error failure)) :
    ∃ c, failure = .failed c ∧ ((∀ d ∈ ds, d.Bare) → c.frames = []) := by
  cases applied with
  | value => cases ends
  | raised kind bare =>
    cases ends
    exact ⟨_, rfl, fun _ => bare⟩
  | written =>
    cases ends with
    | write never => cases never
  | line =>
    cases ends with
    | @read _ answer _ _ ends =>
      cases answer with
      | ok line => cases ends
      | error c =>
        cases ends
        exact ⟨c, rfl, fun all => all (.read (.error c)) (by simp)⟩
  | slept n =>
    obtain ⟨first, rest, _, rfl, -, never⟩ | ⟨stopped, same, slept⟩ := endsBind ends
    · cases never
    · cases same
      exact sleepBare slept

inductive Reaches : Sexp → Sexp → Prop
  | here (form : Sexp) : Reaches form form
  | value (name : String) {form inner : Sexp} (reaches : Reaches form inner) :
      Reaches (.list [.symbol "setq", .symbol name, form]) inner

namespace Activation

def pending (a : Activation) : Option Sexp :=
  match a.form with
  | .list (_ :: args) => args[a.values.length]?
  | _ => none

def CalledIn (a : Activation) (ds : List Dealing) : Prop :=
  ∃ name args now, a.form = .list (.symbol name :: args) ∧ name ≠ "setq" ∧
    a.values.length ≤ args.length ∧ now <:+: ds ∧
    (referenceAll (args.take a.values.length)).Ends now (.ok (a.values, none))

theorem CalledIn.mono {a : Activation} {ds ds' : List Dealing} (called : a.CalledIn ds)
    (part : ds <:+: ds') : a.CalledIn ds' := by
  obtain ⟨name, args, now, form, other, enough, inside, values⟩ := called
  exact ⟨name, args, now, form, other, enough, inside.trans part, values⟩

theorem pendingDeeper {a : Activation} {arg : Sexp} (pending : a.pending = some arg) :
    arg.depth < a.form.depth := by
  unfold Activation.pending at pending
  split at pending
  next head args form =>
    rw [form]
    have inner : ∀ v ∈ head :: args, v.depth ≤ Sexp.depthOfItems (head :: args) :=
      Sexp.depthOfItemsLe.mp (Nat.le_refl _)
    exact Nat.lt_succ_of_le (inner arg (List.mem_cons_of_mem _ (List.mem_of_getElem? pending)))
  · cases pending

end Activation

/- Where the evaluation of a form stopped: what the calls are, and how they lie in each other. -/
structure StoppedIn (form : Sexp) (ds : List Dealing) (s : Stopped) : Prop where
  called : ∀ a ∈ s.active, a.CalledIn ds
  outermost : ∀ a, s.active.getLast? = some a → Reaches form a.form
  nested : ∀ i inner outer, s.active[i]? = some inner → s.active[i + 1]? = some outer →
    ∃ arg, outer.pending = some arg ∧ Reaches arg inner.form
  few : s.active.length ≤ form.depth
  bare : (∀ d ∈ ds, d.Bare) → s.condition.frames = []

namespace StoppedIn

theorem outside {form : Sexp} {ds : List Dealing} {c : Condition}
    (bare : (∀ d ∈ ds, d.Bare) → c.frames = []) : StoppedIn form ds { condition := c } where
  called _ mem := absurd mem List.not_mem_nil
  outermost _ last := by cases last
  nested _ _ _ first _ := by cases first
  few := Nat.zero_le _
  bare := bare

theorem applied {a : Activation} {ds : List Dealing} {c : Condition} (called : a.CalledIn ds)
    (bare : (∀ d ∈ ds, d.Bare) → c.frames = []) : StoppedIn a.form ds ⟨c, [a]⟩ where
  called _ mem := List.mem_singleton.mp mem ▸ called
  outermost _ last := by
    cases last
    exact .here _
  nested i _ _ _ second := by simp at second
  few := by
    obtain ⟨name, args, -, form, -⟩ := called
    simp [form, Sexp.depth]
  bare := bare

theorem mono {form : Sexp} {ds ds' : List Dealing} {s : Stopped} (stopped : StoppedIn form ds s)
    (part : ds <:+: ds') : StoppedIn form ds' s :=
  { stopped with
    called := fun a mem => (stopped.called a mem).mono part
    bare := fun all => stopped.bare fun d mem => all d (part.subset mem) }

theorem assigned {form : Sexp} {ds : List Dealing} {s : Stopped} (name : String)
    (stopped : StoppedIn form ds s) :
    StoppedIn (.list [.symbol "setq", .symbol name, form]) ds s :=
  { stopped with
    outermost := fun a last => .value name (stopped.outermost a last)
    few := by
      have inner : form.depth ≤ Sexp.depthOfItems [.symbol "setq", .symbol name, form] :=
        Sexp.depthOfItemsLe.mp (Nat.le_refl _) form (by simp)
      exact Nat.le_trans stopped.few (Nat.le_succ_of_le inner) }

theorem within {arg : Sexp} {ds : List Dealing} {s : Stopped} {a : Activation}
    (stopped : StoppedIn arg ds s) (pending : a.pending = some arg) (called : a.CalledIn ds) :
    StoppedIn a.form ds (s.within a) where
  called b mem := by
    obtain inside | same := List.mem_append.mp mem
    · exact stopped.called b inside
    · exact List.mem_singleton.mp same ▸ called
  outermost b last := by
    have same : b = a := by simpa [Stopped.within] using last.symm
    exact same ▸ .here _
  nested i inner outer first second := by
    have below : i + 1 < (s.active ++ [a]).length := (List.getElem?_eq_some_iff.mp second).1
    rw [List.length_append, List.length_singleton] at below
    have inside : i < s.active.length := by omega
    simp only [Stopped.within, List.getElem?_append_left inside] at first
    obtain last | more := Nat.eq_or_lt_of_le inside
    · have same : a = outer := by simpa [Stopped.within, ← last] using second
      have ends : s.active.getLast? = some inner := by
        rw [List.getLast?_eq_getElem?, ← last]
        exact first
      exact ⟨arg, same ▸ pending, stopped.outermost inner ends⟩
    · rw [Stopped.within, List.getElem?_append_left more] at second
      exact stopped.nested i inner outer first second
  few := by
    have deeper := Activation.pendingDeeper pending
    have few := stopped.few
    simp only [Stopped.within, List.length_append, List.length_singleton]
    omega
  bare := stopped.bare

end StoppedIn

def Comes (form : Sexp) (ds : List Dealing) : Except (Failure Condition) (Except Stopped Sexp) → Prop
  | .ok (.ok _) => True
  | .ok (.error s) => StoppedIn form ds s
  | .error _ => False

theorem Comes.mono {form : Sexp} {ds ds' : List Dealing}
    {r : Except (Failure Condition) (Except Stopped Sexp)} (comes : Comes form ds r)
    (part : ds <:+: ds') : Comes form ds' r := by
  match r, comes with
  | .ok (.ok _), _ => trivial
  | .ok (.error s), stopped => exact StoppedIn.mono stopped part

def EachComes (args : List Sexp) : Prop :=
  ∀ arg ∈ args, ∀ {ds r}, (reference arg).Ends ds r → Comes arg ds r

theorem EachComes.tail {arg : Sexp} {args : List Sexp} (each : EachComes (arg :: args)) :
    EachComes args := fun v mem => each v (List.mem_cons_of_mem _ mem)

theorem referenceAllComes {args : List Sexp} (each : EachComes args) {ds : List Dealing}
    {r : Except (Failure Condition) (List Sexp × Option Stopped)}
    (ends : (referenceAll args).Ends ds r) :
    (∃ vs, r = .ok (vs, none) ∧ vs.length = args.length) ∨
    ∃ vs s arg now later, r = .ok (vs, some s) ∧ args[vs.length]? = some arg ∧ ds = now ++ later ∧
      (referenceAll (args.take vs.length)).Ends now (.ok (vs, none)) ∧ StoppedIn arg later s := by
  induction args generalizing ds r with
  | nil =>
    rw [referenceAll] at ends
    cases ends
    exact .inl ⟨[], rfl, rfl⟩
  | cons arg args ih =>
    rw [referenceAll] at ends
    obtain ⟨first, rest, result, rfl, head, ends⟩ | ⟨failure, -, head⟩ := endsBind ends
    · cases result with
      | ok v =>
        obtain ⟨mid, last, ⟨vs, stopped⟩, rfl, tail, ends⟩ | ⟨failure, -, tail⟩ := endsBind ends
        · cases ends
          obtain ⟨vs, same, all⟩ | ⟨vs, s, next, now, later, same, place, rfl, before, stopped⟩ :=
            ih each.tail tail
          · cases same
            exact .inl ⟨v :: vs, rfl, congrArg Nat.succ all⟩
          · cases same
            refine .inr ⟨v :: vs, s, next, first ++ now, later, rfl, place, by simp, ?_, stopped⟩
            have more : ((referenceAll (args.take vs.length)).bind fun more =>
                .done (v :: more.1, more.2)).Ends (now ++ []) (.ok (v :: vs, none)) :=
              endsThen before (.done _)
            rw [List.append_nil] at more
            rw [List.length_cons, List.take_succ_cons, referenceAll]
            exact endsThen head more
        · obtain ⟨vs, same, -⟩ | ⟨vs, s, next, now, later, same, -⟩ :=
            ih each.tail tail
          · cases same
          · cases same
      | error s =>
        cases ends
        have stopped : StoppedIn arg first s := each arg List.mem_cons_self head
        have none : (referenceAll []).Ends [] (.ok ([], none)) := by
          rw [referenceAll]
          exact .done _
        exact .inr ⟨[], s, arg, [], first, rfl, rfl, by simp, none, stopped⟩
    · exact (each arg List.mem_cons_self head).elim

theorem callComes {name : String} {args : List Sexp} (other : name ≠ "setq")
    (each : EachComes args) {ds : List Dealing} {r : Except (Failure Condition) (Except Stopped Sexp)}
    (ends : ((referenceAll args).bind (finish (.list (.symbol name :: args)) name)).Ends ds r) :
    Comes (.list (.symbol name :: args)) ds r := by
  obtain ⟨first, rest, ⟨values, stopped⟩, rfl, evaluated, ends⟩ | ⟨failure, -, never⟩ :=
    endsBind ends
  · obtain ⟨vs, same, all⟩ | ⟨vs, s, arg, now, later, same, place, rfl, before, inside⟩ :=
      referenceAllComes each evaluated
    · cases same
      have called : Activation.CalledIn ⟨.list (.symbol name :: args), values⟩ (first ++ rest) :=
        ⟨name, args, first, rfl, other, Nat.le_of_eq all, List.infix_append' [] first rest, by
          rw [all, List.take_length]
          exact evaluated⟩
      obtain ⟨came, last, result, rfl, attempted, ends⟩ | ⟨failure, -, never⟩ := endsBind ends
      · obtain ⟨v, same, -⟩ | ⟨c, same, failed⟩ | ⟨reason, same, -⟩ := endsAttempt attempted
        · cases same
          cases ends
          trivial
        · cases same
          cases ends
          obtain ⟨_, same, bare⟩ := appliedBare (applyApplied name values) failed
          cases same
          exact .applied called fun all => bare fun d mem => all d (by simp [mem])
        · cases same
      · obtain ⟨v, same, -⟩ | ⟨c, same, -⟩ | ⟨reason, -, crashed⟩ := endsAttempt never
        · cases same
        · cases same
        · obtain ⟨_, same, -⟩ := appliedBare (applyApplied name values) crashed
          cases same
    · cases same
      cases ends
      rw [List.append_nil]
      have called : Activation.CalledIn ⟨.list (.symbol name :: args), values⟩ (now ++ later) :=
        ⟨name, args, now, rfl, other, Nat.le_of_lt (List.getElem?_eq_some_iff.mp place).1,
          (List.prefix_append now later).isInfix, before⟩
      have pending : Activation.pending ⟨.list (.symbol name :: args), values⟩ = some arg := place
      exact (inside.mono (List.suffix_append now later).isInfix).within pending called
  · obtain ⟨vs, same, -⟩ | ⟨vs, s, arg, now, later, same, -⟩ := referenceAllComes each never
    · cases same
    · cases same

theorem assignmentComes {args : List Sexp} (each : EachComes args) {ds : List Dealing}
    {r : Except (Failure Condition) (Except Stopped Sexp)}
    (ends : (referenceAssignment args).Ends ds r) :
    Comes (.list (.symbol "setq" :: args)) ds r := by
  unfold referenceAssignment at ends
  split at ends
  next name form =>
    obtain ⟨first, rest, result, rfl, value, ends⟩ | ⟨failure, -, never⟩ := endsBind ends
    · cases result with
      | ok v =>
        cases ends with
        | assign ends =>
          cases ends
          trivial
      | error s =>
        cases ends
        have stopped : StoppedIn form first s := each form (by simp) value
        rw [List.append_nil]
        exact stopped.assigned name
    · exact (each form (by simp) never).elim
  · cases ends
    exact .outside fun _ => rfl

theorem listComes {items : List Sexp} (each : EachComes items) {ds : List Dealing}
    {r : Except (Failure Condition) (Except Stopped Sexp)}
    (ends : (referenceList items).Ends ds r) : Comes (.list items) ds r := by
  unfold referenceList at ends
  split at ends
  · cases ends
    trivial
  next name args =>
    cases ends with
    | @check _ answer rest _ ends =>
      cases answer with
      | error c =>
        cases ends
        exact .outside fun all => all (.checked (.error c)) (by simp)
      | ok =>
        refine Comes.mono ?_ (List.suffix_cons _ rest).isInfix
        dsimp only at ends
        split at ends
        next assignment => exact assignment ▸ assignmentComes each.tail ends
        next other => exact callComes other each.tail ends
  · cases ends with
    | @check _ answer _ _ ends =>
      cases answer with
      | error c =>
        cases ends
        exact .outside fun all => all (.checked (.error c)) (by simp)
      | ok =>
        cases ends
        exact .outside fun _ => rfl

mutual
theorem referenceComes : ∀ (form : Sexp) {ds : List Dealing}
    {r : Except (Failure Condition) (Except Stopped Sexp)}, (reference form).Ends ds r →
      Comes form ds r
  | .symbol name, ds, r, ends => by
    rw [reference] at ends
    split at ends
    · cases ends
      trivial
    · cases ends with
      | @fetch _ _ answer _ _ ends =>
        cases answer with
        | some v =>
          cases ends
          trivial
        | none =>
          cases ends
          exact .outside fun _ => rfl
  | .list items, ds, r, ends => by
    rw [reference] at ends
    exact listComes (itemsCome items) ends
  | .nil, _, _, ends | .int _, _, _, ends | .str _, _, _, ends | .keyword _, _, _, ends => by
    rw [reference] at ends
    · cases ends
      trivial
    all_goals simp

theorem itemsCome : ∀ (items : List Sexp), EachComes items
  | [], _, mem, _, _, _ => absurd mem List.not_mem_nil
  | form :: rest, arg, mem, ds, r, ends => by
    obtain same | inside := List.mem_cons.mp mem
    · exact same ▸ referenceComes form (same ▸ ends)
    · exact itemsCome rest arg inside ends
end

theorem callFrame (a : Activation) : a.call.frame = a.frame := by
  simp [Activation.call, Activation.frame, ActiveCall.frame]

theorem settleFrames {s : Stopped} {c : Condition} (bare : s.condition.frames = [])
    (live : c.isCancelled = false) (settled : trap (s.active.map Activation.call) s.condition = c) :
    s.condition = { c with frames := [] } ∧ c.frames = s.active.map Activation.frame := by
  subst settled
  have alive : s.condition.isCancelled = false := by
    obtain ⟨frames, same, -⟩ := trapFrames (s.active.map Activation.call) s.condition
    rw [same] at live
    exact live
  have shown : (s.condition.frames.isEmpty && !s.condition.isCancelled) = true := by
    simp [bare, alive]
  rw [trap, if_pos shown]
  exact ⟨by rw [← bare], by simp [Function.comp_def, callFrame]⟩

theorem viewsNumbered (c : Condition) (first last k : Nat) :
    (Turn.frameViews first (c.backtrace first last))[k]? = if first + k < last then
      c.frames[first + k]?.map fun call => ⟨(first + k).toUInt64, call.description⟩ else none := by
  simp only [Turn.frameViews, Condition.backtrace, List.getElem?_mapIdx, List.getElem?_map,
    List.getElem?_drop, List.getElem?_take]
  split
  · simp [Function.comp_def]
  · rfl

/- What a condition shows of the evaluation of a text that ended in it. -/
structure Shows (text : String) (ds : List Dealing) (c : Condition)
    (active : List Activation) : Prop where
  frames : c.frames = active.map Activation.frame
  agrees : ∀ form, Sexp.read text = .ok form →
    (reference form).Ends ds (.ok (.error ⟨{ c with frames := [] }, active⟩))
  stopped : ∀ form, Sexp.read text = .ok form →
    StoppedIn form ds ⟨{ c with frames := [] }, active⟩
  unread : ∀ e, Sexp.read text = .error e → active = []
  few : active.length ≤ 256

theorem evaluateShows {text package : String} {ds : List Dealing} {c : Condition}
    (ends : (evaluate text package).Ends ds (.error (.failed c))) (bare : ∀ d ∈ ds, d.Bare)
    (live : c.isCancelled = false) : ∃ active, Shows text ds c active := by
  unfold evaluate at ends
  split at ends
  next form read =>
    rw [evalReference, Program.bindAssoc] at ends
    obtain ⟨first, rest, result, rfl, stopped, ends⟩ | ⟨failure, -, never⟩ := endsBind ends
    · cases result with
      | ok v => cases ends
      | error s =>
        have inside : StoppedIn form first s := referenceComes form stopped
        obtain ⟨rfl, same⟩ : rest = [] ∧ trap (s.active.map Activation.call) s.condition = c := by
          cases ends
          rw [List.append_nil]
          exact ⟨rfl, rfl⟩
        rw [List.append_nil] at bare ⊢
        obtain ⟨condition, frames⟩ := settleFrames (inside.bare bare) live same
        have shallow : form.depth ≤ 256 := (Sexp.readFits read).2
        refine ⟨s.active, frames, fun other again => ?_, fun other again => ?_,
          fun e unread => ?_, Nat.le_trans inside.few shallow⟩
        · cases read.symm.trans again
          exact condition ▸ stopped
        · cases read.symm.trans again
          exact condition ▸ inside
        · cases read.symm.trans unread
    · exact (referenceComes form never).elim
  next e unread =>
    cases ends
    refine ⟨[], rfl, fun form read => ?_, fun form read => ?_, fun _ _ => rfl, Nat.zero_le _⟩
    · cases unread.symm.trans read
    · cases unread.symm.trans read

theorem Shows.views {text : String} {ds : List Dealing} {c : Condition} {active : List Activation}
    (shown : Shows text ds c active) (first last k : Nat) (view : FrameView) :
    (Turn.frameViews first (c.backtrace first last))[k]? = some view ↔ ∃ a,
      active[first + k]? = some a ∧ first + k < last ∧ view.index.toNat = first + k ∧
      view.description = a.form.print := by
  have few := shown.few
  rw [viewsNumbered, shown.frames, List.getElem?_map]
  constructor
  · intro seen
    split at seen
    next before =>
      obtain ⟨call, found, rfl⟩ := Option.map_eq_some_iff.mp seen
      obtain ⟨a, here, rfl⟩ := Option.map_eq_some_iff.mp found
      have bound : first + k < active.length := (List.getElem?_eq_some_iff.mp here).1
      exact ⟨a, here, before, UInt64.toNat_ofNat_of_lt' (by simp [UInt64.size]; omega), rfl⟩
    · cases seen
  · rintro ⟨a, here, before, index, description⟩
    have same : (first + k).toUInt64 = view.index := by
      rw [← index]
      exact UInt64.ofNat_toNat
    rw [if_pos before, here, same]
    exact congrArg (fun text => some (FrameView.mk view.index text)) description.symm

/- Whatever the evaluation was answered, its condition has as frames the calls in which the
reference evaluator stops with that condition, and all views of them agree on their numbers. -/
theorem framesShowActiveCalls {text package : String} {ds : List Dealing} {c : Condition}
    (ends : (evaluate text package).Ends ds (.error (.failed c))) (bare : ∀ d ∈ ds, d.Bare)
    (live : c.isCancelled = false) :
    ∃ active, Shows text ds c active ∧
      (∀ first last, ∃ descriptions, language.backtrace c first last = .ok descriptions ∧
        ∀ k view, (Turn.frameViews first descriptions)[k]? = some view ↔ ∃ a,
          active[first + k]? = some a ∧ first + k < last ∧ view.index.toNat = first + k ∧
          view.description = a.form.print) ∧
      ∀ i, language.locals c i = match active[i]? with
        | some a => .ok a.frame.locals
        | none => .error (.failed s!"no frame {i}") := by
  obtain ⟨active, shown⟩ := evaluateShows ends bare live
  refine ⟨active, shown, fun first last => ⟨_, rfl, shown.views first last⟩, fun i => ?_⟩
  change (c.locals i).mapError Failure.failed = _
  rw [Condition.locals, shown.frames, List.getElem?_map]
  cases active[i]? <;> rfl

def dividing : String := "(list 7 (setq x (+ 1 (/ 1 0))))"

def divided : Condition := { divisionByZero with frames := [
  ⟨"(/ 1 0)", [⟨"arg0", "1"⟩, ⟨"arg1", "0"⟩]⟩,
  ⟨"(+ 1 (/ 1 0))", [⟨"arg0", "1"⟩]⟩,
  ⟨"(list 7 (setq x (+ 1 (/ 1 0))))", [⟨"arg0", "7"⟩]⟩] }

theorem dividedActive : (({} : Script).run (evaluate dividing "USER")).1 = .error (.failed divided) ∧
    divided.isCancelled = false ∧ ∃ active, active.length = 3 ∧
      Shows dividing (({} : Script).dealings (evaluate dividing "USER")) divided active := by
  have stops : (({} : Script).run (evaluate dividing "USER")).1 = .error (.failed divided) := by
    decide +kernel
  have live : divided.isCancelled = false := by decide
  have ends := ({} : Script).runEnds (evaluate dividing "USER")
  have free : ({} : Script).Bare := fun _ _ limit => by cases limit
  rw [stops] at ends
  obtain ⟨active, shown, -⟩ := framesShowActiveCalls ends (free.dealings _) live
  have three : active.length = 3 := by
    rw [← List.length_map (f := Activation.frame), ← shown.frames]
    rfl
  exact ⟨stops, live, active, three, shown⟩

end Calc
end RemoteEval
