import RemoteEval.Proofs.Language.Dealings
import RemoteEval.Proofs.Calc.Forms

/-! What a limit on safe points does to a run. Up to the safe point that stops it, the run is the
one without the limit; there it ends, and does nothing more. -/
namespace RemoteEval

namespace Program
variable {α β : Type}

/- The program is over, for this reason. Why an evaluation was cancelled is told as it came. -/
def Ceases (c : Condition) (p : Program α) : Prop :=
  ∃ frames, p = .signal { c with frames } ∧ (c.isCancelled = true → frames = c.frames)

def Stoppable : Program α → Prop
  | .done _ | .stop _ => True
  | .write _ next => next.Stoppable
  | .read next => ∀ answer, (next answer).Stoppable
  | .check next => (next (.ok ())).Stoppable ∧ ∀ c, (next (.error c)).Ceases c
  | .fetch _ next => ∀ answer, (next answer).Stoppable
  | .assign _ _ next => next.Stoppable
  | .pause next => next.Stoppable
  | .spin _ => False

theorem bindCeases {c : Condition} {p : Program α} (f : α → Program β) (ceases : p.Ceases c) :
    (p.bind f).Ceases c := by
  obtain ⟨frames, rfl, told⟩ := ceases
  exact ⟨frames, rfl, told⟩

theorem bindStoppable {p : Program α} {f : α → Program β} (stoppable : p.Stoppable)
    (next : ∀ a, (f a).Stoppable) : (p.bind f).Stoppable := by
  induction p with
  | done a => exact next a
  | stop failure => trivial
  | write text rest ih => exact ih stoppable
  | read rest ih => exact fun answer => ih answer (stoppable answer)
  | check rest ih => exact ⟨ih _ stoppable.1, fun c => bindCeases f (stoppable.2 c)⟩
  | fetch name rest ih => exact fun answer => ih answer (stoppable answer)
  | assign name v rest ih => exact ih stoppable
  | pause rest ih => exact ih stoppable
  | spin rest => exact stoppable.elim

end Program

namespace Script
variable {α : Type}

def unlimited (globals : Globals) (input : List String) : Script := { globals, input }

def limited (s : Script) (limit : Nat) (c : Condition) : Script :=
  { s with stopAfter := some (limit, c) }

/- The run ends at the safe point that passes the limit, and up to there it is the one without. -/
structure CutShort (s : Script) (p : Program α) (limit : Nat) (c : Condition)
    (before after : List Dealing) (frames : List Call) : Prop where
  unlimited : s.dealings p = before ++ .checked (.ok ()) :: after
  passed : (s.after before).checks = limit
  dealings : (s.limited limit c).dealings p = before ++ [.checked (.error c)]
  ends : (s.limited limit c).run p = (.error (.failed { c with frames }),
    { (s.after before).limited limit c with checks := limit + 1 })
  told : c.isCancelled = true → frames = c.frames

def Limits (s : Script) (p : Program α) (limit : Nat) (c : Condition) : Prop :=
  ((s.run p).2.checks ≤ limit ∧
    (s.limited limit c).run p = ((s.run p).1, (s.run p).2.limited limit c)) ∨
  (limit < (s.run p).2.checks ∧ ∃ before after frames, s.CutShort p limit c before after frames)

theorem limitsStep {s : Script} {p : Program α} {limit : Nat} {c : Condition} (d : Dealing)
    (q : Program α) (run : s.run p = (s.meet d).run q)
    (dealings : s.dealings p = d :: (s.meet d).dealings q)
    (limitedRun : (s.limited limit c).run p = ((s.meet d).limited limit c).run q)
    (limitedDealings :
      (s.limited limit c).dealings p = d :: ((s.meet d).limited limit c).dealings q)
    (limits : (s.meet d).Limits q limit c) : s.Limits p limit c := by
  rw [Limits, run, limitedRun]
  refine limits.imp_right fun ⟨many, before, after, frames, cut⟩ =>
    ⟨many, d :: before, after, frames, ?_, cut.passed, ?_, limitedRun.trans cut.ends, cut.told⟩
  · rw [dealings, cut.unlimited]
    rfl
  · rw [limitedDealings, cut.dealings]
    rfl

theorem checkFree {s : Script} (free : s.stopAfter = none) :
    s.check = (.ok (), { s with checks := s.checks + 1 }) := by
  simp [check, free]

theorem checkEarly {s : Script} {limit : Nat} (c : Condition) (early : s.checks < limit) :
    (s.limited limit c).check =
      (.ok (), { s with checks := s.checks + 1 }.limited limit c) := by
  simp [check, limited]
  omega

theorem checkLate {s : Script} {limit : Nat} (c : Condition) (late : s.checks = limit) :
    (s.limited limit c).check =
      (.error c, { s with checks := s.checks + 1 }.limited limit c) := by
  simp [check, limited, late]

theorem limitsCheck {s : Script} {next : Except Condition Unit → Program α} {limit : Nat}
    {c : Condition} (free : s.stopAfter = none) (late : s.checks = limit)
    (ceases : (next (.error c)).Ceases c) : s.Limits (.check next) limit c := by
  obtain ⟨frames, ended, told⟩ := ceases
  have grown := (afterGrows s.check.2 (s.check.2.dealings (next s.check.1))).2.2
  rw [← runAfter, checkFree free] at grown
  refine .inr ⟨?_, [], s.check.2.dealings (next s.check.1), frames, ?_, late, ?_, ?_, told⟩
  · rw [run, checkFree free, ← late]
    exact grown
  · simp [dealings, checkFree free]
  · simp [dealings, checkLate c late, ended, Program.signal]
  · rw [run, checkLate c late, ended, late]
    rfl

theorem readLimited (s : Script) (limit : Nat) (c : Condition) :
    (s.limited limit c).read = (s.read.1, s.read.2.limited limit c) := by
  simp only [read, limited]
  split <;> rfl

theorem limitsRun {p : Program α} (stoppable : p.Stoppable) {s : Script}
    (free : s.stopAfter = none) {limit : Nat} (c : Condition) (early : s.checks ≤ limit) :
    s.Limits p limit c := by
  induction p generalizing s with
  | done | stop => exact .inl ⟨early, rfl⟩
  | write text next ih =>
    exact limitsStep (.wrote text) next rfl rfl rfl rfl (ih stoppable free early)
  | read next ih =>
    obtain ⟨input, -, kept⟩ := readShortens s
    have read := readLimited s limit c
    have rest : s.read.2.Limits (next s.read.1) limit c :=
      ih _ (stoppable _) (kept ▸ free) (kept ▸ early)
    refine limitsStep (.read s.read.1) (next s.read.1) rfl rfl ?_ ?_ rest
    · simp [run, read, meet]
    · simp [dealings, read, meet]
  | check next ih =>
    obtain late | before := Nat.eq_or_lt_of_le early
    · exact limitsCheck free late (stoppable.2 c)
    · have passes := checkFree free
      have both := checkEarly c before
      have rest : s.check.2.Limits (next (.ok ())) limit c :=
        ih _ stoppable.1 (by rw [passes]; exact free) (by rw [passes]; exact before)
      refine limitsStep (.checked (.ok ())) (next (.ok ())) ?_ ?_ ?_ ?_ rest
      · simp [run, meet, passes]
      · simp [dealings, meet, passes]
      · simp [run, meet, passes, both]
      · simp [dealings, meet, passes, both]
  | fetch name next ih =>
    exact limitsStep (.fetched name (s.globals.fetch name)) (next (s.globals.fetch name))
      rfl rfl rfl rfl (ih _ (stoppable _) free early)
  | assign name v next ih =>
    exact limitsStep (.assigned name v) next rfl rfl rfl rfl (ih stoppable free early)
  | pause next ih => exact limitsStep .paused next rfl rfl rfl rfl (ih stoppable free early)
  | spin => exact stoppable.elim

end Script

namespace Calc

theorem trapCeases {α : Type} (calls : List ActiveCall) (c : Condition) :
    (Program.signal (trap calls c) : Program α).Ceases c := by
  obtain ⟨frames, same, told⟩ := trapFrames calls c
  exact ⟨frames, congrArg Program.signal same, told⟩

theorem trappingCeases (calls : List ActiveCall) {c : Condition} {p : Program Sexp}
    (ceases : p.Ceases c) : (trapping calls p).Ceases c := by
  obtain ⟨frames, rfl, told⟩ := ceases
  obtain ⟨shown, same, kept⟩ := trapFrames calls { c with frames }
  exact ⟨shown, congrArg Program.signal same, fun cancelled => (kept cancelled).trans (told cancelled)⟩

theorem trappingStoppable (calls : List ActiveCall) {p : Program Sexp}
    (stoppable : p.Stoppable) : (trapping calls p).Stoppable := by
  induction p with
  | done a => trivial
  | stop failure => cases failure <;> trivial
  | write text rest ih => exact ih stoppable
  | read rest ih => exact fun answer => ih answer (stoppable answer)
  | check rest ih => exact ⟨ih _ stoppable.1, fun c => trappingCeases calls (stoppable.2 c)⟩
  | fetch name rest ih => exact fun answer => ih answer (stoppable answer)
  | assign name v rest ih => exact ih stoppable
  | pause rest ih => exact ih stoppable
  | spin rest => exact stoppable

theorem sleepStoppable (n : Nat) : (sleep n).Stoppable := by
  induction n with
  | zero => trivial
  | succ n ih => exact ⟨ih, fun c => ⟨c.frames, rfl, fun _ => rfl⟩⟩

theorem appliedStoppable {p : Program Sexp} (applied : Applied p) : p.Stoppable := by
  cases applied with
  | value | raised | written => trivial
  | line => exact fun answer => by cases answer <;> trivial
  | slept n => exact Program.bindStoppable (sleepStoppable n) fun _ => trivial

theorem stoppableComposes : Composes fun _ p => p.Stoppable where
  done _ := trivial
  bind := Program.bindStoppable
  fetch _ _ next := next
  assign _ _ _ next := next
  checkpoint calls := ⟨trivial, trapCeases calls⟩
  raised _ _ _ := trivial
  applied calls name args := trappingStoppable calls (appliedStoppable (applyApplied name args))

/- Either the evaluation passes at most that many safe points, and the limit makes no difference, or
it ends at the next one, with this condition, as far as it had come by then. -/
theorem stoppedAtSafePoint (form package : String) (globals : Globals) (input : List String)
    (limit : Nat) (c : Condition) :
    let program := evaluate form package
    let free := Script.unlimited globals input
    let limited := free.limited limit c
    ((free.run program).2.checks ≤ limit →
      limited.run program = ((free.run program).1, (free.run program).2.limited limit c)) ∧
    (limit < (free.run program).2.checks → ∃ before after frames,
      free.CutShort program limit c before after frames ∧
      (free.run program).2 = (free.after before).after (.checked (.ok ()) :: after) ∧
      (limited.run program).2.globals = (free.after before).globals ∧
      (limited.run program).2.output <+: (free.run program).2.output ∧
      ∃ consumed further, input = consumed ++ (limited.run program).2.input ∧
        input = consumed ++ further ++ (free.run program).2.input) := by
  intro program free limited
  have limits : free.Limits program limit c :=
    Script.limitsRun (evaluateComposes stoppableComposes form package) rfl c (Nat.zero_le _)
  obtain ⟨few, same⟩ | ⟨many, before, after, frames, cut⟩ := limits
  · exact ⟨fun _ => same, fun many => absurd many (Nat.not_lt.mpr few)⟩
  · refine ⟨fun few => absurd many (Nat.not_lt.mpr few), fun _ => ?_⟩
    have whole : (free.run program).2 = (free.after before).after (.checked (.ok ()) :: after) := by
      rw [Script.runAfter, cut.unlimited]
      exact List.foldl_append ..
    have ended : (limited.run program).2 =
        { (free.after before).limited limit c with checks := limit + 1 } :=
      congrArg Prod.snd cut.ends
    obtain ⟨-, ⟨consumed, started⟩, -⟩ := free.afterGrows before
    obtain ⟨written, ⟨further, rest⟩, -⟩ :=
      (free.after before).afterGrows (.checked (.ok ()) :: after)
    rw [← whole] at written rest
    refine ⟨before, after, frames, cut, whole, ?_, ended ▸ written, consumed, further, ?_, ?_⟩
    · rw [ended]
      rfl
    · rw [ended]
      exact started.symm
    · rw [List.append_assoc, rest]
      exact started.symm

def printsThenReads : String := "(list (print 1) (setq x (read-line)))"

theorem stoppedBeforeRead :
    2 < ((Script.unlimited [] ["two"]).run (evaluate printsThenReads "USER")).2.checks ∧
    (∃ before after frames, (Script.unlimited [] ["two"]).CutShort
      (evaluate printsThenReads "USER") 2 .interrupt before after frames) ∧
    (((Script.unlimited [] ["two"]).limited 2 .interrupt).run (evaluate printsThenReads "USER")).2 =
      { (Script.unlimited [] ["two"]).limited 2 .interrupt with output := ["1\n"], checks := 3 } := by
  have many : 2 < ((Script.unlimited [] ["two"]).run (evaluate printsThenReads "USER")).2.checks := by
    decide +kernel
  obtain ⟨before, after, frames, cut, -⟩ :=
    (stoppedAtSafePoint printsThenReads "USER" [] ["two"] 2 .interrupt).2 many
  exact ⟨many, ⟨before, after, frames, cut⟩, by decide +kernel⟩

end Calc
end RemoteEval
