import RemoteEval.Proofs.Calc.Forms

/-! Programs that stop where they are told to. What a safe point or a read gives them as the reason
is the condition that they end with, whatever calls they show as active, and no program claims on
its own that it was interrupted. A language need not be like that, but the calculator is. -/
namespace RemoteEval

namespace Program
variable {α β : Type}

/- The program is over, for this reason. -/
def Heeds (c : Condition) (p : Program α) : Prop := ∃ frames, p = .signal { c with frames }

def Obeys : Program α → Prop
  | .done _ => True
  | .stop (.failed c) => c.kind ≠ .interrupt
  | .stop (.crashed _) => True
  | .write _ next => next.Obeys
  | .read next => (∀ line, (next (.ok line)).Obeys) ∧ ∀ c, (next (.error c)).Heeds c
  | .check next => (next (.ok ())).Obeys ∧ ∀ c, (next (.error c)).Heeds c
  | .fetch _ next => ∀ answer, (next answer).Obeys
  | .assign _ _ next => next.Obeys
  | .pause next => next.Obeys
  | .spin next => ∀ c, (next c).Heeds c

theorem heedsObeys {c : Condition} {p : Program α} (heeds : p.Heeds c)
    (other : c.kind ≠ .interrupt) : p.Obeys := by
  obtain ⟨frames, rfl⟩ := heeds
  exact other

theorem bindHeeds {c : Condition} {p : Program α} (f : α → Program β) (heeds : p.Heeds c) :
    (p.bind f).Heeds c := by
  obtain ⟨frames, rfl⟩ := heeds
  exact ⟨frames, rfl⟩

theorem bindObeys {p : Program α} {f : α → Program β} (obeys : p.Obeys)
    (next : ∀ a, (f a).Obeys) : (p.bind f).Obeys := by
  induction p with
  | done a => exact next a
  | stop failure =>
    cases failure with
    | failed c => exact obeys
    | crashed => trivial
  | write text rest ih => exact ih obeys
  | read rest ih =>
    exact ⟨fun line => ih _ (obeys.1 line), fun c => bindHeeds f (obeys.2 c)⟩
  | check rest ih => exact ⟨ih _ obeys.1, fun c => bindHeeds f (obeys.2 c)⟩
  | fetch name rest ih => exact fun answer => ih answer (obeys answer)
  | assign name v rest ih => exact ih obeys
  | pause rest ih => exact ih obeys
  | spin rest ih => exact fun c => bindHeeds f (obeys c)

end Program

def Language.Obeys (l : Language) : Prop := ∀ form package, (l.evaluate form package).Obeys

namespace Calc

theorem trapKind (calls : List ActiveCall) (c : Condition) : (trap calls c).kind = c.kind := by
  obtain ⟨frames, same, -⟩ := trapFrames calls c
  rw [same]

theorem checkpointObeys (calls : List ActiveCall) : (checkpoint calls).Obeys := by
  refine ⟨trivial, fun c => ?_⟩
  obtain ⟨frames, same, -⟩ := trapFrames calls c
  exact ⟨frames, congrArg Program.signal same⟩

theorem trappingHeeds (calls : List ActiveCall) {c : Condition} {p : Program Sexp}
    (heeds : p.Heeds c) : (trapping calls p).Heeds c := by
  obtain ⟨frames, rfl⟩ := heeds
  obtain ⟨shown, same, -⟩ := trapFrames calls { c with frames }
  exact ⟨shown, congrArg Program.signal same⟩

theorem trappingObeys (calls : List ActiveCall) {p : Program Sexp} (obeys : p.Obeys) :
    (trapping calls p).Obeys := by
  induction p with
  | done a => trivial
  | stop failure =>
    cases failure with
    | failed c =>
      have kind : c.kind ≠ .interrupt := obeys
      rw [← trapKind calls c] at kind
      exact kind
    | crashed => trivial
  | write text rest ih => exact ih obeys
  | read rest ih =>
    exact ⟨fun line => ih _ (obeys.1 line), fun c => trappingHeeds calls (obeys.2 c)⟩
  | check rest ih => exact ⟨ih _ obeys.1, fun c => trappingHeeds calls (obeys.2 c)⟩
  | fetch name rest ih => exact fun answer => ih answer (obeys answer)
  | assign name v rest ih => exact ih obeys
  | pause rest ih => exact ih obeys
  | spin rest ih => exact fun c => trappingHeeds calls (obeys c)

theorem sleepObeys (n : Nat) : (sleep n).Obeys := by
  induction n with
  | zero => trivial
  | succ n ih => exact ⟨ih, fun c => ⟨c.frames, rfl⟩⟩

theorem signalObeys {c : Condition} (kind : c.kind = .error) :
    (Program.signal c : Program Sexp).Obeys := by
  change c.kind ≠ .interrupt
  rw [kind]
  decide

theorem appliedObeys {p : Program Sexp} (applied : Applied p) : p.Obeys := by
  cases applied with
  | value | written => trivial
  | raised kind => exact signalObeys kind
  | line => exact ⟨fun _ => trivial, fun c => ⟨c.frames, rfl⟩⟩
  | slept n => exact Program.bindObeys (sleepObeys n) fun _ => trivial

theorem obeysComposes : Composes fun _ p => p.Obeys where
  done _ := trivial
  bind := Program.bindObeys
  fetch _ _ next := next
  assign _ _ _ next := next
  checkpoint := checkpointObeys
  raised calls _ kind := signalObeys ((trapKind calls _).trans kind)
  applied calls name args := trappingObeys calls (appliedObeys (applyApplied name args))

theorem languageObeys : language.Obeys := evaluateComposes obeysComposes

end Calc
end RemoteEval
