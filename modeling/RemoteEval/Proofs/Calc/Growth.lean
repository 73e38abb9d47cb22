import RemoteEval.Proofs.Calc.Values
import RemoteEval.Proofs.Wire.RoundTrip

/-! Values that outgrow every limit. Each assignment of `grownForm` makes a list of two copies of
what there is, so a text of a few hundred letters stops with a description that no frame holds. -/
namespace RemoteEval

namespace Program
variable {α β : Type} {p : Program α} {g after : Globals}

/- How a program stops that nothing disturbs and that needs no input, writes nothing and takes no
rest; with the globals that it leaves. -/
def stopped (g : Globals) : Program α → Option (Failure Condition × Globals)
  | .stop failure => some (failure, g)
  | .check next => (next (.ok ())).stopped g
  | .fetch name next => (next (g.fetch name)).stopped g
  | .assign name v next => next.stopped (g.assign name v)
  | _ => none

theorem stoppedLater {a : α} (f : α → Program β) (value : p.undisturbed g = some (a, after)) :
    (p.bind f).stopped g = (f a).stopped after := by
  induction p generalizing g with
  | done => cases value; rfl
  | check next ih => exact ih _ value
  | fetch name next ih => exact ih _ value
  | assign name v next ih => exact ih value
  | stop | write | read | pause | spin => contradiction

theorem stoppedFirst {failure : Failure Condition} (f : α → Program β)
    (stops : p.stopped g = some (failure, after)) : (p.bind f).stopped g = some (failure, after) := by
  induction p generalizing g with
  | stop => exact stops
  | check next ih => exact ih _ stops
  | fetch name next ih => exact ih _ stops
  | assign name v next ih => exact ih stops
  | done | write | read | pause | spin => contradiction

end Program

namespace Calc

def doubling : Sexp :=
  .list [.symbol "setq", .symbol "x", .list [.symbol "list", .symbol "x", .symbol "x"]]

def doubled : Nat → Sexp → Sexp
  | 0, v => v
  | k + 1, v => .list [doubled k v, doubled k v]

def erring : Sexp := .list [.symbol "error", .symbol "x"]

def grownForm (k : Nat) (text : String) : Sexp :=
  .list (.symbol "progn" :: .list [.symbol "setq", .symbol "x", .str text] ::
    (List.replicate k doubling ++ [erring]))

theorem doubledInside (k : Nat) (v : Sexp) : doubled k (.list [v, v]) = doubled (k + 1) v := by
  induction k with
  | zero => rfl
  | succ k ih => rw [doubled, ih, ← doubled]

theorem doubledLength (k : Nat) (v : Sexp) :
    2 ^ k * v.printed.length ≤ (doubled k v).printed.length := by
  induction k with
  | zero => simp [doubled]
  | succ k ih =>
    rw [doubled, Sexp.printedLength (by simp), Nat.pow_succ, Nat.mul_right_comm]
    simp only [Sexp.spacedLength]
    omega

theorem errorLength (k : Nat) (v : Sexp) :
    2 ^ (k + 1) * v.printed.length ≤ (errorText [doubled (k + 1) v]).length := by
  have written : (errorText [doubled (k + 1) v]).toList = (doubled (k + 1) v).printed := by
    rw [doubled, errorText, Sexp.writeItemsToList]
    · simp [Sexp.printedItems]
    · simp
  rw [← String.length_toList, written]
  exact doubledLength (k + 1) v

theorem evalDoubling (v : Sexp) (calls : List ActiveCall) :
    (eval doubling calls).undisturbed [("x", v)] = some ((.list [v, v], calls), [("x", .list [v, v])]) :=
  rfl

theorem evalErring (v : Sexp) (calls : List ActiveCall) : ∃ frames,
    (eval erring calls).stopped [("x", v)] = some (.failed { Condition.error "SIMPLE-ERROR"
      (errorText [v]) with frames }, [("x", v)]) :=
  ⟨_, rfl⟩

theorem evalDoubled (k : Nat) (v : Sexp) (calls : List ActiveCall) : ∃ frames,
    (evalArguments (List.replicate k doubling ++ [erring]) calls).stopped [("x", v)] =
      some (.failed { Condition.error "SIMPLE-ERROR" (errorText [doubled k v]) with frames },
        [("x", doubled k v)]) := by
  induction k generalizing v calls with
  | zero =>
    obtain ⟨frames, stops⟩ := evalErring v calls
    exact ⟨frames, Program.stoppedFirst _ stops⟩
  | succ k ih =>
    obtain ⟨frames, later⟩ := ih (.list [v, v]) (file (.list [v, v]) calls)
    rw [doubledInside] at later
    exact ⟨frames, (Program.stoppedLater _ (evalDoubling v calls)).trans later⟩

theorem evalGrown (k : Nat) (text : String) : ∃ frames,
    (eval (grownForm k text) []).stopped [] = some (.failed { Condition.error "SIMPLE-ERROR"
      (errorText [doubled k (.str text)]) with frames }, [("x", doubled k (.str text))]) := by
  let calls : List ActiveCall := [⟨grownForm k text, [.str text]⟩]
  obtain ⟨frames, stops⟩ := evalDoubled k (.str text) calls
  exact ⟨frames, Program.stoppedFirst (applyTop "progn") stops⟩

end Calc
end RemoteEval
