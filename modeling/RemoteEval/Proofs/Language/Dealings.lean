import RemoteEval.Language.Program

/-! What passes between a program and its surroundings, in order. With the same answers a program
does the same, so its dealings determine how it ends. The surroundings of a script go from one
dealing to the next, and nothing else changes them. -/
namespace RemoteEval

inductive Dealing where
  | wrote (text : String)
  | read (answer : Except Condition String)
  | checked (answer : Except Condition Unit)
  | fetched (name : String) (value : Option Sexp)
  | assigned (name : String) (value : Sexp)
  | paused
  | spun (reason : Condition)

namespace Program
variable {α β : Type}

/- The program ends like this after these dealings. -/
inductive Ends : Program α → List Dealing → Except (Failure Condition) α → Prop
  | done (a : α) : Ends (.done a) [] (.ok a)
  | stop (failure : Failure Condition) : Ends (.stop failure) [] (.error failure)
  | write {text next ds r} (rest : Ends next ds r) : Ends (.write text next) (.wrote text :: ds) r
  | read {next answer ds r} (rest : Ends (next answer) ds r) :
      Ends (.read next) (.read answer :: ds) r
  | check {next answer ds r} (rest : Ends (next answer) ds r) :
      Ends (.check next) (.checked answer :: ds) r
  | fetch {name next answer ds r} (rest : Ends (next answer) ds r) :
      Ends (.fetch name next) (.fetched name answer :: ds) r
  | assign {name v next ds r} (rest : Ends next ds r) :
      Ends (.assign name v next) (.assigned name v :: ds) r
  | pause {next ds r} (rest : Ends next ds r) : Ends (.pause next) (.paused :: ds) r
  | spin {next reason ds r} (rest : Ends (next reason) ds r) :
      Ends (.spin next) (.spun reason :: ds) r

theorem endsBind {p : Program α} {f : α → Program β} {ds : List Dealing}
    {r : Except (Failure Condition) β} (ends : (p.bind f).Ends ds r) :
    (∃ first rest a, ds = first ++ rest ∧ p.Ends first (.ok a) ∧ (f a).Ends rest r) ∨
    ∃ failure, r = .error failure ∧ p.Ends ds (.error failure) := by
  induction p generalizing ds with
  | done a => exact .inl ⟨[], ds, a, rfl, .done a, ends⟩
  | stop failure =>
    cases ends
    exact .inr ⟨failure, rfl, .stop failure⟩
  | write _ _ ih | assign _ _ _ ih | pause _ ih =>
    cases ends with
    | _ rest =>
      obtain ⟨first, last, a, rfl, mid, fin⟩ | ⟨failure, rfl, mid⟩ := ih rest
      · exact .inl ⟨_ :: first, last, a, rfl, by constructor; exact mid, fin⟩
      · exact .inr ⟨failure, rfl, by constructor; exact mid⟩
  | read _ ih | check _ ih | fetch _ _ ih | spin _ ih =>
    cases ends with
    | _ rest =>
      obtain ⟨first, last, a, rfl, mid, fin⟩ | ⟨failure, rfl, mid⟩ := ih _ rest
      · exact .inl ⟨_ :: first, last, a, rfl, by constructor; exact mid, fin⟩
      · exact .inr ⟨failure, rfl, by constructor; exact mid⟩

theorem endsThen {p : Program α} {f : α → Program β} {first rest : List Dealing} {a : α}
    {r : Except (Failure Condition) β} (ends : p.Ends first (.ok a)) (next : (f a).Ends rest r) :
    (p.bind f).Ends (first ++ rest) r := by
  generalize ended : Except.ok a = r' at ends
  induction ends with
  | done =>
    cases ended
    exact next
  | stop => cases ended
  | write _ ih => exact .write (ih ended)
  | read _ ih => exact .read (ih ended)
  | check _ ih => exact .check (ih ended)
  | fetch _ ih => exact .fetch (ih ended)
  | assign _ ih => exact .assign (ih ended)
  | pause _ ih => exact .pause (ih ended)
  | spin _ ih => exact .spin (ih ended)

end Program

namespace Script
variable {α : Type}

def meet (s : Script) : Dealing → Script
  | .wrote text => { s with output := s.output ++ [text] }
  | .read _ => s.read.2
  | .checked _ => s.check.2
  | .assigned name value => { s with globals := s.globals.assign name value }
  | .spun _ =>
    match s.stopAfter with
    | some (limit, _) => { s with checks := max (s.checks + 1) (limit + 1) }
    | none => s
  | .fetched .. | .paused => s

def after (s : Script) (ds : List Dealing) : Script := ds.foldl meet s

def limitReason (s : Script) : Condition := (s.stopAfter.map Prod.snd).getD .cancelled

/- What passes between a program and a script. -/
def dealings (s : Script) : Program α → List Dealing
  | .done _ | .stop _ => []
  | .write text next => .wrote text :: dealings (s.meet (.wrote text)) next
  | .read next => .read s.read.1 :: dealings s.read.2 (next s.read.1)
  | .check next => .checked s.check.1 :: dealings s.check.2 (next s.check.1)
  | .fetch name next =>
    .fetched name (s.globals.fetch name) :: dealings s (next (s.globals.fetch name))
  | .assign name value next =>
    .assigned name value :: dealings (s.meet (.assigned name value)) next
  | .pause next => .paused :: dealings s next
  | .spin next => .spun s.limitReason :: dealings (s.meet (.spun s.limitReason)) (next s.limitReason)

theorem runSpin (s : Script) (next : Condition → Program α) :
    s.run (.spin next) = (s.meet (.spun s.limitReason)).run (next s.limitReason) := by
  cases limit : s.stopAfter with
  | none => simp [run, meet, limitReason, limit]
  | some pair => simp [run, meet, limitReason, limit]

theorem runAfter (s : Script) (p : Program α) : (s.run p).2 = s.after (s.dealings p) := by
  induction p generalizing s with
  | done | stop => rfl
  | write _ _ ih | assign _ _ _ ih | pause _ ih => exact ih _
  | read _ ih | check _ ih | fetch _ _ ih => exact ih _ _
  | spin next ih =>
    rw [runSpin]
    exact ih _ _

theorem runEnds (s : Script) (p : Program α) : p.Ends (s.dealings p) (s.run p).1 := by
  induction p generalizing s with
  | done a => exact .done a
  | stop failure => exact .stop failure
  | write _ _ ih => exact .write (ih _)
  | read _ ih => exact .read (ih _ _)
  | check _ ih => exact .check (ih _ _)
  | fetch _ _ ih => exact .fetch (ih _ _)
  | assign _ _ _ ih => exact .assign (ih _)
  | pause _ ih => exact .pause (ih _)
  | spin next ih =>
    rw [runSpin]
    exact .spin (ih _ _)

theorem checkCounts (s : Script) : s.check.2 = { s with checks := s.checks + 1 } := by
  simp only [check]
  split
  · split <;> rfl
  · rfl

theorem readShortens (s : Script) : ∃ input, input <:+ s.input ∧ s.read.2 = { s with input } := by
  unfold read
  split
  next line rest lines => exact ⟨rest, lines ▸ List.suffix_cons .., rfl⟩
  · exact ⟨s.input, List.suffix_rfl, rfl⟩

theorem meetGrows (s : Script) (d : Dealing) : s.output <+: (s.meet d).output ∧
    (s.meet d).input <:+ s.input ∧ s.checks ≤ (s.meet d).checks := by
  cases d with
  | wrote text => exact ⟨List.prefix_append .., List.suffix_rfl, Nat.le_refl _⟩
  | read answer =>
    obtain ⟨input, shorter, same⟩ := readShortens s
    rw [meet, same]
    exact ⟨List.prefix_rfl, shorter, Nat.le_refl _⟩
  | checked answer =>
    rw [meet, checkCounts]
    exact ⟨List.prefix_rfl, List.suffix_rfl, Nat.le_succ _⟩
  | spun reason =>
    simp only [meet]
    split
    · exact ⟨List.prefix_rfl, List.suffix_rfl, by dsimp only; omega⟩
    · exact ⟨List.prefix_rfl, List.suffix_rfl, Nat.le_refl _⟩
  | fetched | assigned | paused => exact ⟨List.prefix_rfl, List.suffix_rfl, Nat.le_refl _⟩

theorem meetLimit (s : Script) (d : Dealing) : (s.meet d).stopAfter = s.stopAfter := by
  cases d with
  | read answer =>
    obtain ⟨input, -, same⟩ := readShortens s
    rw [meet, same]
  | checked answer => rw [meet, checkCounts]
  | spun reason =>
    simp only [meet]
    split <;> rfl
  | wrote | fetched | assigned | paused => rfl

theorem afterGrows (s : Script) (ds : List Dealing) : s.output <+: (s.after ds).output ∧
    (s.after ds).input <:+ s.input ∧ s.checks ≤ (s.after ds).checks := by
  induction ds generalizing s with
  | nil => exact ⟨List.prefix_rfl, List.suffix_rfl, Nat.le_refl _⟩
  | cons d ds ih =>
    obtain ⟨written, unread, counted⟩ := meetGrows s d
    obtain ⟨output, input, checks⟩ := ih (s.meet d)
    exact ⟨written.trans output, input.trans unread, Nat.le_trans counted checks⟩

end Script
end RemoteEval
