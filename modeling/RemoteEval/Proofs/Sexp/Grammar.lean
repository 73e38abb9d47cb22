import RemoteEval.Proofs.Sexp.Atoms

/-! The grammar of s-expressions, apart from any reader. `Expr` is one expression with nothing
around it and `Items` a row of them with blanks before, between and after; both carry how deep
parentheses nest in the derivation, which `()` raises although its value is `nil`. Two atoms in a
row need a gap: an atom is a maximal run of atom characters.

Here are the facts that need only the derivation: rows can be joined, and the count of
parentheses that guards the reader is the nesting of the derivation. -/
namespace RemoteEval.Sexp
open Text (isBlank)

inductive Quoted (delimiter : Char) : List Char → List Char → Prop where
  | nil : Quoted delimiter [] []
  | plain {c text name} (bare : c ≠ '\\') (within : c ≠ delimiter)
      (rest : Quoted delimiter text name) : Quoted delimiter (c :: text) (c :: name)
  | backslash {c text name} (rest : Quoted delimiter text name) :
      Quoted delimiter ('\\' :: c :: text) (c :: name)

def Blank (text : List Char) : Prop := ∀ c ∈ text, isBlank c = true

theorem blankNil : Blank [] := by simp [Blank]

def Apart (text rest : List Char) : Prop :=
  ∀ c d, text.getLast? = some c → rest.head? = some d → isAtomChar c = true → isAtomChar d = false

mutual
inductive Expr : List Char → Sexp → Nat → Prop where
  | delimited (kind : Delimited) {text name} (body : Quoted kind.delimiter text name) :
      Expr (kind.delimiter :: (text ++ [kind.delimiter])) (kind.value name) 0
  | atom {text v} (nonempty : text ≠ []) (chars : ∀ c ∈ text, isAtomChar c = true)
      (value : Atom text v) : Expr text v 0
  | list {text items n} (inner : Items text items n) :
      Expr ('(' :: (text ++ [')'])) (ofItems items) (n + 1)

inductive Items : List Char → List Sexp → Nat → Prop where
  | done {blanks} (blank : Blank blanks) : Items blanks [] 0
  | more {blanks text rest v vs m n} (blank : Blank blanks) (first : Expr text v m)
      (apart : Apart text rest) (later : Items rest vs n) :
      Items (blanks ++ (text ++ rest)) (v :: vs) (max m n)
end

/- The text is one expression, with blanks on either side of it. -/
inductive Derives : List Char → Sexp → Nat → Prop where
  | padded {before text after v n} (leading : Blank before) (expr : Expr text v n)
      (trailing : Blank after) : Derives (before ++ (text ++ after)) v n

theorem apartCons (text : List Char) {d : Char} {rest : List Char} (other : isAtomChar d = false) :
    Apart text (d :: rest) := by
  intro c e _ first _
  cases first
  exact other

theorem apartBlank (text : List Char) {blanks : List Char} (blank : Blank blanks) :
    Apart text blanks := by
  cases blanks with
  | nil =>
    intro c d _ first
    cases first
  | cons d rest => exact apartCons text (blankPlain (blank d List.mem_cons_self)).1

theorem blankApart {blanks : List Char} (blank : Blank blanks) (rest : List Char) :
    Apart blanks rest := by
  intro c d last _ atom
  have other := (blankPlain (blank c (List.mem_of_getLast? last))).1
  rw [other] at atom
  contradiction

theorem Apart.tail {before text rest : List Char} (apart : Apart (before ++ text) rest) :
    Apart text rest := by
  intro c d last first
  exact apart c d (by simp [last]) first

theorem Apart.append {text rest more : List Char} (apart : Apart text rest)
    (later : Apart (text ++ rest) more) : Apart text (rest ++ more) := by
  cases rest with
  | nil => simpa using later
  | cons d rest => exact fun c e last first => apart c e last (by simpa using first)

theorem itemsPad {blanks text : List Char} {vs n} (blank : Blank blanks) (items : Items text vs n) :
    Items (blanks ++ text) vs n := by
  cases items with
  | done later => exact .done (List.forall_mem_append.mpr ⟨blank, later⟩)
  | more later first apart rest =>
    rw [← List.append_assoc]
    exact .more (List.forall_mem_append.mpr ⟨blank, later⟩) first apart rest

theorem itemsAppend {text more : List Char} {ws m} (later : Items more ws m) :
    ∀ {vs n}, Items text vs n → Apart text more → Items (text ++ more) (vs ++ ws) (max n m)
  | [], _, .done blank, _ => by simpa using itemsPad blank later
  | _ :: _, _, @Items.more _ first rest _ _ _ _ blank expr between items, apart => by
    have joined := itemsAppend later items (Apart.tail (Apart.tail apart))
    have torn : Apart first (rest ++ more) := between.append (Apart.tail apart)
    simpa [Nat.max_assoc] using Items.more blank expr torn joined

theorem itemsOne {text : List Char} {v n} (expr : Expr text v n) : Items text [v] n := by
  have alone := Items.more blankNil expr (apartBlank text blankNil) (.done blankNil)
  simpa using alone

theorem derivesItems {text : List Char} {v n} : Derives text v n ↔ Items text [v] n := by
  constructor
  · rintro ⟨leading, expr, trailing⟩
    have alone := Items.more leading expr (apartBlank _ trailing) (.done trailing)
    simpa using alone
  · intro items
    cases items with
    | more leading expr apart later =>
      cases later with
      | done trailing => simpa using Derives.padded leading expr trailing

theorem scanPlain {text : List Char}
    (plain : ∀ c ∈ text, c ≠ '(' ∧ c ≠ ')' ∧ c ≠ '"' ∧ c ≠ '|') (depth deepest : Nat)
    (rest : List Char) :
    scanDepth .outside depth deepest (text ++ rest) = scanDepth .outside depth deepest rest := by
  induction text with
  | nil => rfl
  | cons c text ih =>
    have first := plain c List.mem_cons_self
    simpa [scanDepth, first] using ih fun d mem => plain d (List.mem_cons_of_mem _ mem)

theorem scanBlank {blanks : List Char} (blank : Blank blanks) (depth deepest : Nat)
    (rest : List Char) :
    scanDepth .outside depth deepest (blanks ++ rest) = scanDepth .outside depth deepest rest :=
  scanPlain (fun c mem => (blankPlain (blank c mem)).2) depth deepest rest

theorem scanQuoted {delimiter : Char} {text name : List Char} (body : Quoted delimiter text name)
    (depth deepest : Nat) (rest : List Char) :
    scanDepth (.inside delimiter) depth deepest (text ++ rest) =
      scanDepth (.inside delimiter) depth deepest rest := by
  induction body with
  | nil => rfl
  | plain bare within _ ih => simpa [scanDepth, bare, within] using ih
  | backslash _ ih => simpa [scanDepth] using ih

mutual
theorem exprScan {text v n} {depth deepest : Nat} (below : depth ≤ deepest) (rest : List Char) :
    Expr text v n → scanDepth .outside depth deepest (text ++ rest) =
      scanDepth .outside depth (max deepest (depth + n)) rest
  | .delimited kind body => by
    have plain : kind.delimiter ≠ '\\' := by cases kind <;> decide
    have quotes : kind.delimiter = '"' ∨ kind.delimiter = '|' := by cases kind <;> decide
    simp [scanDepth, quotes, scanQuoted body, plain, Nat.max_eq_left below]
  | .atom _ chars _ => by
    have bare : ∀ c ∈ text, c ≠ '(' ∧ c ≠ ')' ∧ c ≠ '"' ∧ c ≠ '|' := fun c mem => by
      have := atomCharPlain (chars c mem)
      grind
    have plain := scanPlain bare depth deepest rest
    simpa [Nat.max_eq_left below] using plain
  | @Expr.list _ _ n items => by
    have within := itemsScan (Nat.le_max_right deepest (depth + 1)) (')' :: rest) items
    have most : max (max deepest (depth + 1)) (depth + 1 + n) = max deepest (depth + (n + 1)) := by
      omega
    simp [scanDepth, within, most]

theorem itemsScan {text vs n} {depth deepest : Nat} (below : depth ≤ deepest) (rest : List Char) :
    Items text vs n → scanDepth .outside depth deepest (text ++ rest) =
      scanDepth .outside depth (max deepest (depth + n)) rest
  | .done blank => by simpa [Nat.max_eq_left below] using scanBlank blank depth deepest rest
  | @Items.more _ _ later _ _ m n blank expr _ items => by
    have one := exprScan below (later ++ rest) expr
    have others := itemsScan (Nat.le_trans below (Nat.le_max_left deepest (depth + m))) rest items
    have most : max (max deepest (depth + m)) (depth + n) = max deepest (depth + max m n) := by
      omega
    rw [List.append_assoc, scanBlank blank, List.append_assoc, one, others, most]
end

theorem derivesNesting {text : List Char} {v n} (derives : Derives text v n) :
    nestingDepth text = n := by
  have scan := itemsScan (Nat.le_refl 0) [] (derivesItems.mp derives)
  simpa [nestingDepth, scanDepth] using scan

theorem leScanDepth (scan : Scan) (depth deepest : Nat) (cs : List Char) :
    deepest ≤ scanDepth scan depth deepest cs := by
  fun_induction scanDepth scan depth deepest cs with
  | case1 => exact Nat.le_refl _
  | case7 depth deepest c cs _ _ ih => exact Nat.le_trans (Nat.le_max_left _ _) ih
  | _ => assumption

theorem scanDepthAppend (scan : Scan) (depth deepest : Nat) (cs more : List Char) :
    scanDepth scan depth deepest cs ≤ scanDepth scan depth deepest (cs ++ more) := by
  fun_induction scanDepth scan depth deepest cs with
  | case1 => exact leScanDepth _ _ _ _
  | _ => simp_all [scanDepth]

end RemoteEval.Sexp
