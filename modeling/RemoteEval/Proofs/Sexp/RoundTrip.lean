import RemoteEval.Proofs.Sexp.Acceptance

/-! Printing and reading back. `printed` is the printed form as characters, without the text
that stands before it. The grammar derives a proper value from its printed form, nested as deep as
the value, lists and items together; so the round trip holds of exactly the proper values that
nest no deeper than the guard allows. -/
namespace RemoteEval.Sexp

def escaped (delimiter : Char) (name : List Char) : List Char :=
  name.flatMap fun c => if c == delimiter || c == '\\' then ['\\', c] else [c]

def delimited (kind : Delimited) (name : List Char) : List Char :=
  kind.delimiter :: (escaped kind.delimiter name ++ [kind.delimiter])

mutual
def printed : Sexp → List Char
  | .nil => ['n', 'i', 'l']
  | .int i => (toString i.toInt).toList
  | .str s => delimited .string s.toList
  | .symbol s => if isBareName s then s.toList else delimited .bars s.toList
  | .keyword s => ':' :: s.toList
  | .list items => '(' :: (printedItems items ++ [')'])

def printedItems : List Sexp → List Char
  | [] => []
  | [v] => v.printed
  | v :: w :: rest => v.printed ++ ' ' :: printedItems (w :: rest)
end

theorem writeDelimitedToList (kind : Delimited) (out text : String) :
    (writeDelimited kind.delimiter out text).toList = out.toList ++ delimited kind text.toList := by
  -- the fold has already written a part of the name when the induction starts
  have body (cs : List Char) (so : String) :
      (cs.foldl (fun out c => if c == kind.delimiter || c == '\\' then (out.push '\\').push c
        else out.push c) so).toList = so.toList ++ escaped kind.delimiter cs := by
    induction cs generalizing so with
    | nil => simp [escaped]
    | cons c cs ih =>
      rw [List.foldl_cons, ih]
      simp only [escaped, List.flatMap_cons]
      split <;> simp
  rw [writeDelimited, String.toList_push, body]
  simp [delimited]

mutual
theorem writeToList : ∀ (v : Sexp) (out : String), (v.write out).toList = out.toList ++ v.printed
  | .nil, out => by simp [write, printed]
  | .int i, out => by simp [write, printed]
  | .str s, out => writeDelimitedToList .string out s
  | .symbol s, out => by
    simp only [write, printed]
    split
    · simp
    · exact writeDelimitedToList .bars out s
  | .keyword s, out => by simp [write, printed]
  | .list items, out => by simp [write, printed, writeItemsToList items]

theorem writeItemsToList : ∀ (items : List Sexp) (out : String),
    (writeItems out items).toList = out.toList ++ printedItems items
  | [], out => by simp [writeItems, printedItems]
  | [v], out => by simpa [writeItems, printedItems] using writeToList v out
  | v :: w :: rest, out => by
    simp [writeItems, printedItems, writeItemsToList (w :: rest), writeToList v]
end

theorem printToList (v : Sexp) : v.print.toList = v.printed := by
  simpa [print] using writeToList v ""

theorem escapedQuoted (delimiter : Char) (name : List Char) :
    Quoted delimiter (escaped delimiter name) name := by
  induction name with
  | nil => exact .nil
  | cons c name ih =>
    simp only [escaped, List.flatMap_cons] at ih ⊢
    split
    next => exact .backslash ih
    next plain =>
      simp only [Bool.or_eq_true, beq_iff_eq, not_or] at plain
      exact .plain plain.2 plain.1 ih

theorem delimitedExpr (kind : Delimited) (name : List Char) :
    Expr (delimited kind name) (kind.value name) 0 :=
  .delimited kind (escapedQuoted kind.delimiter name)

theorem reprDigits (n : Nat) : n.repr.toList ≠ [] ∧ (∀ c ∈ n.repr.toList, c.isDigit = true) ∧
    Nat.ofDigitChars 10 n.repr.toList 0 = n := by
  rw [Nat.toList_repr]
  exact ⟨Nat.toDigits_ne_nil, fun c mem => Nat.isDigit_of_mem_toDigits (by decide) (by decide) mem,
    Nat.ofDigitChars_ten_toDigits⟩

theorem intSigned (x : Int) : ∃ sign digits, Signed sign digits ∧
    (toString x).toList = sign ++ digits ∧
    x = (if sign = ['-'] then -1 else 1) * (Nat.ofDigitChars 10 digits 0 : Int) := by
  cases x with
  | ofNat n =>
    obtain ⟨nonempty, digits, _⟩ := reprDigits n
    exact ⟨[], n.repr.toList, ⟨.inl rfl, nonempty, digits⟩, rfl, by simp⟩
  | negSucc n =>
    obtain ⟨nonempty, digits, value⟩ := reprDigits (n + 1)
    refine ⟨['-'], (n + 1).repr.toList, ⟨.inr (.inr rfl), nonempty, digits⟩, ?_, ?_⟩
    · exact String.toList_append
    · rw [value, if_pos rfl]
      omega

theorem intExpr (i : Int64) : Expr (toString i.toInt).toList (.int i) 0 := by
  obtain ⟨sign, digits, shape, same, value⟩ := intSigned i.toInt
  rw [same]
  refine .atom (by simp [shape.nonempty]) ?_ (.int shape value)
  have minus : ∀ c ∈ sign, isAtomChar c = true := by
    intro c mem
    rcases shape.sign with rfl | rfl | rfl
    · contradiction
    · rw [List.mem_singleton.mp mem]
      decide
    · rw [List.mem_singleton.mp mem]
      decide
  exact List.forall_mem_append.mpr ⟨minus, fun c mem => (digitAtom (shape.digits c mem)).1⟩

theorem symbolExpr (name : String) : Expr (printed (.symbol name)) (.symbol name) 0 := by
  simp only [printed]
  split
  next bare =>
    simp only [isBareName, Bool.and_eq_true, List.all_eq_true, beq_iff_eq] at bare
    exact .atom (by simpa using bare.1.1) bare.1.2 (classifyAtomic bare.2)
  next => simpa [Delimited.value] using delimitedExpr .bars name.toList

theorem keywordExpr {name : String} (proper : isKeywordName name = true) :
    Expr (printed (.keyword name)) (.keyword name) 0 := by
  simp only [isKeywordName, Bool.and_eq_true, Bool.not_eq_true', List.isEmpty_eq_false_iff,
    List.all_eq_true, bne_iff_ne] at proper
  obtain ⟨named, chars⟩ := proper
  have colon : isAtomChar ':' = true := by decide
  have atom : Atom (':' :: name.toList) (.keyword name) := by
    simpa using Atom.keyword named fun mem => (chars ':' mem).2 rfl
  exact .atom (by simp [printed]) (List.forall_mem_cons.mpr ⟨colon, fun c mem => (chars c mem).1⟩)
    atom

mutual
theorem printedExpr : ∀ (v : Sexp), v.isProper = true → Expr v.printed v v.depth
  | .nil, _ => .atom (by decide) (List.all_eq_true.mp (by decide)) (.nil (by decide))
  | .int i, _ => intExpr i
  | .str s, _ => by simpa [printed, depth, Delimited.value] using delimitedExpr .string s.toList
  | .symbol name, _ => symbolExpr name
  | .keyword name, proper => keywordExpr proper
  | .list items, proper => by
    simp only [isProper, Bool.and_eq_true, Bool.not_eq_true', List.isEmpty_eq_false_iff] at proper
    rw [depth, ← ofItemsNonempty proper.1]
    have row := Expr.list (printedRow items proper.2)
    simpa [printed, ofItemsNonempty proper.1] using row

theorem printedRow : ∀ (items : List Sexp), allProper items = true →
    Items (printedItems items) items (depthOfItems items)
  | [], _ => .done (by simp [Blank, printedItems])
  | [v], proper => by
    simp only [allProper, Bool.and_true] at proper
    simpa [printedItems, depthOfItems] using itemsOne (printedExpr v proper)
  | v :: w :: rest, proper => by
    simp only [allProper, Bool.and_eq_true] at proper
    have later := printedRow (w :: rest) (by simpa [allProper] using proper.2)
    have space : Blank [' '] := List.forall_mem_singleton.mpr (by decide)
    have gap : Apart v.printed (' ' :: printedItems (w :: rest)) := apartCons v.printed (by decide)
    have row := Items.more blankNil (printedExpr v proper.1) gap
      (itemsPad space later)
    simpa [printedItems, depthOfItems] using row
end

theorem readPrinted {v : Sexp} (proper : v.isProper = true) (shallow : v.depth ≤ maxDepth) :
    read v.print = .ok v := by
  have derives := derivesItems.mpr (itemsOne (printedExpr v proper))
  exact derivesRead (printToList v ▸ derives) shallow

/- A value comes back from its printed form exactly when it is proper and not too deep. Names of
symbols and contents of strings do not matter: bars and quotes carry any of them. -/
theorem readPrintIff (v : Sexp) :
    read v.print = .ok v ↔ v.isProper = true ∧ v.depth ≤ 256 :=
  ⟨fun back => readFits back, fun ⟨proper, shallow⟩ => readPrinted proper shallow⟩

end RemoteEval.Sexp
