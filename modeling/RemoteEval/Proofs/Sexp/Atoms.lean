import RemoteEval.Proofs.Sexp.Reading

/-! What a bare atom stands for, said by its form: an optional sign and digits, a colon and a
name, the three letters of `nil`, or anything else, which is a symbol. `classify` gives an atom
the value that its form says and refuses the rest: integers that do not fit and keywords without
a proper name. -/
namespace RemoteEval.Sexp

structure Signed (sign digits : List Char) : Prop where
  sign : sign = [] ∨ sign = ['+'] ∨ sign = ['-']
  nonempty : digits ≠ []
  digits : ∀ c ∈ digits, c.isDigit = true

/- What an atom stands for. An atom shaped like an integer is one of 64 bits or nothing at all. -/
inductive Atom : List Char → Sexp → Prop where
  | int {sign digits i} (shape : Signed sign digits)
      (value : i.toInt = (if sign = ['-'] then -1 else 1) * (Nat.ofDigitChars 10 digits 0 : Int)) :
      Atom (sign ++ digits) (.int i)
  | keyword {name} (nonempty : name ≠ []) (plain : ':' ∉ name) :
      Atom (':' :: name) (.keyword (String.ofList name))
  | nil {atom} (letters : atom.map Char.toLower = ['n', 'i', 'l']) : Atom atom .nil
  | symbol {atom} (noNumber : ∀ sign digits, Signed sign digits → atom ≠ sign ++ digits)
      (noKeyword : atom.head? ≠ some ':') (noNil : atom.map Char.toLower ≠ ['n', 'i', 'l']) :
      Atom atom (.symbol (String.ofList atom))

theorem digitAtom {c : Char} (digit : c.isDigit = true) :
    isAtomChar c = true ∧ c ≠ '-' ∧ c ≠ '+' ∧ c.toLower = c ∧
      Text.digitValue c = c.toNat - '0'.toNat := by
  have all : ∀ n < 10, isAtomChar n.digitChar = true ∧ n.digitChar ≠ '-' ∧ n.digitChar ≠ '+' ∧
      n.digitChar.toLower = n.digitChar ∧
      Text.digitValue n.digitChar = n.digitChar.toNat - '0'.toNat := by decide
  obtain ⟨low, high⟩ := Char.isDigit_iff_toNat.mp digit
  have small : c.toNat - '0'.toNat < 10 := by simp at low high ⊢; omega
  have same : (c.toNat - '0'.toNat).digitChar = c := by
    apply Char.toNat_inj.mp
    rw [Nat.toNat_digitChar_of_lt_ten small]
    simp at low ⊢
    omega
  exact same ▸ all _ small

theorem valueFromDigits {cs : List Char} (digits : ∀ c ∈ cs, c.isDigit = true) (n : Nat) :
    Text.valueFrom 10 n cs = Nat.ofDigitChars 10 cs n := by
  rw [Nat.ofDigitChars_eq_foldl]
  induction cs generalizing n with
  | nil => rfl
  | cons c cs ih =>
    have value := (digitAtom (digits c List.mem_cons_self)).2.2.2.2
    have rest := ih (fun d mem => digits d (List.mem_cons_of_mem _ mem))
    simp only [Text.valueFrom, List.foldl_cons] at rest ⊢
    rw [value, Nat.mul_comm n]
    exact rest _

theorem int64Iff {x : Int} {i : Int64} : int64? x = some i ↔ i.toInt = x := by
  constructor
  · intro inside
    unfold int64? at inside
    split at inside
    next range =>
      cases inside
      exact Int64.toInt_ofInt_of_le range.1 (by omega)
    · contradiction
  · rintro rfl
    have low := i.le_toInt
    have high := i.toInt_lt
    rw [int64?, if_pos (by omega), Int64.ofInt_toInt]

theorem isDigitsIff {cs : List Char} :
    isDigits cs = true ↔ cs ≠ [] ∧ ∀ c ∈ cs, c.isDigit = true := by
  simp [isDigits]

theorem signedDigitsOf {sign digits : List Char} (shape : Signed sign digits) :
    signedDigits (sign ++ digits) = (decide (sign = ['-']), digits) := by
  rcases shape.sign with rfl | rfl | rfl
  · obtain ⟨c, rest, rfl⟩ := List.exists_cons_of_ne_nil shape.nonempty
    obtain ⟨_, minus, plus, _⟩ := digitAtom (shape.digits c List.mem_cons_self)
    simp [signedDigits, minus, plus]
  · rfl
  · rfl

theorem signedOf {atom : List Char} (digits : isDigits (signedDigits atom).2 = true) :
    ∃ sign, Signed sign (signedDigits atom).2 ∧ atom = sign ++ (signedDigits atom).2 := by
  obtain ⟨nonempty, all⟩ := isDigitsIff.mp digits
  have split : ∃ sign, (sign = [] ∨ sign = ['+'] ∨ sign = ['-']) ∧
      atom = sign ++ (signedDigits atom).2 := by
    unfold signedDigits
    split
    · exact ⟨['-'], by simp⟩
    · exact ⟨['+'], by simp⟩
    · exact ⟨[], by simp⟩
  obtain ⟨sign, known, same⟩ := split
  exact ⟨sign, ⟨known, nonempty, all⟩, same⟩

theorem classifyNumber {sign digits : List Char} (shape : Signed sign digits) {v : Sexp} :
    classify (sign ++ digits) = some v ↔ ∃ i : Int64, v = .int i ∧
      i.toInt = (if sign = ['-'] then -1 else 1) * (Nat.ofDigitChars 10 digits 0 : Int) := by
  have whole : isDigits digits = true := isDigitsIff.mpr ⟨shape.nonempty, shape.digits⟩
  have read : Text.readUpTo 10 9223372036854775808 0 digits = _ :=
    Text.readUpToEq (by decide) (Nat.zero_le _) digits
  rw [valueFromDigits shape.digits] at read
  simp only [classify, signedDigitsOf shape, whole, if_true, read, decide_eq_true_eq]
  by_cases small : Nat.ofDigitChars 10 digits 0 ≤ 9223372036854775808
  · simp only [small, if_true, Option.bind_eq_bind, Option.bind_some, Option.map_eq_some_iff,
      int64Iff]
    constructor
    · rintro ⟨i, value, rfl⟩
      exact ⟨i, rfl, by rw [value]; split <;> omega⟩
    · rintro ⟨i, rfl, value⟩
      exact ⟨i, by rw [value]; split <;> omega, rfl⟩
  · simp only [small, if_false, Option.bind_eq_bind, Option.bind_none, reduceCtorEq, false_iff]
    rintro ⟨i, _, value⟩
    have low := i.le_toInt
    have high := i.toInt_lt
    split at value <;> omega

theorem numberOther {sign digits : List Char} (shape : Signed sign digits) :
    (sign ++ digits).head? ≠ some ':' ∧
      (sign ++ digits).map Char.toLower ≠ ['n', 'i', 'l'] := by
  have begins : (sign ++ digits).head? ≠ some ':' := by
    obtain ⟨c, rest, rfl⟩ := List.exists_cons_of_ne_nil shape.nonempty
    have digit := shape.digits c List.mem_cons_self
    rcases shape.sign with rfl | rfl | rfl
    · rintro same
      cases same
      contradiction
    · simp
    · simp
  refine ⟨begins, fun letters => ?_⟩
  obtain ⟨front, c, rfl⟩ := (List.eq_nil_or_concat digits).resolve_left shape.nonempty
  have digit := shape.digits c (by simp)
  have last : c.toLower = 'l' := by
    have ends := congrArg List.getLast? letters
    simpa using ends
  rw [(digitAtom digit).2.2.2.1] at last
  subst last
  contradiction

theorem noDigits {atom : List Char}
    (noNumber : ∀ sign digits, Signed sign digits → atom ≠ sign ++ digits) :
    isDigits (signedDigits atom).2 = false := by
  rw [Bool.eq_false_iff]
  intro digits
  obtain ⟨sign, shape, same⟩ := signedOf digits
  exact noNumber _ _ shape same

theorem classifyAtomic {atom : List Char} {v : Sexp} (read : classify atom = some v) :
    Atom atom v := by
  by_cases number : ∃ sign digits, Signed sign digits ∧ atom = sign ++ digits
  · obtain ⟨sign, digits, shape, rfl⟩ := number
    obtain ⟨i, rfl, value⟩ := (classifyNumber shape).mp read
    exact .int shape value
  have noNumber : ∀ sign digits, Signed sign digits → atom ≠ sign ++ digits :=
    fun sign digits shape same => number ⟨sign, digits, shape, same⟩
  simp only [classify, noDigits noNumber, Bool.false_eq_true, if_false] at read
  split at read
  next name =>
    split at read
    · contradiction
    next named =>
      cases read
      simp only [Bool.or_eq_true, List.isEmpty_iff, List.contains_iff_mem, not_or] at named
      exact .keyword named.1 named.2
  next noKeyword =>
    split at read
    next same =>
      cases read
      exact .nil (eq_of_beq same)
    next noNil =>
      cases read
      refine .symbol noNumber ?_ (by simpa using noNil)
      intro colon
      obtain ⟨rest, rfl⟩ := List.head?_eq_some_iff.mp colon
      exact noKeyword rest rfl

theorem atomClassified {atom : List Char} {v : Sexp} (value : Atom atom v) :
    classify atom = some v := by
  cases value with
  | int shape value => exact (classifyNumber shape).mpr ⟨_, rfl, value⟩
  | @keyword name nonempty plain =>
    have digits := @noDigits (':' :: name) fun sign rest shape same =>
      (numberOther shape).1 (congrArg List.head? same.symm)
    simp [classify, digits, nonempty, plain]
  | nil same =>
    have digits := noDigits fun _ _ shape number => (numberOther shape).2 (number ▸ same)
    obtain ⟨c, rest, rfl⟩ := List.exists_cons_of_ne_nil (l := atom) (by rintro rfl; contradiction)
    have plain : c ≠ ':' := by
      rintro rfl
      simp at same
    simp [classify, digits, plain, same]
  | symbol noNumber noKeyword noNil =>
    have digits := noDigits noNumber
    cases atom with
    | nil => rfl
    | cons c rest =>
      have plain : c ≠ ':' := by simpa using noKeyword
      have named : (List.map Char.toLower (c :: rest) == ['n', 'i', 'l']) = false := by
        simpa using noNil
      simp only [classify, digits, named]
      simp [plain]

end RemoteEval.Sexp
