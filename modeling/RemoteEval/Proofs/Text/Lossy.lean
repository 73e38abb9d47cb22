import RemoteEval.Proofs.Text.Utf8

/-! Text that ends inside a character. Such bytes are whole characters and then the beginning of one
more; the strict decoder stops at that beginning and the lossy one puts a single replacement for
it. Both are told from what the decoder does with the whole character, byte for byte, so nothing
here depends on how a character is spelled. -/
namespace RemoteEval.Text.Utf8

/- Bytes that begin a character and do not complete it; perhaps none at all. -/
def Begins (tail : List UInt8) : Prop :=
  ∃ c rest, rest ≠ [] ∧ tail ++ rest = String.utf8EncodeChar c

theorem beginsNil : Begins [] := ⟨'a', String.utf8EncodeChar 'a', by decide, rfl⟩

theorem beginsShort {tail : List UInt8} (begins : Begins tail) : tail.length ≤ 3 := by
  obtain ⟨c, rest, more, whole⟩ := begins
  have size : tail.length + rest.length = c.utf8Size := by
    rw [← List.length_append, whole, String.length_utf8EncodeChar]
  have atMost := c.utf8Size_le_four
  have atLeast := List.length_pos_iff.mpr more
  omega

theorem prefixSplits {cs : List Char} {bytes : List UInt8}
    (start : bytes <+: cs.flatMap String.utf8EncodeChar) :
    ∃ whole tail, whole <+: cs ∧ bytes = whole.flatMap String.utf8EncodeChar ++ tail ∧
      Begins tail := by
  induction cs generalizing bytes with
  | nil =>
    have empty : bytes = [] := List.prefix_nil.mp start
    exact ⟨[], [], List.nil_prefix, empty, beginsNil⟩
  | cons c cs ih =>
    rw [List.flatMap_cons] at start
    by_cases complete : String.utf8EncodeChar c <+: bytes
    · obtain ⟨rest, rfl⟩ := complete
      obtain ⟨whole, tail, among, rfl, begins⟩ := ih ((List.prefix_append_right_inj _).mp start)
      exact ⟨c :: whole, tail, (List.prefix_cons_inj c).mpr among, by simp, begins⟩
    · obtain ⟨rest, short⟩ := (List.prefix_or_prefix_of_prefix start
        (List.prefix_append _ _)).resolve_right complete
      refine ⟨[], bytes, List.nil_prefix, rfl, c, rest, ?_, short⟩
      intro empty
      subst empty
      exact complete (by simp [← short])

def read : Option Pending → UInt8 → Step
  | none, b => start b
  | some p, b => p.step b

section
variable {index : Nat} {seen cs : List Char} {p : Option Pending} {b : UInt8} {bytes : List UInt8}

theorem decodeRead (right : decodeFrom index seen p (b :: bytes) = .ok cs) :
    (∃ c further, read p b = .char c ∧ decodeFrom further (c :: seen) none bytes = .ok cs) ∨
    ∃ q, read p b = .more q ∧ decodeFrom index seen (some q) bytes = .ok cs := by
  cases p with
  | none | some =>
    rw [decodeFrom] at right
    split at right
    next c complete => exact .inl ⟨c, _, complete, right⟩
    next q pending => exact .inr ⟨q, pending, right⟩
    · contradiction

theorem decodeMore {q : Pending} (more : read p b = .more q) :
    decodeFrom index seen p (b :: bytes) = decodeFrom index seen (some q) bytes := by
  cases p <;> rw [read] at more <;> simp only [decodeFrom, more]

theorem lossyMore {q : Pending} (more : read p b = .more q) :
    lossyFrom seen p (b :: bytes) = lossyFrom seen (some q) bytes := by
  cases p <;> rw [read] at more <;> simp only [lossyFrom, more]

theorem lossyChar {c : Char} (complete : read p b = .char c) :
    lossyFrom seen p (b :: bytes) = lossyFrom (c :: seen) none bytes := by
  cases p <;> rw [read] at complete <;> simp only [lossyFrom, complete]
end

theorem decodeGrows {index : Nat} {seen cs : List Char} {p : Option Pending} {bytes : List UInt8}
    (right : decodeFrom index seen p bytes = .ok cs) (more : bytes ≠ []) :
    seen.length < cs.length := by
  induction bytes generalizing index seen p with
  | nil => contradiction
  | cons b bytes ih =>
    obtain ⟨c, further, -, right⟩ | ⟨q, -, right⟩ := decodeRead right
    · cases bytes with
      | nil =>
        cases right
        simp
      | cons b' bytes => exact Nat.lt_of_succ_lt (ih right (List.cons_ne_nil b' bytes))
    · cases bytes with
      | nil => contradiction
      | cons b' bytes => exact ih right (List.cons_ne_nil b' bytes)

/- After bytes that are right to their end the lossy decoder is where the strict one is. -/
theorem lossyAfter {index : Nat} {seen cs : List Char} {p : Option Pending} {bytes : List UInt8}
    (right : decodeFrom index seen p bytes = .ok cs) (rest : List UInt8) :
    lossyFrom seen p (bytes ++ rest) = lossyFrom cs.reverse none rest := by
  induction bytes generalizing index seen p with
  | nil =>
    cases p with
    | none =>
      cases right
      simp
    | some p => contradiction
  | cons b bytes ih =>
    rw [List.cons_append]
    obtain ⟨c, further, complete, right⟩ | ⟨q, more, right⟩ := decodeRead right
    · rw [lossyChar complete]
      exact ih right
    · rw [lossyMore more]
      exact ih right

theorem cutOff {index : Nat} {seen cs : List Char} {p : Option Pending} {tail rest : List UInt8}
    (right : decodeFrom index seen p (tail ++ rest) = .ok cs) (one : cs.length = seen.length + 1)
    (more : rest ≠ []) (begun : p ≠ none ∨ tail ≠ []) (i : Nat) (before : List Char) :
    decodeFrom i before p tail = .error ⟨i, none⟩ ∧
      lossyFrom before p tail = (replacement :: before).reverse := by
  induction tail generalizing index p with
  | nil =>
    cases p with
    | none => simp at begun
    | some p => exact ⟨rfl, rfl⟩
  | cons b tail ih =>
    obtain ⟨c, further, -, right⟩ | ⟨q, pending, right⟩ := decodeRead right
    · have second := decodeGrows right (by simp [more])
      simp only [List.length_cons] at second
      omega
    · rw [decodeMore pending, lossyMore pending]
      exact ih right (.inl (by simp))

theorem beginsCutOff {tail : List UInt8} (begins : Begins tail) (nonempty : tail ≠ []) (i : Nat)
    (before : List Char) : decodeFrom i before none tail = .error ⟨i, none⟩ ∧
      lossyFrom before none tail = (replacement :: before).reverse := by
  obtain ⟨c, rest, more, whole⟩ := begins
  have right : decodeFrom 0 [] none (tail ++ rest) = .ok [c] := by
    have encoded := decodeFromEncoded [c] 0 []
    rwa [List.flatMap_singleton, ← whole] at encoded
  exact cutOff right rfl more (.inr nonempty) i before

theorem encodeOfList (cs : List Char) :
    encode (String.ofList cs) = cs.flatMap String.utf8EncodeChar := by
  rw [encode, String.toList_ofList]

theorem encodeAppend (s t : String) : encode (s ++ t) = encode s ++ encode t := by
  simp [encode]

theorem decodeCut (whole : List Char) {tail : List UInt8} (begins : Begins tail) :
    decode (encode (String.ofList whole) ++ tail) = if tail = [] then .ok (String.ofList whole)
      else .error ⟨(encode (String.ofList whole)).length, none⟩ := by
  rw [decode, encodeOfList, decodeFromText]
  split
  next empty =>
    subst empty
    simp [decodeFrom, Except.map]
  next nonempty =>
    rw [(beginsCutOff begins nonempty _ _).1]
    simp [Except.map]

theorem lossyCut (whole : List Char) {tail : List UInt8} (begins : Begins tail) :
    decodeLossy (encode (String.ofList whole) ++ tail) =
      String.ofList (whole ++ if tail = [] then [] else [replacement]) := by
  have right := decodeFromEncoded whole 0 []
  rw [decodeLossy, encodeOfList, lossyAfter right]
  split
  next empty =>
    subst empty
    simp [lossyFrom]
  next nonempty =>
    rw [(beginsCutOff begins nonempty 0 _).2]
    simp

end RemoteEval.Text.Utf8
