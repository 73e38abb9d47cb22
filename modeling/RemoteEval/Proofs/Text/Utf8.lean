import RemoteEval.Text.Utf8

/-! Text in UTF-8 decodes to itself. The decoder takes the bytes of one character, whatever comes
after them, and is then where it was before, one character further. The four lengths of a
character are told apart by its number alone, and the narrower ranges of some second bytes are
those in which a character of that length lies. What the decoder does with other bytes is not
said here. -/
namespace RemoteEval.Text.Utf8

theorem ofNatToNat {k : Nat} (small : k < 256) : (UInt8.ofNat k).toNat = k := by
  simp [Nat.mod_eq_of_lt small]

theorem startOne {b : UInt8} (high : b.toNat ≤ 0x7f) : start b = .char (Char.ofNat b.toNat) :=
  if_pos (UInt8.le_iff_toNat_le.mpr high)

theorem startTwo {b : UInt8} (low : 0xc2 ≤ b.toNat) (high : b.toNat ≤ 0xdf) :
    start b = .more ⟨1, 0x80, 0xbf, b.toNat - 0xc0, 1⟩ := by
  simp only [start, UInt8.le_iff_toNat_le, UInt8.lt_iff_toNat_lt]
  rw [if_neg (by simp; omega), if_neg (by simp; omega), if_pos (by simpa using high)]

theorem startThree {b : UInt8} (low : 0xe0 ≤ b.toNat) (high : b.toNat ≤ 0xef) :
    start b = .more ⟨2, if b = 0xe0 then 0xa0 else 0x80, if b = 0xed then 0x9f else 0xbf,
      b.toNat - 0xe0, 1⟩ := by
  simp only [start, UInt8.le_iff_toNat_le, UInt8.lt_iff_toNat_lt]
  rw [if_neg (by simp; omega), if_neg (by simp; omega), if_neg (by simp; omega),
    if_pos (by simpa using high)]

theorem startFour {b : UInt8} (low : 0xf0 ≤ b.toNat) (high : b.toNat ≤ 0xf4) :
    start b = .more ⟨3, if b = 0xf0 then 0x90 else 0x80, if b = 0xf4 then 0x8f else 0xbf,
      b.toNat - 0xf0, 1⟩ := by
  simp only [start, UInt8.le_iff_toNat_le, UInt8.lt_iff_toNat_lt]
  rw [if_neg (by simp; omega), if_neg (by simp; omega), if_neg (by simp; omega),
    if_neg (by simp; omega), if_pos (by simpa using high)]

theorem stepLast {low high : UInt8} {bits taken k : Nat} (six : k < 64)
    (above : low.toNat ≤ k + 0x80) (below : k + 0x80 ≤ high.toNat) :
    Pending.step ⟨1, low, high, bits, taken⟩ (UInt8.ofNat (k + 0x80)) =
      .char (Char.ofNat (bits * 64 + k)) := by
  have byte := ofNatToNat (show k + 0x80 < 256 by omega)
  have last : (k + 0x80) % 64 = k := by omega
  simp only [Pending.step, UInt8.le_iff_toNat_le, byte, last]
  rw [if_pos ⟨above, below⟩, if_pos (Nat.le_refl 1)]

theorem stepMore (owed : Nat) {low high : UInt8} {bits taken k : Nat} (six : k < 64)
    (above : low.toNat ≤ k + 0x80) (below : k + 0x80 ≤ high.toNat) :
    Pending.step ⟨owed + 2, low, high, bits, taken⟩ (UInt8.ofNat (k + 0x80)) =
      .more ⟨owed + 1, 0x80, 0xbf, bits * 64 + k, taken + 1⟩ := by
  have byte := ofNatToNat (show k + 0x80 < 256 by omega)
  have last : (k + 0x80) % 64 = k := by omega
  simp only [Pending.step, UInt8.le_iff_toNat_le, byte, last]
  rw [if_pos ⟨above, below⟩, if_neg (by omega)]
  rfl

theorem anyAbove (k : Nat) : (0x80 : UInt8).toNat ≤ k + 0x80 := by simp

theorem anyBelow {k : Nat} (six : k < 64) : k + 0x80 ≤ (0xbf : UInt8).toNat := by simp; omega

section
variable {v index : Nat} {seen : List Char} {rest : List UInt8}

theorem decodeOne (high : v ≤ 0x7f) :
    decodeFrom index seen none (UInt8.ofNat v :: rest) =
      decodeFrom (index + 1) (Char.ofNat v :: seen) none rest := by
  have byte := ofNatToNat (show v < 256 by omega)
  simp only [decodeFrom, startOne (byte.symm ▸ high), byte]

theorem decodeTwo (low : 0x7f < v) (high : v ≤ 0x7ff) :
    decodeFrom index seen none
        (UInt8.ofNat (v / 64 % 32 + 0xc0) :: UInt8.ofNat (v % 64 + 0x80) :: rest) =
      decodeFrom (index + 2) (Char.ofNat v :: seen) none rest := by
  have byte := ofNatToNat (show v / 64 % 32 + 0xc0 < 256 by omega)
  have six : v % 64 < 64 := by omega
  generalize UInt8.ofNat (v / 64 % 32 + 0xc0) = b at byte ⊢
  have whole : (b.toNat - 0xc0) * 64 + v % 64 = v := by omega
  simp only [decodeFrom, startTwo (b := b) (by omega) (by omega),
    stepLast six (anyAbove _) (anyBelow six), whole]

theorem decodeThree (low : 0x7ff < v) (high : v ≤ 0xffff) (scalar : v < 0xd800 ∨ 0xdfff < v) :
    decodeFrom index seen none (UInt8.ofNat (v / 4096 % 16 + 0xe0) ::
        UInt8.ofNat (v / 64 % 64 + 0x80) :: UInt8.ofNat (v % 64 + 0x80) :: rest) =
      decodeFrom (index + 3) (Char.ofNat v :: seen) none rest := by
  have byte := ofNatToNat (show v / 4096 % 16 + 0xe0 < 256 by omega)
  have six : v % 64 < 64 := by omega
  generalize UInt8.ofNat (v / 4096 % 16 + 0xe0) = b at byte ⊢
  -- an encoding of three bytes is neither too long for its number nor that of a surrogate
  have above : (if b = 0xe0 then 0xa0 else 0x80 : UInt8).toNat ≤ v / 64 % 64 + 0x80 := by
    split
    next same =>
      have : b.toNat = 0xe0 := by rw [same]; rfl
      simp
      omega
    · exact anyAbove _
  have below : v / 64 % 64 + 0x80 ≤ (if b = 0xed then 0x9f else 0xbf : UInt8).toNat := by
    split
    next same =>
      have : b.toNat = 0xed := by rw [same]; rfl
      simp
      omega
    · exact anyBelow (by omega)
  have whole : ((b.toNat - 0xe0) * 64 + v / 64 % 64) * 64 + v % 64 = v := by omega
  simp only [decodeFrom, startThree (b := b) (by omega) (by omega),
    stepMore 0 (show v / 64 % 64 < 64 by omega) above below,
    stepLast six (anyAbove _) (anyBelow six), whole]

theorem decodeFour (low : 0xffff < v) (high : v < 0x110000) :
    decodeFrom index seen none (UInt8.ofNat (v / 262144 % 8 + 0xf0) ::
        UInt8.ofNat (v / 4096 % 64 + 0x80) :: UInt8.ofNat (v / 64 % 64 + 0x80) ::
        UInt8.ofNat (v % 64 + 0x80) :: rest) =
      decodeFrom (index + 4) (Char.ofNat v :: seen) none rest := by
  have byte := ofNatToNat (show v / 262144 % 8 + 0xf0 < 256 by omega)
  have six : v % 64 < 64 := by omega
  have six' : v / 64 % 64 < 64 := by omega
  generalize UInt8.ofNat (v / 262144 % 8 + 0xf0) = b at byte ⊢
  have above : (if b = 0xf0 then 0x90 else 0x80 : UInt8).toNat ≤ v / 4096 % 64 + 0x80 := by
    split
    next same =>
      have : b.toNat = 0xf0 := by rw [same]; rfl
      simp
      omega
    · exact anyAbove _
  have below : v / 4096 % 64 + 0x80 ≤ (if b = 0xf4 then 0x8f else 0xbf : UInt8).toNat := by
    split
    next same =>
      have : b.toNat = 0xf4 := by rw [same]; rfl
      simp
      omega
    · exact anyBelow (by omega)
  have whole : (((b.toNat - 0xf0) * 64 + v / 4096 % 64) * 64 + v / 64 % 64) * 64 + v % 64 = v := by
    omega
  simp only [decodeFrom, startFour (b := b) (by omega) (by omega),
    stepMore 1 (show v / 4096 % 64 < 64 by omega) above below,
    stepMore 0 six' (anyAbove _) (anyBelow six'),
    stepLast six (anyAbove _) (anyBelow six), whole]
end

theorem decodeFromChar (c : Char) (index : Nat) (seen : List Char) (rest : List UInt8) :
    decodeFrom index seen none (String.utf8EncodeChar c ++ rest) =
      decodeFrom (index + (String.utf8EncodeChar c).length) (c :: seen) none rest := by
  have scalar : c.val.toNat < 0xd800 ∨ 0xdfff < c.val.toNat ∧ c.val.toNat < 0x110000 := c.valid
  have value : Char.ofNat c.val.toNat = c := Char.ofNat_toNat c
  generalize number : c.val.toNat = v at scalar value
  simp only [String.utf8EncodeChar, number]
  split
  next one => simpa [value] using decodeOne (v := v) one
  split
  next two => simpa [value] using decodeTwo (v := v) (by omega) two
  split
  next three => simpa [value] using decodeThree (v := v) (by omega) three (by omega)
  next => simpa [value] using decodeFour (v := v) (by omega) (by omega)

theorem decodeFromText (cs : List Char) (index : Nat) (seen : List Char) (rest : List UInt8) :
    decodeFrom index seen none (cs.flatMap String.utf8EncodeChar ++ rest) =
      decodeFrom (index + (cs.flatMap String.utf8EncodeChar).length) (cs.reverse ++ seen) none
        rest := by
  induction cs generalizing index seen with
  | nil => rfl
  | cons c cs ih =>
    rw [List.flatMap_cons, List.append_assoc, decodeFromChar, ih]
    simp [Nat.add_assoc]

theorem decodeFromEncoded (cs : List Char) (index : Nat) (seen : List Char) :
    decodeFrom index seen none (cs.flatMap String.utf8EncodeChar) = .ok (seen.reverse ++ cs) := by
  simpa [decodeFrom] using decodeFromText cs index seen []

theorem decodeEncode (s : String) : decode (encode s) = .ok s := by
  simp [decode, encode, decodeFromEncoded, Except.map]

theorem encodeLength (s : String) : (encode s).length = s.utf8ByteSize := by
  have bytes : s.toByteArray = s.toList.utf8Encode := by
    rw [← String.toByteArray_ofList, String.ofList_toList]
  rw [String.utf8ByteSize, bytes, List.utf8Encode, List.size_toByteArray, encode]

theorem flatMapLength {α β : Type} {f : α → List β} {low high : Nat}
    (each : ∀ a, low ≤ (f a).length ∧ (f a).length ≤ high) (xs : List α) :
    low * xs.length ≤ (xs.flatMap f).length ∧ (xs.flatMap f).length ≤ high * xs.length := by
  induction xs with
  | nil => simp
  | cons x xs ih =>
    have first := each x
    rw [List.flatMap_cons, List.length_append, List.length_cons, Nat.mul_succ, Nat.mul_succ]
    omega

theorem sizeBounds (s : String) : s.length ≤ s.utf8ByteSize ∧ s.utf8ByteSize ≤ 4 * s.length := by
  have each (c : Char) :
      1 ≤ (String.utf8EncodeChar c).length ∧ (String.utf8EncodeChar c).length ≤ 4 := by
    rw [String.length_utf8EncodeChar]
    exact ⟨c.utf8Size_pos, c.utf8Size_le_four⟩
  have bounds := flatMapLength each s.toList
  rwa [Nat.one_mul, String.length_toList, ← encode, encodeLength] at bounds

end RemoteEval.Text.Utf8
