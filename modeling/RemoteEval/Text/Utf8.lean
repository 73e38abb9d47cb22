/-!
UTF-8, one byte at a time. A byte either completes a character, leaves one pending, or cannot
stand where it does. Strict decoding stops there with the index at which the broken character
began; lossy decoding puts U+FFFD in its place and goes on with the byte that broke it.

Text that ends inside a character is told apart from text that no continuation could mend.
-/
namespace RemoteEval.Text.Utf8

/-- A character begun and not complete: how many bytes it still needs, the range the next of them
must lie in, the bits so far and the number of bytes they came from. -/
structure Pending where
  owed : Nat
  low : UInt8
  high : UInt8
  bits : Nat
  taken : Nat
  deriving DecidableEq, Repr

inductive Step where
  | char (c : Char)
  | more (pending : Pending)
  | bad
  deriving DecidableEq, Repr

def start (b : UInt8) : Step :=
  if b ≤ 0x7f then .char (Char.ofNat b.toNat)
  else if b < 0xc2 then .bad
  else if b ≤ 0xdf then .more ⟨1, 0x80, 0xbf, b.toNat - 0xc0, 1⟩
  else if b ≤ 0xef then
    .more ⟨2, if b = 0xe0 then 0xa0 else 0x80, if b = 0xed then 0x9f else 0xbf, b.toNat - 0xe0, 1⟩
  else if b ≤ 0xf4 then
    .more ⟨3, if b = 0xf0 then 0x90 else 0x80, if b = 0xf4 then 0x8f else 0xbf, b.toNat - 0xf0, 1⟩
  else .bad

def Pending.step (p : Pending) (b : UInt8) : Step :=
  if p.low ≤ b ∧ b ≤ p.high then
    let bits := p.bits * 64 + b.toNat % 64
    if p.owed ≤ 1 then .char (Char.ofNat bits)
    else .more ⟨p.owed - 1, 0x80, 0xbf, bits, p.taken + 1⟩
  else .bad

/-- Where decoding failed: the index of the first byte of the character that is broken, and how
many bytes of it are wrong, or none if the text ends inside a character it might complete. -/
structure Fault where
  index : Nat
  width : Option Nat
  deriving DecidableEq, Repr

def Fault.message (f : Fault) : String :=
  match f.width with
  | some width => s!"invalid utf-8 sequence of {width} bytes from index {f.index}"
  | none => s!"incomplete utf-8 byte sequence from index {f.index}"

def decodeFrom (index : Nat) (seen : List Char) : Option Pending → List UInt8 → Except Fault (List Char)
  | none, [] => .ok seen.reverse
  | some _, [] => .error ⟨index, none⟩
  | none, b :: rest =>
    match start b with
    | .char c => decodeFrom (index + 1) (c :: seen) none rest
    | .more p => decodeFrom index seen (some p) rest
    | .bad => .error ⟨index, some 1⟩
  | some p, b :: rest =>
    match p.step b with
    | .char c => decodeFrom (index + p.taken + 1) (c :: seen) none rest
    | .more q => decodeFrom index seen (some q) rest
    | .bad => .error ⟨index, some p.taken⟩

def decode (bytes : List UInt8) : Except Fault String :=
  (decodeFrom 0 [] none bytes).map String.ofList

def encode (s : String) : List UInt8 := s.toList.flatMap String.utf8EncodeChar

def replacement : Char := '\ufffd'

def lossyFrom (seen : List Char) : Option Pending → List UInt8 → List Char
  | none, [] => seen.reverse
  | some _, [] => (replacement :: seen).reverse
  | none, b :: rest =>
    match start b with
    | .char c => lossyFrom (c :: seen) none rest
    | .more p => lossyFrom seen (some p) rest
    | .bad => lossyFrom (replacement :: seen) none rest
  | some p, b :: rest =>
    match p.step b with
    | .char c => lossyFrom (c :: seen) none rest
    | .more q => lossyFrom seen (some q) rest
    | .bad =>
      match start b with
      | .char c => lossyFrom (c :: replacement :: seen) none rest
      | .more q => lossyFrom (replacement :: seen) (some q) rest
      | .bad => lossyFrom (replacement :: replacement :: seen) none rest

def decodeLossy (bytes : List UInt8) : String := String.ofList (lossyFrom [] none bytes)

end RemoteEval.Text.Utf8
