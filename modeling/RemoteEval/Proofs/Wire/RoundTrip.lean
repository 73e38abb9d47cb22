import RemoteEval.Wire.Frame
import RemoteEval.Proofs.Text.Utf8
import RemoteEval.Proofs.Sexp.RoundTrip
import RemoteEval.Proofs.Message.RoundTrip
import RemoteEval.Proofs.Exchange.Readable

/-! Messages through a frame. The header spells the size of the payload, and the payload decodes
to the text that was put into it; so a frame gives back its message exactly when the printed
form of the message reads as the message. That is so of the transmissible messages and of no
other, and every message that was ever decoded is one of them. -/
namespace RemoteEval

namespace Frame

theorem headerSpells (f : Frame) : payloadSize f.header = f.payload.utf8ByteSize := by
  have fits := f.fits
  have byte {n : Nat} (small : n < 256) : n.toUInt8.toNat = n := Text.Utf8.ofNatToNat small
  simp only [payloadSize, header, List.foldl_cons, List.foldl_nil]
  rw [byte (by omega), byte (by omega), byte (by omega)]
  omega

theorem decodeBytes (f : Frame) : decode f.bytes = decodePayload (Text.Utf8.encode f.payload) := by
  have spelled := headerSpells f
  have size := Text.Utf8.encodeLength f.payload
  have taken : f.bytes.take headerSize = f.header := rfl
  have left : f.bytes.drop headerSize = Text.Utf8.encode f.payload := rfl
  have long : ¬ f.bytes.length < headerSize := by simp [bytes, header, headerSize]
  simp only [decode, if_neg long, taken, left, spelled, size, Nat.lt_irrefl, if_false]

theorem firstFrame (f : Frame) (rest : List UInt8) :
    first? (f.bytes ++ rest) = some (Text.Utf8.encode f.payload, rest) := by
  have spelled := headerSpells f
  rw [← Text.Utf8.encodeLength f.payload] at spelled
  have taken : (f.bytes ++ rest).take headerSize = f.header := rfl
  have left : (f.bytes ++ rest).drop headerSize = Text.Utf8.encode f.payload ++ rest := rfl
  have long : ¬ f.header.length < headerSize := by simp [header, headerSize]
  simp [first?, taken, left, long, spelled]

theorem decodePayloadOk {payload : List UInt8} {m : Message} : decodePayload payload = .ok m ↔
    ∃ text v, Text.Utf8.decode payload = .ok text ∧ Sexp.read text = .ok v ∧
      Message.ofSexp v = .ok m := by
  unfold decodePayload
  split
  next fault => simp [fault]
  next text decoded =>
    split
    next refused => simp [decoded, refused]
    next v read =>
      split
      next e refused => simp [decoded, read, refused]
      next got accepted => simp [decoded, read, accepted]

theorem decodeOk {bytes : List UInt8} {m : Message} (ok : decode bytes = .ok m) :
    decodePayload (bytes.drop headerSize) = .ok m := by
  unfold decode at ok
  split at ok
  · contradiction
  · dsimp only at ok
    split at ok
    · contradiction
    · split at ok
      · contradiction
      · exact ok

theorem decodedTransmissible {payload : List UInt8} {m : Message}
    (ok : decodePayload payload = .ok m) : m.transmissible = true := by
  obtain ⟨text, v, _, read, said⟩ := decodePayloadOk.mp ok
  have fits := Sexp.readFits read
  obtain ⟨rfl, numbers⟩ := Message.ofSexpFilled (Sexp.properFilled _ fits.1) said
  exact (Message.transmissibleIff m).mpr ⟨numbers, fits⟩

theorem payloadOfMessage {m : Message} {f : Frame} (made : ofMessage m = .ok f) :
    f.payload = m.print := by
  simp only [ofMessage, ofText] at made
  split at made
  · cases made; rfl
  · contradiction

theorem decodeOfMessage {m : Message} {f : Frame} (made : ofMessage m = .ok f) :
    decode f.bytes = .ok m ↔ m.transmissible = true := by
  rw [decodeBytes, payloadOfMessage made]
  refine ⟨decodedTransmissible, fun transmissible => ?_⟩
  obtain ⟨numbers, proper, shallow⟩ := (Message.transmissibleIff m).mp transmissible
  exact decodePayloadOk.mpr ⟨m.print, m.toSexp, Text.Utf8.decodeEncode m.print,
    Sexp.readPrinted proper shallow, Message.ofSexpToSexp numbers⟩

theorem ofMessageOk {m : Message} (fits : m.print.utf8ByteSize ≤ maxPayload) :
    ∃ f, ofMessage m = .ok f :=
  ⟨_, dif_pos fits⟩

end Frame

namespace Sexp

theorem escapedLength (delimiter : Char) (cs : List Char) :
    cs.length ≤ (escaped delimiter cs).length ∧ (escaped delimiter cs).length ≤ 2 * cs.length := by
  have each (c : Char) :
      1 ≤ (if c == delimiter || c == '\\' then ['\\', c] else [c]).length ∧
        (if c == delimiter || c == '\\' then ['\\', c] else [c]).length ≤ 2 := by
    split <;> simp
  have bounds := Text.Utf8.flatMapLength each cs
  rwa [Nat.one_mul] at bounds

theorem quotedLength (s : String) :
    (printed (.str s)).length = (escaped '"' s.toList).length + 2 := by
  simp [printed, delimited, Delimited.delimiter]

theorem printSize (v : Sexp) :
    v.printed.length ≤ v.print.utf8ByteSize ∧ v.print.utf8ByteSize ≤ 4 * v.printed.length := by
  rw [← v.printToList, String.length_toList]
  exact Text.Utf8.sizeBounds v.print

def spacedLength : List Sexp → Nat
  | [] => 0
  | v :: rest => v.printed.length + 1 + spacedLength rest

theorem spacedReplicate (k : Nat) (v : Sexp) :
    spacedLength (List.replicate k v) = k * (v.printed.length + 1) := by
  induction k with
  | zero => simp [spacedLength]
  | succ k ih =>
    rw [List.replicate_succ, spacedLength, ih, Nat.succ_mul, Nat.add_comm]

theorem printedWithin {v : Sexp} {items : List Sexp} (member : v ∈ items) :
    v.printed.length ≤ spacedLength items := by
  induction items with
  | nil => cases member
  | cons w rest ih =>
    rw [spacedLength]
    rcases List.mem_cons.mp member with rfl | later
    · omega
    · exact Nat.le_trans (ih later) (Nat.le_add_left ..)

theorem printedLength {items : List Sexp} (some : items ≠ []) :
    (printed (.list items)).length = spacedLength items + 1 := by
  have spaced : ∀ {vs : List Sexp}, vs ≠ [] → (printedItems vs).length + 1 = spacedLength vs := by
    intro vs some
    induction vs with
    | nil => contradiction
    | cons v rest ih =>
      cases rest with
      | nil => simp [printedItems, spacedLength]
      | cons w rest =>
        have later := ih (List.cons_ne_nil w rest)
        rw [printedItems, spacedLength, ← later, List.length_append, List.length_cons]
        omega
  rw [← spaced some]
  simp [printed]

end Sexp

namespace Message

/- Encoding fails only for size. What it gives decodes to the message exactly when the message is
transmissible, and that is so of every message that decoding has ever given. -/
theorem decodeEncodeIff (m : Message) :
    (m.print.utf8ByteSize ≤ 16777215 → ∃ bytes, m.encode = .ok bytes ∧
      (Frame.decode bytes = .ok m ↔ m.transmissible = true)) ∧
    (16777215 < m.print.utf8ByteSize → m.encode = .error (.tooLarge m.print.utf8ByteSize)) ∧
    (∀ frame bytes, Frame.decode frame = .ok m → m.encode = .ok bytes →
      Frame.decode bytes = .ok m) := by
  refine ⟨fun fits => ?_, fun long => ?_, fun frame bytes decoded encoded => ?_⟩
  · obtain ⟨f, made⟩ := Frame.ofMessageOk fits
    exact ⟨f.bytes, by rw [encode, made]; rfl, Frame.decodeOfMessage made⟩
  · rw [encode, Frame.ofMessage, Frame.ofText, dif_neg (Nat.not_le.mpr long)]
    rfl
  · cases made : Frame.ofMessage m with
    | error e => simp [encode, made, Except.map] at encoded
    | ok f =>
      have same : f.bytes = bytes := by simpa [encode, made, Except.map] using encoded
      rw [← same, Frame.decodeOfMessage made]
      exact Frame.decodedTransmissible (Frame.decodeOk decoded)

theorem encodedFirst {m : Message} {frame : List UInt8} (encoded : m.encode = .ok frame)
    (decoded : Frame.decode frame = .ok m) (rest : List UInt8) :
    ∃ payload, Frame.first? (frame ++ rest) = some (payload, rest) ∧
      Frame.decodePayload payload = .ok m := by
  cases made : Frame.ofMessage m with
  | error e => simp [encode, made, Except.map] at encoded
  | ok f =>
    obtain rfl : f.bytes = frame := by simpa [encode, made, Except.map] using encoded
    rw [Frame.decodeBytes] at decoded
    exact ⟨_, Frame.firstFrame f rest, decoded⟩

theorem readableIff (m : Message) :
    m.readable = true ↔ m.print.utf8ByteSize ≤ 16777215 ∧ m.transmissible = true := by
  unfold readable
  by_cases fits : m.print.utf8ByteSize ≤ 16777215
  · obtain ⟨f, made⟩ := Frame.ofMessageOk fits
    rw [← Frame.decodeOfMessage made, encode, made]
    simp only [Except.map, fits, true_and]
    cases Frame.decode f.bytes <;> simp
  · simp [encode, Frame.ofMessage, Frame.ofText, fits, Except.map]

/- Quoting makes no text shorter, so a text as long as a payload may be fits in no message. -/
theorem textLong {m : Message} {text : String} (said : .str text ∈ m.arguments) :
    text.length ≤ m.print.utf8ByteSize := by
  have quoted := (Sexp.escapedLength '"' text.toList).1
  have within := Sexp.printedWithin (List.mem_cons_of_mem (.keyword m.head) said)
  have whole := Sexp.printedLength (List.cons_ne_nil (.keyword m.head) m.arguments)
  have bytes := (Sexp.printSize m.toSexp).1
  rw [toSexp] at bytes
  simp only [Sexp.printed, Sexp.delimited, Sexp.Delimited.delimiter, List.length_cons,
    List.length_append, String.length_toList] at quoted within whole bytes
  exact Nat.le_trans (by omega) bytes

theorem outputLong (text : String) : text.length ≤ (output text).print.utf8ByteSize :=
  textLong List.mem_cons_self

theorem quotedComesBack :
    let m := returned 1 (.ok (.list [.keyword "a", .symbol "NIL", .str "\"\\", .int (-5)])) 7
    let long := output (String.ofList (List.replicate 16777216 'a'))
    (m.print.utf8ByteSize ≤ 16777215 ∧ m.transmissible = true ∧
      ∃ bytes, m.encode = .ok bytes ∧ Frame.decode bytes = .ok m) ∧
    16777215 < long.print.utf8ByteSize ∧
      long.encode = .error (.tooLarge long.print.utf8ByteSize) := by
  intro m long
  have fits : m.print.utf8ByteSize ≤ 16777215 := by decide +kernel
  have able : m.transmissible = true := by decide +kernel
  have large : 16777215 < long.print.utf8ByteSize := by
    have := outputLong (String.ofList (List.replicate 16777216 'a'))
    rw [String.length_ofList, List.length_replicate] at this
    exact this
  obtain ⟨bytes, encoded, back⟩ := (decodeEncodeIff m).1 fits
  have again := (decodeEncodeIff m).2.2 bytes bytes (back.mpr able) encoded
  exact ⟨⟨fits, able, bytes, encoded, again⟩, large, (decodeEncodeIff long).2.1 large⟩

end Message
end RemoteEval
