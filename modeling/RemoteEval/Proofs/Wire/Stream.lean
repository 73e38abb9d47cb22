import RemoteEval.Wire.Source
import RemoteEval.Proofs.Wire.RoundTrip

/-! Streams of frames. A stream delivers its bytes in pieces of any size and is interrupted
between them (`Delivers`); `split` takes the bytes apart without any reading. What is read from
the stream is what the bytes split into, so neither the cuts nor the interruptions show. The rest
says how bytes split that are frames, whole or with the last one cut off. Faults other than
interruptions are not looked at here. -/
namespace RemoteEval

namespace Frame

def number (a b c : UInt8) : Nat := 65536 * a.toNat + 256 * b.toNat + c.toNat

inductive Complete : List UInt8 → Prop where
  | mk {a b c payload} (size : payload.length = number a b c) :
      Complete (a :: b :: c :: payload)

theorem payloadSizeEq (a b c : UInt8) : payloadSize [a, b, c] = number a b c := by
  simp only [payloadSize, number, List.foldl_cons, List.foldl_nil]
  omega

theorem decodeComplete {a b c : UInt8} {payload : List UInt8}
    (size : payload.length = number a b c) :
    decode (a :: b :: c :: payload) = decodePayload payload := by
  have header : (a :: b :: c :: payload).take headerSize = [a, b, c] := rfl
  have left : (a :: b :: c :: payload).drop headerSize = payload := rfl
  have long : ¬ (a :: b :: c :: payload).length < headerSize := by simp [headerSize]
  simp only [decode, header, left, payloadSizeEq, ← size, long, Nat.lt_irrefl, if_false]

theorem decodedComplete {frame : List UInt8} {m : Message} (ok : decode frame = .ok m) :
    Complete frame := by
  match frame, ok with
  | [], ok | [_], ok | [_, _], ok => simp [decode, headerSize] at ok
  | a :: b :: c :: payload, ok =>
    have header : (a :: b :: c :: payload).take headerSize = [a, b, c] := rfl
    have left : (a :: b :: c :: payload).drop headerSize = payload := rfl
    simp only [decode, header, left, payloadSizeEq] at ok
    split at ok
    · contradiction
    split at ok
    · contradiction
    split at ok
    · contradiction
    · exact .mk (by omega)

end Frame

namespace Source
open RemoteEval.Frame (number Complete decodePayload)

inductive Delivers : List UInt8 → Source → Prop where
  | done : Delivers [] []
  | piece {bytes rest source} (nonempty : bytes ≠ []) (later : Delivers rest source) :
      Delivers (bytes ++ rest) (.piece bytes :: source)
  | interrupted {bytes source} (later : Delivers bytes source) :
      Delivers bytes (.fault .interrupted :: source)

/- The messages of the frames one after another, and how it ends with them. -/
def split : List UInt8 → List Message × Except WireError Unit
  | [] => ([], .ok ())
  | [_] => ([], .error (.truncatedHeader 1))
  | [_, _] => ([], .error (.truncatedHeader 2))
  | a :: b :: c :: rest =>
    if rest.length < number a b c then ([], .error (.truncatedPayload (number a b c) rest.length))
    else match decodePayload (rest.take (number a b c)) with
      | .error e => ([], .error e)
      | .ok m =>
        let (more, ending) := split (rest.drop (number a b c))
        (m :: more, ending)
termination_by bytes => bytes.length
decreasing_by
  simp only [List.length_drop, List.length_cons]
  omega

theorem readFullDelivers {bytes : List UInt8} {source : Source} (delivers : Delivers bytes source)
    (need : Nat) : ∃ rest, readFull need source = (.ok (bytes.take need), rest) ∧
      Delivers (bytes.drop need) rest := by
  induction delivers generalizing need with
  | done => cases need <;> exact ⟨[], rfl, .done⟩
  | @piece bytes rest source nonempty later ih =>
    cases need with
    | zero => exact ⟨_, rfl, .piece nonempty later⟩
    | succ need =>
      by_cases small : bytes.drop (need + 1) = []
      · have short : bytes.length ≤ need + 1 := by simpa using small
        obtain ⟨left, read, delivers⟩ := ih (need + 1 - bytes.length)
        refine ⟨left, ?_, ?_⟩
        · simp [readFull, small, read, List.take_append, List.take_of_length_le short]
        · simpa [List.drop_append, small] using delivers
      · have long : need + 1 ≤ bytes.length := by
          rw [List.drop_eq_nil_iff] at small
          omega
        refine ⟨.piece (bytes.drop (need + 1)) :: source, ?_, ?_⟩
        · simp [readFull, small, List.take_append_of_le_length long]
        · rw [List.drop_append_of_le_length long]
          exact .piece small later
  | @interrupted bytes source later ih =>
    cases need with
    | zero => exact ⟨_, rfl, .interrupted later⟩
    | succ need =>
      obtain ⟨left, read, delivers⟩ := ih (need + 1)
      exact ⟨left, by simpa [readFull] using read, delivers⟩

theorem readMessageShort {bytes : List UInt8} {source : Source} (delivers : Delivers bytes source)
    (short : bytes.length < 3) : (readMessage source).1 =
      if bytes = [] then .ok none else .error (.truncatedHeader bytes.length) := by
  obtain ⟨rest, header, _⟩ := readFullDelivers delivers Frame.headerSize
  have all : bytes.take Frame.headerSize = bytes := List.take_of_length_le (by
    simp only [Frame.headerSize]
    omega)
  rw [all] at header
  simp only [readMessage, header, List.length_eq_zero_iff]
  split
  · rfl
  · simp [Frame.headerSize, short]

theorem readMessageLong {a b c : UInt8} {bytes : List UInt8} {source : Source}
    (delivers : Delivers (a :: b :: c :: bytes) source) :
    ∃ rest, Delivers (bytes.drop (number a b c)) rest ∧ readMessage source =
      (if bytes.length < number a b c then
          .error (.truncatedPayload (number a b c) bytes.length)
        else (decodePayload (bytes.take (number a b c))).map some, rest) := by
  obtain ⟨left, header, later⟩ := readFullDelivers delivers Frame.headerSize
  obtain ⟨rest, payload, last⟩ := readFullDelivers later (number a b c)
  have taken : (a :: b :: c :: bytes).take Frame.headerSize = [a, b, c] := rfl
  have dropped : (a :: b :: c :: bytes).drop Frame.headerSize = bytes := rfl
  rw [taken] at header
  rw [dropped] at payload last
  refine ⟨rest, last, ?_⟩
  simp only [readMessage, header, Frame.payloadSizeEq, payload, List.length_take]
  by_cases short : bytes.length < number a b c
  · have least : min (number a b c) bytes.length = bytes.length := by omega
    simp [Frame.headerSize, short, least]
  · have least : min (number a b c) bytes.length = number a b c := by omega
    simp only [Frame.headerSize, short, least]
    cases decodePayload (bytes.take (number a b c)) <;> simp [Except.map]

def results (source : Source) : List Message × Except WireError Unit :=
  ((readAll source).1, (readAll source).2.1)

theorem resultsNext {source rest : Source} {m : Message}
    (read : readMessage source = (.ok (some m), rest)) :
    results source = (m :: (results rest).1, (results rest).2) := by
  simp only [results]
  rw [readAll]
  split
  next got later first =>
    rw [read] at first
    cases first
    rfl
  next later first => simp [read] at first
  next e later first => simp [read] at first

theorem resultsEnd {source : Source} (read : (readMessage source).1 = .ok none) :
    results source = ([], .ok ()) := by
  simp only [results]
  rw [readAll]
  split
  next got later first => simp [first] at read
  next later first => rfl
  next e later first => simp [first] at read

theorem resultsError {source : Source} {e : WireError} (read : (readMessage source).1 = .error e) :
    results source = ([], .error e) := by
  simp only [results]
  rw [readAll]
  split
  next got later first => simp [first] at read
  next later first => simp [first] at read
  next f later first =>
    have same : f = e := by simpa [first] using read
    rw [same]

theorem resultsSplit (bytes : List UInt8) :
    ∀ {source}, Delivers bytes source → results source = split bytes := by
  fun_induction split bytes with
  | case1 => exact fun delivers => resultsEnd (readMessageShort delivers (by decide))
  | case2 => exact fun delivers => resultsError (readMessageShort delivers (by simp))
  | case3 => exact fun delivers => resultsError (readMessageShort delivers (by simp))
  | case4 a b c bytes short =>
    intro source delivers
    obtain ⟨rest, _, read⟩ := readMessageLong delivers
    exact resultsError (by rw [read, if_pos short])
  | case5 a b c bytes long e refused =>
    intro source delivers
    obtain ⟨rest, _, read⟩ := readMessageLong delivers
    exact resultsError (by rw [read, if_neg long, refused]; rfl)
  | case6 a b c bytes long m decoded more ending later ih =>
    intro source delivers
    obtain ⟨rest, delivered, read⟩ := readMessageLong delivers
    rw [if_neg long, decoded] at read
    rw [resultsNext read, ih delivered, later]

theorem splitComplete {a b c : UInt8} {payload : List UInt8}
    (size : payload.length = number a b c) {m : Message}
    (decoded : decodePayload payload = .ok m) (rest : List UInt8) :
    split (a :: b :: c :: payload ++ rest) = (m :: (split rest).1, (split rest).2) := by
  simp only [List.cons_append]
  rw [split]
  simp [← size, decoded]

theorem splitFrame {frame : List UInt8} {m : Message} (ok : Frame.decode frame = .ok m)
    (rest : List UInt8) : split (frame ++ rest) = (m :: (split rest).1, (split rest).2) := by
  obtain ⟨size⟩ := Frame.decodedComplete ok
  rw [Frame.decodeComplete size] at ok
  exact splitComplete size ok rest

theorem splitFrames {sent : List (Message × List UInt8)}
    (ok : ∀ p ∈ sent, Frame.decode p.2 = .ok p.1) (rest : List UInt8) :
    split (sent.flatMap Prod.snd ++ rest) =
      (sent.map Prod.fst ++ (split rest).1, (split rest).2) := by
  induction sent with
  | nil => simp
  | cons p sent ih =>
    have later := ih fun q mem => ok q (List.mem_cons_of_mem _ mem)
    rw [List.flatMap_cons, List.append_assoc, splitFrame (ok p List.mem_cons_self), later]
    rfl

theorem splitCut {frame : List UInt8} (complete : Complete frame) {cut : Nat} (some : 0 < cut)
    (part : cut < frame.length) : split (frame.take cut) = ([], .error
      (if cut < 3 then .truncatedHeader cut
        else .truncatedPayload (frame.length - 3) (cut - 3))) := by
  cases complete with
  | @mk a b c payload size =>
    match cut, some with
    | 1, _ | 2, _ => simp [split]
    | cut + 3, _ =>
      simp only [List.length_cons] at part
      have got : (payload.take cut).length = cut := List.length_take_of_le (by omega)
      simp only [List.take_succ_cons, List.length_cons]
      rw [split, got, if_pos (by omega), if_neg (by omega)]
      simp [size]

theorem Delivers.append {bytes more : List UInt8} {source later : Source}
    (first : Delivers bytes source) (second : Delivers more later) :
    Delivers (bytes ++ more) (source ++ later) := by
  induction first with
  | done => exact second
  | piece nonempty _ ih =>
    rw [List.append_assoc, List.cons_append]
    exact .piece nonempty ih
  | interrupted _ ih => exact .interrupted ih

theorem piecesDeliver {chunk : Nat} (positive : 0 < chunk) (bytes : List UInt8) :
    Delivers bytes (pieces chunk bytes) := by
  fun_induction pieces chunk bytes with
  | case1 bytes none =>
    have empty : bytes = [] := none.resolve_right (by omega)
    rw [empty]
    exact .done
  | case2 bytes some ih =>
    have nonempty : bytes.take chunk ≠ [] := fun none => some (List.take_eq_nil_iff.mp none).symm
    have whole := Delivers.piece nonempty ih
    rwa [List.take_append_drop] at whole

theorem cutDelivers {chunk : Nat} (positive : 0 < chunk) {faults : List (Nat × IoFault)}
    (interrupted : ∀ f ∈ faults, f.2 = .interrupted) (position : Nat) (bytes : List UInt8) :
    Delivers bytes (cut chunk position bytes faults) := by
  induction faults generalizing position bytes with
  | nil => exact piecesDeliver positive bytes
  | cons f later ih =>
    obtain ⟨offset, fault⟩ := f
    have same : fault = .interrupted := interrupted _ List.mem_cons_self
    have others := ih fun g mem => interrupted g (List.mem_cons_of_mem _ mem)
    simp only [cut]
    split
    · exact piecesDeliver positive bytes
    · rw [same]
      have whole := (piecesDeliver positive (bytes.take (offset - position))).append
        (.interrupted (others (position + (offset - position)) (bytes.drop (offset - position))))
      rwa [List.take_append_drop] at whole

/- What is read from a stream depends on its bytes only, and is what they split into. So frames of
messages that decode come out as these messages, a last frame that is cut off is reported with the
bytes that came of it, and one whole frame is read as it is decoded. -/
theorem streamSplits :
    (∀ bytes source, Delivers bytes source →
      ((readAll source).1, (readAll source).2.1) = split bytes) ∧
    (∀ (sent : List (Message × List UInt8)) source,
      (∀ p ∈ sent, p.1.encode = .ok p.2 ∧ Frame.decode p.2 = .ok p.1) →
      Delivers (sent.flatMap Prod.snd) source →
      (readAll source).1 = sent.map Prod.fst ∧ (readAll source).2.1 = .ok ()) ∧
    (∀ (sent : List (Message × List UInt8)) m frame cut source,
      (∀ p ∈ sent, p.1.encode = .ok p.2 ∧ Frame.decode p.2 = .ok p.1) →
      m.encode = .ok frame → Frame.decode frame = .ok m → 0 < cut → cut < frame.length →
      Delivers (sent.flatMap Prod.snd ++ frame.take cut) source →
      (readAll source).1 = sent.map Prod.fst ∧ (readAll source).2.1 = .error
        (if cut < 3 then .truncatedHeader cut
          else .truncatedPayload (frame.length - 3) (cut - 3))) ∧
    (∀ frame source, Complete frame → Delivers frame source →
      (readMessage source).1 = (Frame.decode frame).map some) := by
  refine ⟨fun bytes source => resultsSplit bytes, ?_, ?_, ?_⟩
  · intro sent source ok delivers
    have read := resultsSplit _ delivers
    have frames := splitFrames (fun p mem => (ok p mem).2) []
    simp only [List.append_nil] at frames
    rw [frames] at read
    simpa [results, split] using read
  · intro sent m frame cut source ok _ decoded some part delivers
    have read := resultsSplit _ delivers
    rw [splitFrames (fun p mem => (ok p mem).2),
      splitCut (Frame.decodedComplete decoded) some part] at read
    simpa [results] using read
  · rintro frame source ⟨size⟩ delivers
    obtain ⟨rest, _, read⟩ := readMessageLong delivers
    rw [read, ← size, Frame.decodeComplete size]
    simp

theorem brokenStreamRead :
    let m := Message.output "é"
    ∃ frame, m.encode = .ok frame ∧ Frame.decode frame = .ok m ∧ frame.length = 23 ∧
      let source := cut 2 0 (frame ++ frame.take 22) [(1, .interrupted), (21, .interrupted)]
      (readAll source).1 = [m] ∧ (readAll source).2.1 = .error (.truncatedPayload 20 19) := by
  intro m
  have size : m.print.utf8ByteSize = 20 := by decide +kernel
  obtain ⟨f, made⟩ := Frame.ofMessageOk (m := m) (by rw [size]; decide)
  have encoded : m.encode = .ok f.bytes := by simp [Message.encode, made, Except.map]
  have decoded : Frame.decode f.bytes = .ok m :=
    (Frame.decodeOfMessage made).mpr (by decide +kernel)
  have length : f.bytes.length = 23 := by
    rw [Frame.bytes, List.length_append, Text.Utf8.encodeLength, Frame.payloadOfMessage made, size]
    rfl
  have read := streamSplits.2.2.1 [(m, f.bytes)] m f.bytes 22
    (cut 2 0 (f.bytes ++ f.bytes.take 22) [(1, .interrupted), (21, .interrupted)])
    (by simpa using ⟨encoded, decoded⟩) encoded decoded (by decide) (by omega)
    (by simpa using cutDelivers (by decide) (by simp) 0 (f.bytes ++ f.bytes.take 22))
  rw [length] at read
  exact ⟨f.bytes, encoded, decoded, length, read⟩

end Source
end RemoteEval
