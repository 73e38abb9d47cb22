import RemoteEval.Wire.Frame

/-!
Messages from a stream that delivers its bytes in pieces. A read takes no more bytes than it asks
for; an interrupted read is tried again and any other fault is reported. The stream ends with the
last delivery.
-/
namespace RemoteEval

inductive Delivery where
  | piece (bytes : List UInt8)
  | fault (fault : IoFault)
  deriving DecidableEq, Repr

abbrev Source := List Delivery

namespace Source

def size : Source → Nat
  | [] => 0
  | .piece bytes :: rest => bytes.length + size rest
  | .fault _ :: rest => size rest

def readFull : Nat → Source → Except IoFault (List UInt8) × Source
  | 0, source => (.ok [], source)
  | _ + 1, [] => (.ok [], [])
  | need + 1, .piece bytes :: rest =>
    if (bytes.drop (need + 1)).isEmpty then
      match readFull (need + 1 - bytes.length) rest with
      | (.ok more, rest) => (.ok (bytes ++ more), rest)
      | (.error fault, rest) => (.error fault, rest)
    else (.ok (bytes.take (need + 1)), .piece (bytes.drop (need + 1)) :: rest)
  | need + 1, .fault .interrupted :: rest => readFull (need + 1) rest
  | _ + 1, .fault fault :: rest => (.error fault, rest)

theorem readFullSize {need : Nat} {source rest : Source} {bytes : List UInt8}
    (h : readFull need source = (.ok bytes, rest)) : bytes.length + rest.size = source.size := by
  fun_induction readFull need source generalizing bytes rest with
  | case1 source => cases h; simp
  | case2 n => cases h; simp [size]
  | case3 n piece tail small more last called ih =>
    cases h
    have := ih called
    simp only [size, List.length_append]
    omega
  | case4 n piece tail small fault last called ih => simp at h
  | case5 n piece tail large =>
    cases h
    simp only [size, List.length_take, List.length_drop]
    omega
  | case6 n tail ih => simpa [size] using ih h
  | case7 n fault tail ordinary => simp at h

def readMessage (source : Source) : Except WireError (Option Message) × Source :=
  match readFull Frame.headerSize source with
  | (.error fault, rest) => (.error (.io fault), rest)
  | (.ok header, rest) =>
    if header.length = 0 then (.ok none, rest)
    else if header.length < Frame.headerSize then (.error (.truncatedHeader header.length), rest)
    else
      let expected := Frame.payloadSize header
      match readFull expected rest with
      | (.error fault, rest) => (.error (.io fault), rest)
      | (.ok payload, rest) =>
        if payload.length < expected then
          (.error (.truncatedPayload expected payload.length), rest)
        else
          match Frame.decodePayload payload with
          | .ok m => (.ok (some m), rest)
          | .error e => (.error e, rest)

theorem readMessageSize {source rest : Source} {m : Message}
    (h : readMessage source = (.ok (some m), rest)) : rest.size < source.size := by
  unfold readMessage at h
  split at h
  · cases h
  next header tail first =>
    have before := readFullSize first
    split at h
    · cases h
    split at h
    · cases h
    dsimp only at h
    split at h
    · cases h
    next payload last second =>
      have after := readFullSize second
      split at h
      · cases h
      split at h
      · cases h; omega
      · cases h

def ending (received : List UInt8) : Except WireError Unit :=
  match (readMessage [.piece received]).1 with
  | .ok _ => .ok ()
  | .error e => .error e

def readAll (source : Source) : List Message × Except WireError Unit × Source :=
  match _h : readMessage source with
  | (.ok (some m), rest) =>
    let (more, ending, left) := readAll rest
    (m :: more, ending, left)
  | (.ok none, rest) => ([], .ok (), rest)
  | (.error e, rest) => ([], .error e, rest)
termination_by source.size
decreasing_by exact readMessageSize _h

def pieces (chunk : Nat) (bytes : List UInt8) : Source :=
  if _h : bytes = [] ∨ chunk = 0 then []
  else .piece (bytes.take chunk) :: pieces chunk (bytes.drop chunk)
termination_by bytes.length
decreasing_by
  have : 0 < bytes.length := List.length_pos_iff.mpr fun empty => _h (.inl empty)
  simp only [List.length_drop]
  omega

/-- A stream that delivers `bytes` at most `chunk` at a time. Each fault stands at the offset where
it is due, and no piece reaches over one; faults are given by rising offset from `position`. -/
def cut (chunk : Nat) (position : Nat) (bytes : List UInt8) : List (Nat × IoFault) → Source
  | [] => pieces chunk bytes
  | (offset, fault) :: later =>
    let ahead := offset - position
    if bytes.length < ahead ∨ (chunk = 0 ∧ 0 < ahead) then pieces chunk bytes
    else
      pieces chunk (bytes.take ahead) ++
        .fault fault :: cut chunk (position + ahead) (bytes.drop ahead) later

end Source
end RemoteEval
