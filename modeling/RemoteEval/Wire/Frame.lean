import RemoteEval.Sexp.Reader
import RemoteEval.Message.Form
import RemoteEval.Wire.Error

/-!
Frames: a payload of at most 2^24 - 1 bytes after its length in three bytes, the most significant
first. The payload is a printed message in UTF-8.
-/
namespace RemoteEval

structure Frame where
  payload : String
  fits : payload.utf8ByteSize ≤ 16777215

namespace Frame

def headerSize : Nat := 3

def maxPayload : Nat := 16777215

def ofText (payload : String) : Except WireError Frame :=
  if h : payload.utf8ByteSize ≤ 16777215 then .ok ⟨payload, h⟩
  else .error (.tooLarge payload.utf8ByteSize)

def ofMessage (m : Message) : Except WireError Frame := ofText m.print

def header (f : Frame) : List UInt8 :=
  let n := f.payload.utf8ByteSize
  [(n / 65536).toUInt8, (n / 256 % 256).toUInt8, (n % 256).toUInt8]

def size (f : Frame) : Nat := headerSize + f.payload.utf8ByteSize

def bytes (f : Frame) : List UInt8 := f.header ++ Text.Utf8.encode f.payload

def payloadSize (header : List UInt8) : Nat := header.foldl (fun n b => n * 256 + b.toNat) 0

def first? (bytes : List UInt8) : Option (List UInt8 × List UInt8) :=
  let header := bytes.take headerSize
  if header.length < headerSize then none
  else
    let rest := bytes.drop headerSize
    let payload := rest.take (payloadSize header)
    if payload.length < payloadSize header then none
    else some (payload, rest.drop (payloadSize header))

theorem firstShorter {bytes payload rest : List UInt8}
    (h : first? bytes = some (payload, rest)) : rest.length < bytes.length := by
  unfold first? at h
  dsimp only at h
  split at h
  · cases h
  split at h
  · cases h
  · cases h
    simp only [List.length_drop, List.length_take, headerSize] at *
    omega

def decodePayload (payload : List UInt8) : Except WireError Message :=
  match Text.Utf8.decode payload with
  | .error fault => .error (.notUtf8 fault)
  | .ok text =>
    match Sexp.read text with
    | .error e => .error (.unreadable e.message)
    | .ok v =>
      match Message.ofSexp v with
      | .error e => .error (.malformed e.message)
      | .ok m => .ok m

def decode (bytes : List UInt8) : Except WireError Message :=
  if bytes.length < headerSize then .error (.truncatedHeader bytes.length)
  else
    let expected := payloadSize (bytes.take headerSize)
    let payload := bytes.drop headerSize
    if payload.length < expected then .error (.truncatedPayload expected payload.length)
    else if payload.length > expected then
      .error (.malformed s!"{payload.length - expected} bytes after the end of the frame")
    else decodePayload payload

end Frame

def Message.encode (m : Message) : Except WireError (List UInt8) := (Frame.ofMessage m).map Frame.bytes

end RemoteEval
