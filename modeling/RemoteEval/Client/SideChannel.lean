import RemoteEval.Text.Utf8

/-!
Output that comes through a connection of its own, as bytes in pieces. Text is handed on as it
comes, except for a character that a piece leaves incomplete: its bytes are held back until the
next piece, or the end.
-/
namespace RemoteEval.Client.SideChannel
open Text

/-- How many bytes at the start can be handed on: all of them, unless they end inside a character
and are right up to there. -/
def ready (bytes : List UInt8) : Nat :=
  match Utf8.decode bytes with
  | .error ⟨index, none⟩ => index
  | _ => bytes.length

def receive (held piece : List UInt8) : String × List UInt8 :=
  let bytes := held ++ piece
  let n := ready bytes
  (Utf8.decodeLossy (bytes.take n), bytes.drop n)

def texts (held : List UInt8) : List (List UInt8) → List String
  | [] => if held.isEmpty then [] else [Utf8.decodeLossy held]
  | piece :: rest =>
    let (text, held) := receive held piece
    text :: texts held rest

end RemoteEval.Client.SideChannel
