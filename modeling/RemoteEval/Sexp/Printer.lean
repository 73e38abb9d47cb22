import RemoteEval.Text.Blank
import RemoteEval.Text.Digits
import RemoteEval.Sexp.Basic

/-!
Printed s-expressions. A string stands between double quotes; a symbol stands bare when its
bare name reads as that symbol, and between bars otherwise. Inside either delimiter a backslash
goes before the delimiter and before a backslash.

`classify` gives the value of a bare atom and is shared with the reader: the printer asks it
whether a name may stand bare.
-/
namespace RemoteEval.Sexp
open Text (isBlank)

def isAtomChar (c : Char) : Bool :=
  !isBlank c && !(c == '(' || c == ')' || c == '"' || c == ';' || c == '\x27' || c == '\x60' ||
    c == ',' || c == '#' || c == '|' || c == '\\')

def signedDigits : List Char → Bool × List Char
  | '-' :: digits => (true, digits)
  | '+' :: digits => (false, digits)
  | digits => (false, digits)

def isDigits (cs : List Char) : Bool := !cs.isEmpty && cs.all Char.isDigit

def int64? (i : Int) : Option Int64 :=
  if -9223372036854775808 ≤ i ∧ i ≤ 9223372036854775807 then some (Int64.ofInt i) else none

/-- The value of a bare atom. An atom shaped like an integer must be one of 64 bits, a keyword has
a non-empty name without a colon, and `nil` is read in any case of its letters. -/
def classify (atom : List Char) : Option Sexp :=
  let (negative, digits) := signedDigits atom
  if isDigits digits then do
    let n ← Text.readUpTo 10 9223372036854775808 0 digits
    (int64? (if negative then -n else n)).map .int
  else match atom with
    | ':' :: name =>
      if name.isEmpty || name.contains ':' then none else some (.keyword (String.ofList name))
    | _ =>
      if atom.map Char.toLower == ['n', 'i', 'l'] then some .nil
      else some (.symbol (String.ofList atom))

def isBareName (name : String) : Bool :=
  let cs := name.toList
  !cs.isEmpty && cs.all isAtomChar && classify cs == some (.symbol name)

def writeDelimited (delimiter : Char) (out text : String) : String :=
  (text.toList.foldl (fun out c =>
    if c == delimiter || c == '\\' then (out.push '\\').push c else out.push c)
    (out.push delimiter)).push delimiter

mutual
def write (out : String) : Sexp → String
  | .nil => out ++ "nil"
  | .int i => out ++ toString i.toInt
  | .str s => writeDelimited '"' out s
  | .symbol s => if isBareName s then out ++ s else writeDelimited '|' out s
  | .keyword s => out.push ':' ++ s
  | .list items => (writeItems (out.push '(') items).push ')'

def writeItems (out : String) : List Sexp → String
  | [] => out
  | [v] => v.write out
  | v :: w :: rest => writeItems ((v.write out).push ' ') (w :: rest)
end

def print (v : Sexp) : String := v.write ""

instance : ToString Sexp := ⟨print⟩

end RemoteEval.Sexp
