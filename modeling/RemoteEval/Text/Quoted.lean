import RemoteEval.Text.Numbered

/-!
Text between double quotes for people to read. Quotes and backslashes are escaped, the four common
controls have a letter each, and characters that would not show are given by their number.
-/
namespace RemoteEval.Text

def hexadecimal (n : Nat) : String := String.ofList (Nat.toDigits 16 n)

def quotedChar (c : Char) : String :=
  if c == '\x00' then "\\0"
  else if c == '\t' then "\\t"
  else if c == '\r' then "\\r"
  else if c == '\n' then "\\n"
  else if c == '\\' then "\\\\"
  else if c == '"' then "\\\""
  else if isNumbered c then "\\u\x7b" ++ hexadecimal c.toNat ++ "\x7d"
  else c.toString

def quoted (s : String) : String :=
  (s.foldl (fun out c => out ++ quotedChar c) "\"").push '"'

end RemoteEval.Text
