import RemoteEval.Text.Digits

/-!
The part of TOML 1.0 that settings are written in: one `key = value` to a line, where the key is
one name and the value a string, a truth value or an integer, with comments and empty lines
between. Tables, dotted keys, arrays, floats and dates are refused, as no setting has such a value.

A reader takes what it wants from the start of the text and hands on the rest. Loops over the text
are bounded by its length.
-/
namespace RemoteEval.Toml

inductive Value where
  | str (text : String)
  | bool (value : Bool)
  | int (value : Int)
  deriving DecidableEq, Repr

def isSpace (c : Char) : Bool := c == ' ' || c == '\t'

def isPlain (c : Char) : Bool := c == '\t' || (' ' ≤ c && c != '\x7f')

def isBareKey (c : Char) : Bool := c.isAlphanum || c == '_' || c == '-'

def dropSpaces (cs : List Char) : List Char := cs.dropWhile isSpace

def newline? : List Char → Option (List Char)
  | '\n' :: rest => some rest
  | '\r' :: '\n' :: rest => some rest
  | _ => none

/-- No number is beyond this one, whatever its sign. -/
def largest : Nat := 9223372036854775808

def scalar? (width : Nat) (cs : List Char) : Option (Char × List Char) := do
  let digits := cs.take width
  let n ← Text.number? 16 largest digits
  if digits.length = width ∧ n.isValidChar then some (Char.ofNat n, cs.drop width) else none

def escape? : List Char → Option (Char × List Char)
  | 'b' :: rest => some ('\x08', rest)
  | 't' :: rest => some ('\t', rest)
  | 'n' :: rest => some ('\n', rest)
  | 'f' :: rest => some ('\x0c', rest)
  | 'r' :: rest => some ('\r', rest)
  | '"' :: rest => some ('"', rest)
  | '\\' :: rest => some ('\\', rest)
  | 'u' :: rest => scalar? 4 rest
  | 'U' :: rest => scalar? 8 rest
  | _ => none

def basicBody : Nat → List Char → List Char → Option (String × List Char)
  | 0, _, _ => none
  | fuel + 1, seen, cs =>
    match cs with
    | [] => none
    | '"' :: rest => some (String.ofList seen.reverse, rest)
    | '\\' :: rest => do
      let (c, rest) ← escape? rest
      basicBody fuel (c :: seen) rest
    | c :: rest => if isPlain c then basicBody fuel (c :: seen) rest else none

def literalBody (seen : List Char) : List Char → Option (String × List Char)
  | [] => none
  | c :: rest =>
    if c == '\x27' then some (String.ofList seen.reverse, rest)
    else if isPlain c then literalBody (c :: seen) rest
    else none

def dropGap : List Char → List Char
  | '\n' :: rest => dropGap rest
  | '\r' :: '\n' :: rest => dropGap rest
  | ' ' :: rest => dropGap rest
  | '\t' :: rest => dropGap rest
  | cs => cs

def lineEnd? (cs : List Char) : Option (List Char) := (newline? (dropSpaces cs)).map dropGap

/-- The end of a string of several lines, after three delimiters: up to two more of them belong to
the string. -/
def closing (delimiter : Char) (seen : List Char) : List Char → String × List Char
  | a :: b :: rest =>
    if a == delimiter && b == delimiter then (String.ofList (b :: a :: seen).reverse, rest)
    else if a == delimiter then (String.ofList (a :: seen).reverse, b :: rest)
    else (String.ofList seen.reverse, a :: b :: rest)
  | [a] =>
    if a == delimiter then (String.ofList (a :: seen).reverse, [])
    else (String.ofList seen.reverse, [a])
  | [] => (String.ofList seen.reverse, [])

def multilineBody (delimiter : Char) (escapes : Bool) : Nat → List Char → List Char → Option (String × List Char)
  | 0, _, _ => none
  | fuel + 1, seen, cs =>
    let again := multilineBody delimiter escapes fuel
    if cs.take 3 == [delimiter, delimiter, delimiter] then
      some (closing delimiter seen (cs.drop 3))
    else match cs with
      | [] => none
      | c :: rest =>
        if c == '\\' && escapes then
          match lineEnd? rest with
          | some rest => again seen rest
          | none => do
            let (c, rest) ← escape? rest
            again (c :: seen) rest
        else if isPlain c then again (c :: seen) rest
        else do
          let rest ← newline? cs
          again ('\n' :: seen) rest

def multiline (delimiter : Char) (escapes : Bool) (cs : List Char) : Option (String × List Char) :=
  multilineBody delimiter escapes (cs.length + 1) [] ((newline? cs).getD cs)

def basic (cs : List Char) : Option (String × List Char) := basicBody (cs.length + 1) [] cs

def string? : List Char → Option (String × List Char)
  | '"' :: '"' :: '"' :: rest => multiline '"' true rest
  | '"' :: rest => basic rest
  | '\x27' :: '\x27' :: '\x27' :: rest => multiline '\x27' false rest
  | '\x27' :: rest => literalBody [] rest
  | _ => none

/-- Every underscore stands between two digits; `owed` says that a digit has to come next. -/
def separated (owed : Bool) : List Char → Bool
  | [] => !owed
  | c :: rest => if c == '_' then !owed && separated true rest else separated false rest

def digits? (isDigit : Char → Bool) (cs : List Char) : Option ((List Char) × List Char) :=
  let run := cs.takeWhile fun c => isDigit c || c == '_'
  let rest := cs.dropWhile fun c => isDigit c || c == '_'
  if separated true run then some (run.filter (· != '_'), rest) else none

def based? (base : Nat) (cs : List Char) : Option (Int × List Char) := do
  let (digits, rest) ← digits? (Text.isDigitOf base) cs
  some (← Text.number? base largest digits, rest)

def decimal? (cs : List Char) : Option (Int × List Char) := do
  let (digits, rest) ← digits? Char.isDigit cs
  if digits.head? == some '0' && digits.length > 1 then none
  else some (← Text.number? 10 largest digits, rest)

def integer? (cs : List Char) : Option (Int × List Char) := do
  let (i, rest) ← match cs with
    | '0' :: 'x' :: rest => based? 16 rest
    | '0' :: 'o' :: rest => based? 8 rest
    | '0' :: 'b' :: rest => based? 2 rest
    | '+' :: rest => decimal? rest
    | '-' :: rest => (decimal? rest).map fun (i, rest) => (-i, rest)
    | _ => decimal? cs
  if -9223372036854775808 ≤ i ∧ i ≤ 9223372036854775807 then some (i, rest) else none

def value? (cs : List Char) : Option (Value × List Char) :=
  match cs with
  | 't' :: 'r' :: 'u' :: 'e' :: rest => some (.bool true, rest)
  | 'f' :: 'a' :: 'l' :: 's' :: 'e' :: rest => some (.bool false, rest)
  | '"' :: _ | '\x27' :: _ => (string? cs).map fun (s, rest) => (.str s, rest)
  | _ => (integer? cs).map fun (i, rest) => (.int i, rest)

def key? (cs : List Char) : Option (String × List Char) :=
  match cs with
  | '"' :: rest => basic rest
  | '\x27' :: rest => literalBody [] rest
  | _ =>
    let name := cs.takeWhile isBareKey
    if name.isEmpty then none else some (String.ofList name, cs.dropWhile isBareKey)

def endLine? (cs : List Char) : Option (List Char) :=
  let rest := match dropSpaces cs with
    | '#' :: comment => comment.dropWhile isPlain
    | rest => rest
  if rest.isEmpty then some [] else newline? rest

def line? (cs : List Char) : Option ((Option (String × Value)) × List Char) :=
  let cs := dropSpaces cs
  match endLine? cs with
  | some rest => some (none, rest)
  | none => do
    let (key, rest) ← key? cs
    match dropSpaces rest with
    | '=' :: rest =>
      let (value, rest) ← value? (dropSpaces rest)
      some (some (key, value), ← endLine? rest)
    | _ => none

def linesBody : Nat → List Char → Option (List (String × Value))
  | 0, _ => none
  | _, [] => some []
  | fuel + 1, cs => do
    let (entry, rest) ← line? cs
    let more ← linesBody fuel rest
    some (entry.toList ++ more)

def entries? (text : String) : Option (List (String × Value)) :=
  let cs := text.toList
  let cs := if cs.head? == some '\ufeff' then cs.drop 1 else cs
  linesBody (cs.length + 1) cs

end RemoteEval.Toml
