import RemoteEval.Sexp.Printer

/-!
The s-expression reader. Text is read one character at a time by an automaton whose state holds
the lists that are open, so that reading uses no stack of its own. Before it runs, `nestingDepth`
counts parentheses outside strings and bars, and text that nests deeper than `maxDepth` is refused
whatever else is wrong with it.
-/
namespace RemoteEval.Sexp
open Text (isBlank)

def maxDepth : Nat := 256

inductive ReadError where
  | tooDeep (depth : Nat)
  | syntaxError
  deriving DecidableEq, Repr

def ReadError.message : ReadError → String
  | .tooDeep depth => s!"nesting depth {depth} exceeds the limit of {maxDepth}"
  | .syntaxError => "<syntax>"

/-- Where the count of parentheses stands: between tokens, inside a delimited token, or right after
a backslash in one. -/
inductive Scan where
  | outside
  | inside (delimiter : Char)
  | escaped (delimiter : Char)
  deriving DecidableEq, Repr

def scanDepth : Scan → Nat → Nat → List Char → Nat
  | _, _, deepest, [] => deepest
  | .escaped d, depth, deepest, _ :: cs => scanDepth (.inside d) depth deepest cs
  | .inside d, depth, deepest, c :: cs =>
    if c == '\\' then scanDepth (.escaped d) depth deepest cs
    else if c == d then scanDepth .outside depth deepest cs
    else scanDepth (.inside d) depth deepest cs
  | .outside, depth, deepest, c :: cs =>
    if c == '"' || c == '|' then scanDepth (.inside c) depth deepest cs
    else if c == '(' then scanDepth .outside (depth + 1) (max deepest (depth + 1)) cs
    else if c == ')' then scanDepth .outside (depth - 1) deepest cs
    else scanDepth .outside depth deepest cs

def nestingDepth (cs : List Char) : Nat := scanDepth .outside 0 0 cs

inductive Delimited where
  | string
  | bars
  deriving DecidableEq, Repr

def Delimited.delimiter : Delimited → Char
  | .string => '"'
  | .bars => '|'

def Delimited.value (kind : Delimited) (name : List Char) : Sexp :=
  match kind with
  | .string => .str (String.ofList name)
  | .bars => .symbol (String.ofList name)

inductive Mode where
  | gap
  | atom (seen : List Char)
  | inside (kind : Delimited) (seen : List Char)
  | escaped (kind : Delimited) (seen : List Char)
  deriving DecidableEq, Repr

/-- The reader's state: the token it is in, the open lists (innermost first, the items of each
newest first), and the finished value once there is one. -/
structure Reader where
  mode : Mode := .gap
  lists : List (List Sexp) := []
  value : Option Sexp := none
  deriving DecidableEq, Repr

namespace Reader

def add (r : Reader) (v : Sexp) : Option Reader :=
  match r.lists, r.value with
  | items :: outer, _ => some { r with mode := .gap, lists := (v :: items) :: outer }
  | [], none => some { r with mode := .gap, value := some v }
  | [], some _ => none

def endAtom (r : Reader) : Option Reader :=
  match r.mode with
  | .atom seen => (classify seen.reverse).bind r.add
  | _ => some r

def between (r : Reader) (c : Char) : Option Reader :=
  if isBlank c then some r
  else if c == '(' then some { r with lists := [] :: r.lists }
  else if c == ')' then
    match r.lists with
    | items :: outer => { r with lists := outer }.add (ofItems items.reverse)
    | [] => none
  else if c == '"' then some { r with mode := .inside .string [] }
  else if c == '|' then some { r with mode := .inside .bars [] }
  else if isAtomChar c then some { r with mode := .atom [c] }
  else none

def feed (r : Reader) (c : Char) : Option Reader :=
  match r.mode with
  | .gap => r.between c
  | .atom seen =>
    if isAtomChar c then some { r with mode := .atom (c :: seen) }
    else r.endAtom.bind (·.between c)
  | .inside kind seen =>
    if c == '\\' then some { r with mode := .escaped kind seen }
    else if c == kind.delimiter then r.add (kind.value seen.reverse)
    else some { r with mode := .inside kind (c :: seen) }
  | .escaped kind seen => some { r with mode := .inside kind (c :: seen) }

def feedAll (r : Reader) : List Char → Option Reader
  | [] => some r
  | c :: cs =>
    match r.feed c with
    | some next => next.feedAll cs
    | none => none

def finish (r : Reader) : Option Sexp :=
  match r.endAtom with
  | some ⟨.gap, [], value⟩ => value
  | _ => none

end Reader

def read (text : String) : Except ReadError Sexp :=
  let cs := text.toList
  let depth := nestingDepth cs
  if depth > maxDepth then .error (.tooDeep depth)
  else match (Reader.feedAll {} cs).bind Reader.finish with
    | some v => .ok v
    | none => .error .syntaxError

end RemoteEval.Sexp
