/-!
S-expressions: integers of 64 bits, strings, symbols, keywords and lists. There are no dotted
pairs, no quoting and no dispatch characters.

An empty list is written and read as `nil`; `list []` is a value of the type all the same, and
differs from `nil`. `Sexp.ofItems` never builds it.
-/
namespace RemoteEval

inductive Sexp where
  | nil
  | int (value : Int64)
  | str (text : String)
  | symbol (name : String)
  | keyword (name : String)
  | list (items : List Sexp)
  deriving Repr, Inhabited

namespace Sexp

mutual
def decEq : (a b : Sexp) → Decidable (a = b)
  | .nil, .nil => isTrue rfl
  | .int a, .int b => decidable_of_iff (a = b) (by simp)
  | .str a, .str b => decidable_of_iff (a = b) (by simp)
  | .symbol a, .symbol b => decidable_of_iff (a = b) (by simp)
  | .keyword a, .keyword b => decidable_of_iff (a = b) (by simp)
  | .list a, .list b =>
    match decEqItems a b with
    | isTrue h => isTrue (by rw [h])
    | isFalse h => isFalse (by simpa using h)
  | .nil, .int _ | .nil, .str _ | .nil, .symbol _ | .nil, .keyword _ | .nil, .list _
  | .int _, .nil | .int _, .str _ | .int _, .symbol _ | .int _, .keyword _ | .int _, .list _
  | .str _, .nil | .str _, .int _ | .str _, .symbol _ | .str _, .keyword _ | .str _, .list _
  | .symbol _, .nil | .symbol _, .int _ | .symbol _, .str _ | .symbol _, .keyword _
  | .symbol _, .list _ | .keyword _, .nil | .keyword _, .int _ | .keyword _, .str _
  | .keyword _, .symbol _ | .keyword _, .list _ | .list _, .nil | .list _, .int _
  | .list _, .str _ | .list _, .symbol _ | .list _, .keyword _ => isFalse (by simp)

def decEqItems : (a b : List Sexp) → Decidable (a = b)
  | [], [] => isTrue rfl
  | [], _ :: _ | _ :: _, [] => isFalse (by simp)
  | a :: as, b :: bs =>
    match decEq a b, decEqItems as bs with
    | isTrue h, isTrue t => isTrue (by rw [h, t])
    | isFalse h, _ => isFalse (by simp [h])
    | _, isFalse t => isFalse (by simp [t])
end

instance : DecidableEq Sexp := decEq

def ofItems : List Sexp → Sexp
  | [] => .nil
  | v :: rest => .list (v :: rest)

def ofString? : Option String → Sexp
  | some s => .str s
  | none => .nil

def isNil : Sexp → Bool
  | .nil => true
  | _ => false

def int? : Sexp → Option Int64
  | .int i => some i
  | _ => none

def str? : Sexp → Option String
  | .str s => some s
  | _ => none

def symbol? : Sexp → Option String
  | .symbol s => some s
  | _ => none

def keyword? : Sexp → Option String
  | .keyword s => some s
  | _ => none

def items? : Sexp → Option (List Sexp)
  | .nil => some []
  | .list items => some items
  | _ => none

@[simp] theorem itemsOfItems (items : List Sexp) : (ofItems items).items? = some items := by
  cases items <;> rfl

mutual
def depth : Sexp → Nat
  | .list items => depthOfItems items + 1
  | _ => 0

def depthOfItems : List Sexp → Nat
  | [] => 0
  | v :: rest => max v.depth (depthOfItems rest)
end

end Sexp
end RemoteEval
