/-!
Numbers as digits, the most significant first. A number is read only up to a limit and given up as
soon as it is beyond it, so that a long run of digits costs no more than its length.
-/
namespace RemoteEval.Text

def digitValue (c : Char) : Nat :=
  if '0' ≤ c ∧ c ≤ '9' then c.toNat - '0'.toNat
  else if 'a' ≤ c ∧ c ≤ 'f' then c.toNat - 'a'.toNat + 10
  else if 'A' ≤ c ∧ c ≤ 'F' then c.toNat - 'A'.toNat + 10
  else 16

def isDigitOf (base : Nat) (c : Char) : Bool := digitValue c < base

def valueFrom (base n : Nat) (digits : List Char) : Nat :=
  digits.foldl (fun n c => n * base + digitValue c) n

/-- The number that digits denote after `n` has been read, unless it is beyond `limit`. -/
def readUpTo (base limit n : Nat) : List Char → Option Nat
  | [] => some n
  | c :: rest =>
    let m := n * base + digitValue c
    if m ≤ limit then readUpTo base limit m rest else none

theorem leValueFrom {base : Nat} (positive : 0 < base) (n : Nat) (digits : List Char) :
    n ≤ valueFrom base n digits := by
  induction digits generalizing n with
  | nil => exact Nat.le_refl n
  | cons c rest ih =>
    have step : n ≤ n * base + digitValue c :=
      Nat.le_trans (Nat.le_mul_of_pos_right n positive) (Nat.le_add_right _ _)
    exact Nat.le_trans step (ih _)

theorem readUpToEq {base limit n : Nat} (positive : 0 < base) (small : n ≤ limit)
    (digits : List Char) :
    readUpTo base limit n digits =
      if valueFrom base n digits ≤ limit then some (valueFrom base n digits) else none := by
  induction digits generalizing n with
  | nil => simp [readUpTo, valueFrom, small]
  | cons c rest ih =>
    have same : valueFrom base n (c :: rest) = valueFrom base (n * base + digitValue c) rest := rfl
    rw [same]
    unfold readUpTo
    by_cases h : n * base + digitValue c ≤ limit
    · simp only [h, if_true]
      exact ih h
    · have beyond := leValueFrom positive (n * base + digitValue c) rest
      simp only [h, if_false]
      rw [if_neg (by omega)]

def number? (base limit : Nat) (digits : List Char) : Option Nat :=
  if !digits.isEmpty && digits.all (isDigitOf base) then readUpTo base limit 0 digits else none

def count? (limit : Nat) (text : String) : Option Nat :=
  match text.toList with
  | '+' :: digits => number? 10 limit digits
  | digits => number? 10 limit digits

end RemoteEval.Text
