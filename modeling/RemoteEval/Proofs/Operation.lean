import RemoteEval.Operation
import RemoteEval.Proofs.Sexp.RoundTrip

/-! Operations as text. A form that names an operation, followed by its numbers, is read as that
operation as long as each number fits an integer of 64 bits with a sign. A longer number makes the
whole form unreadable, and what cannot be read is taken to be a program. -/
namespace RemoteEval

namespace Sexp

def numberLimit : Nat := 9223372036854775808

def spelled (name : List Char) (numbers : List Nat) : List Char :=
  '(' :: (name ++ (numbers.flatMap fun n => ' ' :: n.repr.toList) ++ [')'])

def natural (n : Nat) : Sexp := .int (Int64.ofNat n)

theorem naturalInt {n : Nat} (small : n < numberLimit) : (Int64.ofNat n).toInt = n := by
  rw [Int64.toInt_ofNat_of_lt]
  simpa [numberLimit] using small

theorem printedNatural {n : Nat} (small : n < numberLimit) : (natural n).printed = n.repr.toList := by
  rw [natural, printed, naturalInt small]
  rfl

theorem printedNumbers (v : Sexp) {numbers : List Nat} (small : ∀ n ∈ numbers, n < numberLimit) :
    printedItems (v :: numbers.map natural) =
      v.printed ++ numbers.flatMap fun n => ' ' :: n.repr.toList := by
  induction numbers generalizing v with
  | nil => simp [printedItems]
  | cons n numbers ih =>
    rw [List.map_cons, printedItems, ih (natural n) fun m later => small m (List.mem_cons_of_mem _ later),
      printedNatural (small n List.mem_cons_self), List.flatMap_cons]
    rfl

theorem naturalsFit (numbers : List Nat) :
    allProper (numbers.map natural) = true ∧ depthOfItems (numbers.map natural) = 0 := by
  induction numbers with
  | nil => exact ⟨rfl, rfl⟩
  | cons n numbers ih => exact ⟨by simpa [allProper, isProper, natural] using ih.1,
      by simpa [depthOfItems, depth, natural] using ih.2⟩

theorem spelledRead {name text : String} {numbers : List Nat} (bare : isBareName name = true)
    (small : ∀ n ∈ numbers, n < numberLimit) (same : text.toList = spelled name.toList numbers) :
    read text = .ok (.list (.symbol name :: numbers.map natural)) := by
  obtain ⟨proper, flat⟩ := naturalsFit numbers
  have print : text = (Sexp.list (.symbol name :: numbers.map natural)).print := by
    rw [← String.toList_inj, same, printToList, printed, printedNumbers _ small, printed, if_pos bare,
      spelled, List.append_assoc]
  rw [print]
  exact readPrinted (by simpa [isProper, allProper] using proper)
    (by simp [depth, depthOfItems, flat, maxDepth])

theorem classifyBeyond {n : Nat} (large : numberLimit ≤ n) : classify n.repr.toList = none := by
  obtain ⟨nonempty, digits, value⟩ := reprDigits n
  have shape : Signed [] n.repr.toList := ⟨.inl rfl, nonempty, digits⟩
  have number := fun v => classifyNumber (v := v) shape
  cases read : classify n.repr.toList with
  | none => rfl
  | some v =>
    obtain ⟨i, -, same⟩ := (number v).mp read
    have high := i.toInt_lt
    rw [value] at same
    simp only [numberLimit] at large
    simp at same
    omega

namespace Reader

theorem feedAllStuck {r : Reader} {seen : List Char} (mode : r.mode = .atom seen)
    (none : classify seen.reverse = none) {c : Char} (other : isAtomChar c = false)
    (cs : List Char) : r.feedAll (c :: cs) = Option.none := by
  simp [feedAll, feed, mode, other, endAtom, none]

theorem feedAllNumber {r : Reader} {seen : List Char} {v : Sexp} {items : List Sexp}
    {outer : List (List Sexp)} (mode : r.mode = .atom seen) (value : classify seen.reverse = some v)
    (lists : r.lists = items :: outer) (n : Nat) :
    r.feedAll (' ' :: n.repr.toList) =
      some { r with mode := .atom n.repr.toList.reverse, lists := (v :: items) :: outer } := by
  obtain ⟨nonempty, digits, -⟩ := reprDigits n
  have chars : ∀ c ∈ n.repr.toList, isAtomChar c = true := fun c mem => (digitAtom (digits c mem)).1
  have blank : r.feed ' ' = some { r with mode := .gap, lists := (v :: items) :: outer } := by
    simp [feed, mode, endAtom, value, add, lists, between, isAtomChar, Text.isBlank]
  rw [feedAll, blank]
  exact feedAllWord nonempty chars rfl

/- By induction on the numbers: the atom before them stands for nothing, or one of them does. -/
theorem feedAllBeyond {numbers : List Nat} {r : Reader} {seen : List Char} {items : List Sexp}
    {outer : List (List Sexp)} (mode : r.mode = .atom seen) (lists : r.lists = items :: outer)
    (large : classify seen.reverse = none ∨ ∃ n ∈ numbers, numberLimit ≤ n) :
    r.feedAll ((numbers.flatMap fun n => ' ' :: n.repr.toList) ++ [')']) = none := by
  induction numbers generalizing r seen items with
  | nil =>
    have stuck : classify seen.reverse = none := by simpa using large
    exact feedAllStuck mode stuck (by decide) []
  | cons n numbers ih =>
    rw [List.flatMap_cons, List.append_assoc]
    cases value : classify seen.reverse with
    | none => exact feedAllStuck mode value (by decide) _
    | some v =>
      rw [feedAllAppend, feedAllNumber mode value lists, Option.bind_some]
      refine ih rfl rfl ?_
      rw [List.reverse_reverse]
      obtain ⟨m, member, beyond⟩ := large.resolve_left (by simp [value])
      rcases List.mem_cons.mp member with rfl | later
      · exact .inl (classifyBeyond beyond)
      · exact .inr ⟨m, later, beyond⟩

end Reader

theorem spelledBeyond {name text : String} {numbers : List Nat} (bare : isBareName name = true)
    (large : ∃ n ∈ numbers, numberLimit ≤ n) (same : text.toList = spelled name.toList numbers)
    (v : Sexp) : read text ≠ .ok v := by
  intro ok
  obtain ⟨-, e, fed, -⟩ := readOk.mp ok
  simp only [isBareName, Bool.and_eq_true, Bool.not_eq_true', List.isEmpty_eq_false_iff,
    List.all_eq_true] at bare
  have opened : Reader.feedAll {} ['('] = some { lists := [[]] } := rfl
  have begun := Reader.feedAllWord bare.1.1 bare.1.2 (r := { lists := [[]] }) rfl
  have split : text.toList =
      ['('] ++ (name.toList ++ ((numbers.flatMap fun n => ' ' :: n.repr.toList) ++ [')'])) := by
    simp [same, spelled]
  rw [split, Reader.feedAllAppend, opened, Option.bind_some, Reader.feedAllAppend, begun,
    Option.bind_some, Reader.feedAllBeyond rfl rfl (.inr large)] at fed
  contradiction

end Sexp

namespace Operation
open Sexp (natural numberLimit spelled)

def numbers : Operation → List Nat
  | .backtrace first last | .debuggerInfo first last => first :: last.toList
  | .frameLocals frame => [frame]
  | .invokeRestart level index => [level, index]
  | .connectionInfo | .arglist _ | .findDefinition _ | .abort | .continue | .throwToToplevel => []

def Spells (form : String) (op : Operation) : Prop :=
  form.toList = spelled ("slink:" ++ op.name).toList op.numbers

theorem nameBare (op : Operation) : Sexp.isBareName ("slink:" ++ op.name) = true := by
  cases op <;> simp only [name] <;> decide +kernel

theorem nameUnmarked (op : Operation) : unmarked? ("slink:" ++ op.name) = some op.name := by
  cases op <;> simp only [name] <;> decide +kernel

theorem indexNatural {n : Nat} (small : n < numberLimit) : index? (natural n) = some n := by
  have value := Sexp.naturalInt small
  have positive : (0 : Int64) ≤ Int64.ofNat n := by
    rw [Int64.le_iff_toInt_le, value]
    exact Int.natCast_nonneg n
  simp only [index?, natural, Sexp.int?, Option.bind_some, positive, if_true, value,
    Int.toNat_natCast]

theorem partsNumbers {op : Operation} (named : ∀ name, op ≠ .arglist name ∧ op ≠ .findDefinition name)
    (small : ∀ n ∈ op.numbers, n < numberLimit) :
    ofParts? op.name (op.numbers.map natural) = some (some op) := by
  have index {n : Nat} (member : n ∈ op.numbers) := indexNatural (small n member)
  cases op with
  | arglist name => exact absurd rfl (named name).1
  | findDefinition name => exact absurd rfl (named name).2
  | backtrace first last | debuggerInfo first last =>
    cases last with
    | none => simp [ofParts?, name, numbers, range?, index (n := first) (by simp [numbers])]
    | some last =>
      have one := index (n := first) (by simp [numbers])
      have other := index (n := last) (by simp [numbers])
      have integer : natural last = .int (Int64.ofNat last) := rfl
      rw [integer] at other
      simp [ofParts?, name, numbers, range?, integer, one, other]
  | frameLocals frame => simp [ofParts?, name, numbers, index (n := frame) (by simp [numbers])]
  | invokeRestart level number =>
    simp [ofParts?, name, numbers, index (n := level) (by simp [numbers]),
      index (n := number) (by simp [numbers])]
  | connectionInfo | abort | «continue» | throwToToplevel => rfl

theorem parseSmall {op : Operation} {form : String} (spells : Spells form op)
    (named : ∀ name, op ≠ .arglist name ∧ op ≠ .findDefinition name)
    (small : ∀ n ∈ op.numbers, n < numberLimit) : parse form = .ok (some op) := by
  simp only [parse, Sexp.spelledRead (nameBare op) small spells, nameUnmarked,
    partsNumbers named small]

theorem readLarge {op : Operation} {form : String} (spells : Spells form op)
    (large : ∃ n ∈ op.numbers, numberLimit ≤ n) : ∃ e, Sexp.read form = .error e := by
  cases read : Sexp.read form with
  | ok v => exact absurd read (Sexp.spelledBeyond (nameBare op) large spells v)
  | error e => exact ⟨e, rfl⟩

theorem parseLarge {op : Operation} {form : String} (spells : Spells form op)
    (large : ∃ n ∈ op.numbers, numberLimit ≤ n) : parse form = .ok none := by
  obtain ⟨e, unread⟩ := readLarge spells large
  simp [parse, unread]

end Operation
end RemoteEval
