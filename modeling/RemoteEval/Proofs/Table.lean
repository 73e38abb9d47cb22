import Mathlib.Data.List.Perm.Basic
import RemoteEval.Table

/-! The entries of a table, and its values, as a collection. Taking a key away takes one of
them away, and putting a value at a key exchanges one of them or adds one. -/
namespace RemoteEval.Table
variable {κ α : Type} [Key κ]

@[simp] theorem rankEq {a b : κ} : Key.rank a = Key.rank b ↔ a = b :=
  ⟨Key.rankInjective, congrArg Key.rank⟩

theorem lookupPerm {k : κ} {a : α} {es : List (κ × α)}
    (sorted : es.Pairwise (fun a b => Key.rank a.1 < Key.rank b.1))
    (found : lookup k es = some a) :
    es.Perm ((k, a) :: es.filter fun e => Key.rank e.1 != Key.rank k) := by
  induction es with
  | nil => contradiction
  | cons e rest ih =>
    have ⟨below, tail⟩ := List.pairwise_cons.mp sorted
    by_cases same : Key.rank e.1 = Key.rank k
    · simp only [lookup, same, if_true, Option.some.injEq] at found
      have others : rest.filter (fun e => Key.rank e.1 != Key.rank k) = rest := by
        refine List.filter_eq_self.mpr fun d member => ?_
        have := below d member
        simp only [bne_iff_ne, ne_eq]
        omega
      have here : e = (k, a) := Prod.ext (Key.rankInjective same) found
      rw [List.filter_cons, if_neg (by simp [same]), others, here]
    · simp only [lookup, same, if_false] at found
      have kept : (Key.rank e.1 != Key.rank k) = true := by simpa using same
      rw [List.filter_cons, if_pos kept]
      exact ((ih tail found).cons e).trans (.swap (k, a) e _)

theorem entriesErase {t : Table κ α} {k : κ} {a : α} (found : t.get? k = some a) :
    t.toList.Perm ((k, a) :: (t.erase k).toList) := lookupPerm t.sorted found

theorem erasePerm {t : Table κ α} {k : κ} {a : α} (found : t.get? k = some a) :
    t.values.Perm (a :: (t.erase k).values) := (entriesErase found).map Prod.snd

theorem lookupMem {k : κ} {a : α} {es : List (κ × α)} (found : lookup k es = some a) :
    a ∈ es.map Prod.snd := by
  induction es with
  | nil => contradiction
  | cons e rest ih =>
    simp only [lookup] at found
    split at found
    · cases found
      exact List.mem_map_of_mem List.mem_cons_self
    · exact List.mem_cons_of_mem _ (ih found)

theorem lookupSelf {e : κ × α} {es : List (κ × α)}
    (sorted : es.Pairwise (fun a b => Key.rank a.1 < Key.rank b.1)) (member : e ∈ es) :
    lookup e.1 es = some e.2 := by
  induction es with
  | nil => contradiction
  | cons d rest ih =>
    have ⟨below, tail⟩ := List.pairwise_cons.mp sorted
    rcases List.mem_cons.mp member with rfl | later
    · simp [lookup]
    · have := below e later
      simp only [lookup]
      rw [if_neg (by omega)]
      exact ih tail later

theorem memValues {t : Table κ α} {a : α} : a ∈ t.values ↔ ∃ k, t.get? k = some a := by
  constructor
  · intro member
    obtain ⟨e, inside, rfl⟩ := List.mem_map.mp member
    exact ⟨e.1, lookupSelf t.sorted inside⟩
  · rintro ⟨k, found⟩
    exact lookupMem found

theorem memKeys {t : Table κ α} {k : κ} : k ∈ t.keys ↔ ∃ a, t.get? k = some a := by
  constructor
  · intro member
    obtain ⟨e, inside, rfl⟩ := List.mem_map.mp member
    exact ⟨e.2, lookupSelf t.sorted inside⟩
  · rintro ⟨a, found⟩
    exact List.mem_map_of_mem ((entriesErase found).mem_iff.mpr List.mem_cons_self)

theorem insertInsert (t : Table κ α) (k : κ) (a b : α) :
    (t.insert k a).insert k b = t.insert k b := by
  refine ext fun j => ?_
  simp only [getInsert]
  split <;> rfl

theorem insertSame {t : Table κ α} {k : κ} {a : α} (found : t.get? k = some a) :
    t.insert k a = t := by
  refine ext fun j => ?_
  simp only [getInsert]
  split
  next same => rw [← Key.rankInjective same, found]
  · rfl

theorem insertErase (t : Table κ α) (k : κ) (a : α) : (t.insert k a).erase k = t.erase k := by
  refine ext fun j => ?_
  simp only [getErase, getInsert]
  split
  · rfl
  next other => rw [if_neg (Ne.symm other)]

theorem eraseAbsent {t : Table κ α} {k : κ} (absent : t.get? k = none) : t.erase k = t := by
  refine ext fun j => ?_
  simp only [getErase]
  split
  next same => rw [Key.rankInjective same, absent]
  · rfl

theorem sizeErase {t : Table κ α} {k : κ} {a : α} (found : t.get? k = some a) :
    t.size = (t.erase k).size + 1 := (entriesErase found).length_eq

theorem sizeInsert {t : Table κ α} {k : κ} (a : α) (absent : t.get? k = none) :
    (t.insert k a).size = t.size + 1 := by
  have found : (t.insert k a).get? k = some a := by simp
  rw [sizeErase found, insertErase, eraseAbsent absent]

theorem firstLeast {t : Table κ α} {k j : κ} {rest : List κ} {a : α} (first : t.keys = k :: rest)
    (found : t.get? j = some a) : Key.rank k ≤ Key.rank j := by
  have rising : t.keys.Pairwise fun a b => Key.rank a < Key.rank b :=
    List.pairwise_map.mpr t.sorted
  have member := memKeys.mpr ⟨a, found⟩
  rw [first] at rising member
  rcases List.mem_cons.mp member with rfl | later
  · exact Nat.le_refl _
  · exact Nat.le_of_lt ((List.pairwise_cons.mp rising).1 j later)

def mapValues {β : Type} (t : Table κ α) (f : α → β) : Table κ β :=
  ⟨t.entries.map fun e => (e.1, f e.2), List.pairwise_map.mpr t.sorted⟩

theorem lookupMap {β : Type} (f : α → β) (k : κ) (es : List (κ × α)) :
    lookup k (es.map fun e => (e.1, f e.2)) = (lookup k es).map f := by
  induction es with
  | nil => rfl
  | cons e rest ih =>
    simp only [List.map_cons, lookup]
    split
    · rfl
    · exact ih

theorem getMapValues {β : Type} (t : Table κ α) (f : α → β) (k : κ) :
    (t.mapValues f).get? k = (t.get? k).map f := lookupMap f k t.entries

theorem valuesMap {β : Type} {s t : Table κ α} {f : α → β}
    (same : ∀ k, (s.get? k).map f = (t.get? k).map f) : s.values.map f = t.values.map f := by
  have equal : s.mapValues f = t.mapValues f := ext fun k => by
    rw [getMapValues, getMapValues, same]
  have entries : (s.mapValues f).values = (t.mapValues f).values := by rw [equal]
  simpa only [mapValues, values, List.map_map, Function.comp_def] using entries

end RemoteEval.Table
