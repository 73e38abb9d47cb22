/-!
Finite maps as lists of entries in rising order of their keys. The order is part of the type, so
two tables that give the same answers are equal, however they came about.
-/
namespace RemoteEval

class Key (κ : Type) where
  rank : κ → Nat
  rankInjective : ∀ {a b : κ}, rank a = rank b → a = b

instance : Key Nat := ⟨id, id⟩

instance : Key UInt32 := ⟨UInt32.toNat, UInt32.toNat_inj.mp⟩

instance : Key UInt64 := ⟨UInt64.toNat, UInt64.toNat_inj.mp⟩

instance : Key (UInt32 × UInt64) where
  rank p := p.1.toNat * 18446744073709551616 + p.2.toNat
  rankInjective {a b} h := by
    have ha := a.2.toNat_lt
    have hb := b.2.toNat_lt
    have first : a.1.toNat = b.1.toNat := by omega
    have second : a.2.toNat = b.2.toNat := by omega
    exact Prod.ext (UInt32.toNat_inj.mp first) (UInt64.toNat_inj.mp second)

structure Table (κ α : Type) [Key κ] where
  entries : List (κ × α) := []
  sorted : entries.Pairwise (fun a b => Key.rank a.1 < Key.rank b.1) := by simp

namespace Table
variable {κ α : Type} [Key κ]

instance : Inhabited (Table κ α) := ⟨{}⟩
instance [Repr κ] [Repr α] : Repr (Table κ α) := ⟨fun t n => reprPrec t.entries n⟩

theorem entriesInjective {s t : Table κ α} (h : s.entries = t.entries) : s = t := by
  cases s; cases t; cases h; rfl

instance [DecidableEq κ] [DecidableEq α] : DecidableEq (Table κ α) := fun s t =>
  decidable_of_iff (s.entries = t.entries) ⟨entriesInjective, fun h => h ▸ rfl⟩

def toList (t : Table κ α) : List (κ × α) := t.entries
def keys (t : Table κ α) : List κ := t.entries.map Prod.fst
def values (t : Table κ α) : List α := t.entries.map Prod.snd
def size (t : Table κ α) : Nat := t.entries.length
def isEmpty (t : Table κ α) : Bool := t.entries.isEmpty

def lookup (k : κ) : List (κ × α) → Option α
  | [] => none
  | e :: rest => if Key.rank e.1 = Key.rank k then some e.2 else lookup k rest

def get? (t : Table κ α) (k : κ) : Option α := lookup k t.entries

def contains (t : Table κ α) (k : κ) : Bool := (t.get? k).isSome

def place (k : κ) (a : α) : List (κ × α) → List (κ × α)
  | [] => [(k, a)]
  | e :: rest =>
    if Key.rank k < Key.rank e.1 then (k, a) :: e :: rest
    else if Key.rank k = Key.rank e.1 then (k, a) :: rest
    else e :: place k a rest

theorem memPlace {k : κ} {a : α} {e : κ × α} {es : List (κ × α)} (h : e ∈ place k a es) :
    e = (k, a) ∨ e ∈ es := by
  induction es with
  | nil => simpa [place] using h
  | cons d rest ih =>
    unfold place at h
    split at h
    · simpa using h
    split at h
    · rcases List.mem_cons.mp h with h | h
      · exact .inl h
      · exact .inr (List.mem_cons_of_mem _ h)
    · rcases List.mem_cons.mp h with h | h
      · exact .inr (h ▸ List.mem_cons_self)
      · exact (ih h).imp_right (List.mem_cons_of_mem _)

theorem placeSorted {k : κ} {a : α} {es : List (κ × α)}
    (h : es.Pairwise (fun a b => Key.rank a.1 < Key.rank b.1)) :
    (place k a es).Pairwise (fun a b => Key.rank a.1 < Key.rank b.1) := by
  induction es with
  | nil => simp [place]
  | cons d rest ih =>
    have ⟨below, tail⟩ := List.pairwise_cons.mp h
    unfold place
    split
    next less =>
      refine List.pairwise_cons.mpr ⟨fun e he => ?_, h⟩
      rcases List.mem_cons.mp he with rfl | he
      · exact less
      · exact Nat.lt_trans less (below e he)
    split
    next same => exact List.pairwise_cons.mpr ⟨fun e he => same ▸ below e he, tail⟩
    next notLess notSame =>
      refine List.pairwise_cons.mpr ⟨fun e he => ?_, ih tail⟩
      rcases memPlace he with rfl | he
      · show Key.rank d.1 < Key.rank k
        omega
      · exact below e he

def insert (t : Table κ α) (k : κ) (a : α) : Table κ α := ⟨place k a t.entries, placeSorted t.sorted⟩

def filterKeys (t : Table κ α) (p : κ → Bool) : Table κ α :=
  ⟨t.entries.filter fun e => p e.1, t.sorted.filter _⟩

def erase (t : Table κ α) (k : κ) : Table κ α := t.filterKeys fun j => Key.rank j != Key.rank k

theorem lookupPlace (k j : κ) (a : α) {es : List (κ × α)}
    (h : es.Pairwise (fun a b => Key.rank a.1 < Key.rank b.1)) :
    lookup j (place k a es) = if Key.rank k = Key.rank j then some a else lookup j es := by
  induction es with
  | nil => simp [place, lookup]
  | cons d rest ih =>
    have ⟨below, tail⟩ := List.pairwise_cons.mp h
    unfold place
    split
    · simp [lookup]
    split
    next same =>
      simp only [lookup]
      split
      · rfl
      · rw [if_neg (by omega)]
    next notLess notSame =>
      simp only [lookup, ih tail]
      split
      · rw [if_neg (by omega)]
      · rfl

@[simp] theorem getInsert (t : Table κ α) (k j : κ) (a : α) :
    (t.insert k a).get? j = if Key.rank k = Key.rank j then some a else t.get? j :=
  lookupPlace k j a t.sorted

theorem lookupFilter (p : κ → Bool) (respects : ∀ a b, Key.rank a = Key.rank b → p a = p b)
    (k : κ) (es : List (κ × α)) :
    lookup k (es.filter fun e => p e.1) = if p k then lookup k es else none := by
  induction es with
  | nil => simp [lookup]
  | cons d rest ih =>
    by_cases same : Key.rank d.1 = Key.rank k
    · have := respects _ _ same
      by_cases hp : p k <;> simp_all [lookup]
    · by_cases hd : p d.1 <;> simp [lookup, hd, same, ih]

@[simp] theorem getFilterKeys (t : Table κ α) (p : κ → Bool) (k : κ) :
    (t.filterKeys p).get? k = if p k then t.get? k else none :=
  lookupFilter p (fun _ _ h => by rw [Key.rankInjective h]) k t.entries

@[simp] theorem getErase (t : Table κ α) (k j : κ) :
    (t.erase k).get? j = if Key.rank j = Key.rank k then none else t.get? j := by
  simp only [erase, getFilterKeys, bne_iff_ne, ne_eq, ite_not]

@[simp] theorem getEmpty (k : κ) : ({} : Table κ α).get? k = none := rfl

theorem lookupNone {k : κ} {es : List (κ × α)} (h : ∀ e ∈ es, Key.rank k < Key.rank e.1) :
    lookup k es = none := by
  induction es with
  | nil => rfl
  | cons d rest ih =>
    have := h d List.mem_cons_self
    simp only [lookup]
    rw [if_neg (by omega), ih fun e he => h e (List.mem_cons_of_mem _ he)]

theorem entriesEq {es fs : List (κ × α)}
    (he : es.Pairwise (fun a b => Key.rank a.1 < Key.rank b.1))
    (hf : fs.Pairwise (fun a b => Key.rank a.1 < Key.rank b.1))
    (same : ∀ k, lookup k es = lookup k fs) : es = fs := by
  induction es generalizing fs with
  | nil =>
    cases fs with
    | nil => rfl
    | cons f rest => simpa [lookup] using same f.1
  | cons e es ih =>
    cases fs with
    | nil => simpa [lookup] using same e.1
    | cons f fs =>
      have ⟨belowE, tailE⟩ := List.pairwise_cons.mp he
      have ⟨belowF, tailF⟩ := List.pairwise_cons.mp hf
      have head : Key.rank e.1 = Key.rank f.1 := by
        rcases Nat.lt_trichotomy (Key.rank e.1) (Key.rank f.1) with less | eq | more
        · have h := same e.1
          have none : lookup e.1 (f :: fs) = none := lookupNone fun g hg => by
            rcases List.mem_cons.mp hg with rfl | hg
            · exact less
            · exact Nat.lt_trans less (belowF g hg)
          rw [none] at h
          simp [lookup] at h
        · exact eq
        · have h := same f.1
          have none : lookup f.1 (e :: es) = none := lookupNone fun g hg => by
            rcases List.mem_cons.mp hg with rfl | hg
            · exact more
            · exact Nat.lt_trans more (belowE g hg)
          rw [none] at h
          simp [lookup] at h
      have key : e.1 = f.1 := Key.rankInjective head
      have value : e.2 = f.2 := by simpa [lookup, head] using same e.1
      have tails : es = fs := by
        refine ih tailE tailF fun k => ?_
        by_cases hk : Key.rank e.1 = Key.rank k
        · rw [lookupNone (fun g hg => hk ▸ belowE g hg), lookupNone (fun g hg => by
            rw [← hk, head]; exact belowF g hg)]
        · have h := same k
          simpa [lookup, hk, head ▸ hk] using h
      rw [tails, Prod.ext key value]

/-- Tables that answer alike are equal. -/
theorem ext {s t : Table κ α} (h : ∀ k, s.get? k = t.get? k) : s = t :=
  entriesInjective (entriesEq s.sorted t.sorted h)

end Table
end RemoteEval
