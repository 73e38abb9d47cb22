import Mathlib.Data.List.Infix
import RemoteEval.Registry
import RemoteEval.Proofs.Table

/-! References and who has them. The two tables of a registry say the same, one by reference and one
by worker. The references below the counter are live or free, and none is both; so the smallest that
is not live is the first free one, or the counter itself if none is free. As many are live or free as
have been live at a time, so the counter stays in its range as long as there are fewer workers at a
time than references. -/
namespace RemoteEval.Registry
variable {ω : Type} [Key ω] {r r' : Registry ω} {ref : WorkerRef} {worker : ω}

theorem releaseLive (r : Registry ω) (ref other : WorkerRef) :
    (r.release ref).2.live.get? other = if other = ref then none else r.live.get? other := by
  unfold release
  cases live : r.live.get? ref with
  | none =>
    by_cases same : other = ref
    · simp [same, live]
    · simp [same]
  | some holder => simp

theorem releaseRefs (r : Registry ω) (ref other : WorkerRef) (worker : ω) :
    (r.release ref).2.refs.get? worker = some other ↔
      r.live.get? ref ≠ some worker ∧ r.refs.get? worker = some other := by
  classical
  unfold release
  cases live : r.live.get? ref with
  | none => simp
  | some holder => simp [eq_comm]

theorem releaseSwap (r : Registry ω) (ref other : WorkerRef) :
    ((r.release ref).2.release other).2 = ((r.release other).2.release ref).2 := by
  by_cases same : ref = other
  · rw [same]
  · unfold release
    cases one : r.live.get? ref <;> cases two : r.live.get? other <;>
      simp [one, two, same, Ne.symm same]
    refine ⟨?_, ?_, ?_⟩ <;> refine Table.ext fun j => ?_
    · simp only [Table.getErase]
      split <;> split <;> rfl
    · simp only [Table.getErase]
      split <;> split <;> rfl
    · simp only [Table.getInsert]
      split <;> split <;> rfl

theorem lookupIff : r.lookup ref = .ok worker ↔ r.live.get? ref = some worker := by
  unfold lookup
  cases r.live.get? ref <;> simp

theorem allocateCases (allocated : r.allocate worker = (ref, r')) :
    (r.refOf worker = some ref ∧ r' = r) ∨
    (r.refOf worker = none ∧ ∃ free fresh,
      r' = ⟨r.live.insert ref worker, r.refs.insert worker ref, free, fresh⟩) := by
  unfold allocate at allocated
  split at allocated
  next known =>
    cases allocated
    exact .inl ⟨known, rfl⟩
  next unknown =>
    refine .inr ⟨unknown, ?_⟩
    dsimp only at allocated
    split at allocated <;> cases allocated <;> exact ⟨_, _, rfl⟩

/- A reference that stands for a worker is the one that the worker has. The converse holds only as
long as references do not run over. -/
def Mirrored (r : Registry ω) : Prop :=
  ∀ ref worker, r.live.get? ref = some worker → r.refs.get? worker = some ref

theorem Mirrored.insert (mirrored : r.Mirrored) (unknown : r.refs.get? worker = none)
    (ref : WorkerRef) (free : Table WorkerRef Unit) (fresh : WorkerRef) :
    Mirrored ⟨r.live.insert ref worker, r.refs.insert worker ref, free, fresh⟩ := by
  classical
  intro other holder live
  simp only [Table.getInsert, Table.rankEq] at live ⊢
  split at live
  next same =>
    cases live
    rw [if_pos rfl, same]
  · have known := mirrored other holder live
    have different : worker ≠ holder := by
      rintro rfl
      rw [unknown] at known
      contradiction
    rw [if_neg different, known]

theorem Mirrored.allocate (mirrored : r.Mirrored) (allocated : r.allocate worker = (ref, r')) :
    r'.Mirrored := by
  obtain ⟨-, rfl⟩ | ⟨unknown, free, fresh, rfl⟩ := allocateCases allocated
  · exact mirrored
  · exact mirrored.insert unknown ref free fresh

theorem Mirrored.release (mirrored : r.Mirrored) (ref : WorkerRef) :
    (r.release ref).2.Mirrored := by
  intro other holder live
  rw [releaseLive] at live
  obtain ⟨apart, live⟩ := Option.ite_none_left_eq_some.mp live
  have known := mirrored other holder live
  refine (releaseRefs ..).mpr ⟨fun here => ?_, known⟩
  have same := mirrored ref holder here
  rw [known] at same
  exact apart (Option.some.inj same)

structure Consistent (r : Registry ω) : Prop where
  inverse : ∀ {ref worker}, r.refs.get? worker = some ref ↔ r.live.get? ref = some worker
  apart : ∀ {ref}, r.free.get? ref = some () → r.live.get? ref = none
  whole : ∀ ref, (r.free.get? ref).isSome ∨ (r.live.get? ref).isSome ↔ 0 < ref ∧ ref < r.fresh
  count : r.live.size + r.free.size + 1 = r.fresh.toNat

theorem newConsistent : ({} : Registry ω).Consistent where
  inverse := by simp
  apart free := by cases free
  whole ref := by
    have none : ¬ (0 < ref ∧ ref < 1) := by
      rw [UInt32.lt_iff_toNat_lt, UInt32.lt_iff_toNat_lt]
      simp only [UInt32.toNat_zero, UInt32.toNat_one]
      omega
    exact iff_of_false (by simp) none
  count := rfl

namespace Consistent
variable (consistent : r.Consistent)
include consistent

theorem freshPositive : 0 < r.fresh := by
  have count := consistent.count
  rw [UInt32.lt_iff_toNat_lt, UInt32.toNat_zero]
  omega

theorem freshUnused : r.free.get? r.fresh = none ∧ r.live.get? r.fresh = none := by
  have outside : ¬ ((r.free.get? r.fresh).isSome ∨ (r.live.get? r.fresh).isSome) := fun used =>
    UInt32.lt_irrefl _ ((consistent.whole _).mp used).2
  simpa [not_or] using outside

theorem release (ref : WorkerRef) : (r.release ref).2.Consistent := by
  unfold Registry.release
  cases live : r.live.get? ref with
  | none => exact consistent
  | some holder =>
    have vacant : r.free.get? ref = none := by
      cases free : r.free.get? ref with
      | none => rfl
      | some =>
        rw [consistent.apart free] at live
        contradiction
    refine ⟨fun {other one} => ?_, fun {other} free => ?_, fun other => ?_, ?_⟩
    · classical
      simp only [Table.getErase, Table.rankEq, Option.ite_none_left_eq_some, consistent.inverse]
      refine and_congr_left fun here => not_congr ⟨?_, ?_⟩
      · rintro rfl
        exact Option.some.inj
          ((consistent.inverse.mpr here).symm.trans (consistent.inverse.mpr live))
      · rintro rfl
        exact Option.some.inj (here.symm.trans live)
    · by_cases same : other = ref
      · simp [same]
      · simp only [Table.getInsert, Table.rankEq, Ne.symm same, if_false] at free
        simpa [same] using consistent.apart free
    · by_cases same : other = ref
      · subst same
        simpa using (consistent.whole other).mp (.inr (by simp [live]))
      · simpa [same, Ne.symm same] using consistent.whole other
    · have count := consistent.count
      rw [Table.sizeErase live] at count
      show (r.live.erase ref).size + (r.free.insert ref ()).size + 1 = r.fresh.toNat
      rw [Table.sizeInsert _ vacant]
      omega

theorem insert {free : Table WorkerRef Unit} {fresh : WorkerRef}
    (unknown : r.refOf worker = none) (vacant : r.live.get? ref = none)
    (others : ∀ other, other ≠ ref → free.get? other = r.free.get? other)
    (taken : free.get? ref = none)
    (bounds : ∀ other, 0 < other ∧ other < fresh ↔ other = ref ∨ 0 < other ∧ other < r.fresh)
    (count : r.live.size + free.size + 2 = fresh.toNat) :
    Consistent ⟨r.live.insert ref worker, r.refs.insert worker ref, free, fresh⟩ where
  inverse {other holder} := by
    classical
    simp only [Table.getInsert, Table.rankEq]
    by_cases here : worker = holder <;> by_cases there : ref = other
    · simp [here, there]
    · subst here
      simp only [if_true, there, if_false, Option.some.injEq, false_iff]
      intro live
      exact Option.some_ne_none other ((consistent.inverse.mpr live).symm.trans unknown)
    · subst there
      simp only [if_true, here, if_false, Option.some.injEq, iff_false]
      intro known
      exact Option.some_ne_none holder ((consistent.inverse.mp known).symm.trans vacant)
    · simpa only [here, there, if_false] using consistent.inverse
  apart {other} given := by
    by_cases same : other = ref
    · rw [same, taken] at given
      contradiction
    · rw [others other same] at given
      simpa [Ne.symm same] using consistent.apart given
  whole other := by
    rw [bounds other]
    by_cases same : other = ref
    · simp [same]
    · simpa [same, Ne.symm same, others other same] using consistent.whole other
  count := by
    show (r.live.insert ref worker).size + free.size + 1 = fresh.toNat
    rw [Table.sizeInsert _ vacant]
    omega

theorem least (unknown : r.refOf worker = none) :
    0 < (r.allocate worker).1 ∧ r.live.get? (r.allocate worker).1 = none ∧
    ∀ other, 0 < other → other < (r.allocate worker).1 → (r.live.get? other).isSome := by
  unfold Registry.allocate
  rw [unknown]
  dsimp only
  cases keys : r.free.keys with
  | nil =>
    refine ⟨consistent.freshPositive, consistent.freshUnused.2, fun other positive less => ?_⟩
    refine ((consistent.whole other).mpr ⟨positive, less⟩).resolve_left fun free => ?_
    obtain ⟨_, found⟩ := Option.isSome_iff_exists.mp free
    have member := Table.memKeys.mpr ⟨_, found⟩
    rw [keys] at member
    contradiction
  | cons first rest =>
    obtain ⟨_, given⟩ := Table.memKeys.mp (show first ∈ r.free.keys by simp [keys])
    obtain ⟨positive, below⟩ := (consistent.whole first).mp (.inl (by simp [given]))
    refine ⟨positive, consistent.apart given, fun other above less => ?_⟩
    have used := (consistent.whole other).mpr ⟨above, UInt32.lt_trans less below⟩
    refine used.resolve_left fun free => ?_
    obtain ⟨_, found⟩ := Option.isSome_iff_exists.mp free
    exact Nat.not_le_of_lt (UInt32.lt_iff_toNat_lt.mp less) (Table.firstLeast keys found)

/- The counter moves only if no reference is free, and then all below it are live. -/
theorem allocate (room : (r.allocate worker).2.size ≤ 4294967294) :
    (r.allocate worker).2.Consistent ∧ ((r.allocate worker).2.fresh = r.fresh ∨
      (r.allocate worker).2.fresh.toNat = r.fresh.toNat + 1 ∧
      (r.allocate worker).2.size = r.fresh.toNat) := by
  have count := consistent.count
  cases known : r.refOf worker with
  | some ref =>
    have same : (r.allocate worker).2 = r := by simp [Registry.allocate, known]
    rw [same]
    exact ⟨consistent, .inl rfl⟩
  | none =>
    cases keys : r.free.keys with
    | cons first rest =>
      have same : (r.allocate worker).2 =
          ⟨r.live.insert first worker, r.refs.insert worker first, r.free.erase first, r.fresh⟩ := by
        simp [Registry.allocate, known, keys]
      obtain ⟨_, given⟩ := Table.memKeys.mp (show first ∈ r.free.keys by simp [keys])
      have inside := (consistent.whole first).mp (.inl (by simp [given]))
      rw [same]
      refine ⟨consistent.insert known (consistent.apart given) (fun other different => ?_)
        (by simp) (fun other => ?_) ?_, .inl rfl⟩
      · simp [different]
      · refine ⟨.inr, ?_⟩
        rintro (rfl | within)
        · exact inside
        · exact within
      · rw [Table.sizeErase given] at count
        omega
    | nil =>
      have same : (r.allocate worker).2 =
          ⟨r.live.insert r.fresh worker, r.refs.insert worker r.fresh, r.free, r.fresh + 1⟩ := by
        simp [Registry.allocate, known, keys]
      obtain ⟨free, vacant⟩ := consistent.freshUnused
      have empty : r.free.size = 0 := by
        rw [Table.keys, List.map_eq_nil_iff] at keys
        rw [Table.size, keys, List.length_nil]
      have grown : (r.live.insert r.fresh worker).size = r.fresh.toNat := by
        rw [Table.sizeInsert _ vacant]
        omega
      rw [same, size, grown] at room
      have next : (r.fresh + 1).toNat = r.fresh.toNat + 1 := by
        rw [UInt32.toNat_add, UInt32.toNat_one]
        omega
      rw [same]
      refine ⟨consistent.insert known vacant (fun _ _ => rfl) free (fun other => ?_) ?_,
        .inr ⟨next, grown⟩⟩
      · have positive := consistent.freshPositive
        simp only [UInt32.lt_iff_toNat_lt, next, UInt32.toNat_zero, ← UInt32.toNat_inj]
          at positive ⊢
        omega
      · omega

end Consistent

inductive Call (ω : Type) where
  | allocate (worker : ω)
  | release (ref : WorkerRef)
  | lookup (ref : WorkerRef)
  | refOf (worker : ω)
  | clear

def after (r : Registry ω) : Call ω → Registry ω
  | .allocate worker => (r.allocate worker).2
  | .release ref => (r.release ref).2
  | .lookup _ | .refOf _ => r
  | .clear => r.clear

def run (r : Registry ω) (calls : List (Call ω)) : Registry ω := calls.foldl after r

/- The largest number of workers at a time since all were last forgotten; it was `most` before. -/
def peak (r : Registry ω) (most : Nat) : List (Call ω) → Nat
  | [] => most
  | .clear :: rest => r.clear.peak 0 rest
  | call :: rest => (r.after call).peak (max most (r.after call).size) rest

def Roomy (r : Registry ω) (calls : List (Call ω)) : Prop :=
  ∀ before, before <+: calls → (r.run before).size ≤ 4294967294

theorem Roomy.next {call : Call ω} {rest : List (Call ω)} (roomy : r.Roomy (call :: rest)) :
    (r.after call).size ≤ 4294967294 ∧ (r.after call).Roomy rest :=
  ⟨roomy [call] ⟨rest, rfl⟩, fun before inside =>
    roomy (call :: before) (List.cons_prefix_cons.mpr ⟨rfl, inside⟩)⟩

theorem runConsistent (consistent : r.Consistent) {most : Nat} (bound : r.fresh.toNat ≤ most + 1)
    {calls : List (Call ω)} (roomy : r.Roomy calls) :
    (r.run calls).Consistent ∧ (r.run calls).fresh.toNat ≤ r.peak most calls + 1 := by
  induction calls generalizing r most with
  | nil => exact ⟨consistent, bound⟩
  | cons call rest ih =>
    obtain ⟨room, later⟩ := roomy.next
    cases call with
    | allocate worker =>
      obtain ⟨still, counter⟩ := consistent.allocate room
      refine ih still ?_ later
      show (r.allocate worker).2.fresh.toNat ≤ max most (r.allocate worker).2.size + 1
      rcases counter with same | ⟨next, full⟩
      · rw [same]
        omega
      · omega
    | release ref =>
      have same : (r.release ref).2.fresh = r.fresh := by
        unfold Registry.release
        split <;> rfl
      refine ih (consistent.release ref) ?_ later
      show (r.release ref).2.fresh.toNat ≤ max most (r.release ref).2.size + 1
      rw [same]
      omega
    | lookup | refOf => exact ih consistent (by omega) later
    | clear => exact ih newConsistent (Nat.le_refl 1) later

/- The two tables are inverse to each other, the references are the least there can be, and the
counter does not run over. -/
theorem referencesLeast (calls : List (Call ω)) (roomy : ({} : Registry ω).Roomy calls) :
    let r := ({} : Registry ω).run calls
    (∀ ref worker, r.refs.get? worker = some ref ↔ r.live.get? ref = some worker) ∧
    (∀ ref worker, r.refOf worker = some ref ↔ r.lookup ref = .ok worker) ∧
    (∀ ref, ¬ (r.free.contains ref ∧ r.live.contains ref)) ∧
    (∀ ref, r.free.contains ref ∨ r.live.contains ref ↔ 0 < ref ∧ ref < r.fresh) ∧
    r.fresh.toNat - 1 ≤ ({} : Registry ω).peak 0 calls ∧
    (∀ worker, r.refOf worker = none →
      0 < (r.allocate worker).1 ∧ r.live.get? (r.allocate worker).1 = none ∧
      ∀ other, 0 < other → other < (r.allocate worker).1 → (r.live.get? other).isSome) ∧
    (∀ worker, (r.allocate worker).2.size ≤ 4294967294 →
      (r.allocate worker).2.fresh.toNat = r.fresh.toNat ∨
      (r.allocate worker).2.fresh.toNat = r.fresh.toNat + 1) ∧
    (∀ worker, (r.allocate worker).2.refOf worker = some (r.allocate worker).1 ∧
      (r.allocate worker).2.lookup (r.allocate worker).1 = .ok worker) ∧
    (∀ worker ref, r.refOf worker = some ref → r.allocate worker = (ref, r)) ∧
    (∀ ref worker, r.lookup ref = .ok worker → (r.release ref).1 = some worker ∧
      (r.release ref).2.refOf worker = none ∧
      (r.release ref).2.lookup ref = .error (.refNotFound ref)) ∧
    (∀ ref, r.live.get? ref = none → r.release ref = (none, r)) := by
  intro r
  obtain ⟨consistent, bound⟩ := runConsistent newConsistent (Nat.le_refl (0 + 1)) roomy
  change r.Consistent at consistent
  change r.fresh.toNat ≤ _ at bound
  refine ⟨fun _ _ => consistent.inverse, fun _ _ => consistent.inverse.trans lookupIff.symm, ?_,
    consistent.whole, by omega, fun worker => consistent.least, fun worker room => ?_,
    fun worker => ?_, ?_, fun ref worker found => ?_, ?_⟩
  · rintro ref ⟨free, live⟩
    obtain ⟨_, given⟩ := Option.isSome_iff_exists.mp free
    rw [Table.contains, consistent.apart given] at live
    contradiction
  · rcases (consistent.allocate room).2 with same | ⟨next, -⟩
    · exact .inl (congrArg UInt32.toNat same)
    · exact .inr next
  · rcases allocated : r.allocate worker with ⟨ref, r'⟩
    obtain ⟨known, rfl⟩ | ⟨-, free, fresh, rfl⟩ := allocateCases allocated
    · exact ⟨known, lookupIff.mpr (consistent.inverse.mp known)⟩
    · exact ⟨by simp [refOf], lookupIff.mpr (by simp)⟩
  · intro worker ref known
    simp [Registry.allocate, known]
  · have live := lookupIff.mp found
    refine ⟨by simp [Registry.release, live], ?_, ?_⟩
    · exact Option.eq_none_iff_forall_ne_some.mpr fun other known =>
        ((releaseRefs ..).mp known).1 live
    · simp [lookup, releaseLive]
  · intro ref absent
    simp [Registry.release, absent]

def reused : List (Call Nat) :=
  [.allocate 10, .allocate 11, .allocate 12, .allocate 13, .allocate 14, .release 4, .release 2,
    .allocate 20]

theorem reusedLeast :
    ({} : Registry Nat).Roomy reused ∧
    (({} : Registry Nat).run reused).refOf 20 = some 2 ∧
    (({} : Registry Nat).run reused).lookup 2 = .ok 20 ∧
    (({} : Registry Nat).run reused).fresh.toNat - 1 ≤ ({} : Registry Nat).peak 0 reused ∧
    ({} : Registry Nat).peak 0 reused = 5 := by
  have roomy : ({} : Registry Nat).Roomy reused := by
    intro before inside
    have all : ∀ before ∈ reused.inits,
      (({} : Registry Nat).run before).size ≤ 4294967294 := by decide +kernel
    exact all before ((List.mem_inits _ _).mpr inside)
  obtain ⟨-, inverse, -, -, bound, -⟩ := referencesLeast reused roomy
  have known : (({} : Registry Nat).run reused).refOf 20 = some 2 := by decide +kernel
  exact ⟨roomy, known, (inverse 2 20).mp known, bound, by decide +kernel⟩

end RemoteEval.Registry
