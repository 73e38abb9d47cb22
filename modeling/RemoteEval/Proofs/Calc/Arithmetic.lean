import RemoteEval.Calc.Builtin
import RemoteEval.Proofs.Sexp.Atoms

/-! Arithmetic of the calculator beside that of the integers without bound. A fold that gives up at
the first partial result beyond 64 bits has the exact result otherwise; a chain of truncated
divisions comes to one division by the product of the divisors, and leaves the range at a single
step only, that of the least integer by -1. How arguments come by their values is not said here. -/
namespace RemoteEval.Calc

def Beyond (i : Int) : Prop := i < -9223372036854775808 ∨ 9223372036854775807 < i

def exactSum (ns : List Int64) : Int := ns.foldr (fun n total => n.toInt + total) 0

def exactProduct (ns : List Int64) : Int := ns.foldr (fun n total => n.toInt * total) 1

theorem withinSixtyFour (n : Int64) : ¬ Beyond n.toInt := by
  have low := n.le_toInt
  have high := n.toInt_lt
  unfold Beyond
  omega

inductive Exactly (i : Int) (reason : Prop) : Except Condition Int64 → Prop
  | fits {n : Int64} (same : n.toInt = i) (within : ¬ reason) : Exactly i reason (.ok n)
  | exceeds (beyond : reason) : Exactly i reason (.error overflow)

theorem fitExactly (i : Int) : Exactly i (Beyond i) (fit i) := by
  unfold fit
  split
  next n fits =>
    have same := Sexp.int64Iff.mp fits
    exact .fits same (same ▸ withinSixtyFour n)
  next unfit =>
    refine .exceeds ?_
    unfold Sexp.int64? at unfit
    split at unfit
    · contradiction
    · unfold Beyond
      omega

def Leaves (exact : List Int64 → Int) (ns : List Int64) : Prop :=
  ∃ first, first <+: ns ∧ Beyond (exact first)

theorem leavesNil {exact : List Int64 → Int} : Leaves exact [] ↔ Beyond (exact []) := by
  simp [Leaves]

theorem leavesCons {exact : List Int64 → Int} {n : Int64} {ns : List Int64} :
    Leaves exact (n :: ns) ↔ Beyond (exact []) ∨ Leaves (fun first => exact (n :: first)) ns := by
  constructor
  · intro leaves
    obtain ⟨first, start, beyond⟩ := leaves
    obtain rfl | ⟨rest, rfl, further⟩ := List.prefix_cons_iff.mp start
    · exact .inl beyond
    · exact .inr ⟨rest, further, beyond⟩
  · intro leaves
    obtain beyond | ⟨rest, start, beyond⟩ := leaves
    · exact ⟨[], List.nil_prefix, beyond⟩
    · exact ⟨n :: rest, (List.prefix_cons_inj n).mpr start, beyond⟩

theorem foldExactly (step : Int → Int → Int) (exact : Int → List Int64 → Int)
    (base : ∀ i, exact i [] = i)
    (next : ∀ i n ns, exact i (n :: ns) = exact (step i n.toInt) ns)
    (start : Int64) (ns : List Int64) :
    Exactly (exact start.toInt ns) (Leaves (exact start.toInt) ns)
      (ns.foldlM (fun i n => fit (step i.toInt n.toInt)) start) := by
  have here (i : Int64) : ¬ Beyond (exact i.toInt []) := by
    rw [base]
    exact withinSixtyFour i
  induction ns generalizing start with
  | nil => exact .fits (base _).symm fun leaves => here start (leavesNil.mp leaves)
  | cons n ns ih =>
    rw [leavesCons, List.foldlM_cons]
    simp only [next, here, false_or]
    have fitted := fitExactly (step start.toInt n.toInt)
    generalize step start.toInt n.toInt = i at fitted ⊢
    generalize fit i = result at fitted ⊢
    cases fitted with
    | @fits m same => exact same ▸ ih m
    | exceeds beyond =>
      refine .exceeds ⟨[], List.nil_prefix, ?_⟩
      dsimp only
      rwa [base]

theorem sumExactly (ns : List Int64) :
    Exactly (exactSum ns) (Leaves exactSum ns) (sum ns) := by
  have folded := foldExactly (· + ·) (fun i ns => i + exactSum ns) Int.add_zero
    (fun i n ns => (Int.add_assoc i n.toInt (exactSum ns)).symm) 0 ns
  simp only [Int64.toInt_zero, Int.zero_add] at folded
  exact folded

theorem productExactly (ns : List Int64) :
    Exactly (exactProduct ns) (Leaves exactProduct ns) (product ns) := by
  have folded := foldExactly (· * ·) (fun i ns => i * exactProduct ns) Int.mul_one
    (fun i n ns => (Int.mul_assoc i n.toInt (exactProduct ns)).symm) 1 ns
  simp only [Int64.toInt_one, Int.one_mul] at folded
  exact folded

theorem differenceExactly (n m : Int64) (ns : List Int64) :
    Exactly (n.toInt - exactSum (m :: ns)) (Leaves (n.toInt - exactSum ·) (m :: ns))
      (difference (n :: m :: ns)) :=
  foldExactly (· - ·) (fun i ns => i - exactSum ns) Int.sub_zero
    (fun i n ns => (Int.sub_sub i n.toInt (exactSum ns)).symm) n (m :: ns)

theorem tdivTdiv (a b c : Int) : (a.tdiv b).tdiv c = a.tdiv (b * c) := by
  obtain ⟨a, rfl | rfl⟩ := a.eq_nat_or_neg <;> obtain ⟨b, rfl | rfl⟩ := b.eq_nat_or_neg <;>
    obtain ⟨c, rfl | rfl⟩ := c.eq_nat_or_neg <;>
    simp only [Int.neg_tdiv, Int.tdiv_neg, Int.neg_neg, Int.neg_mul, Int.mul_neg, ← Int.ofNat_tdiv,
      ← Int.natCast_mul, Nat.div_div_eq_div_mul]

theorem tdivBeyond {n d : Int64} (beyond : Beyond (n.toInt.tdiv d.toInt)) :
    n.toInt = -9223372036854775808 ∧ d = -1 := by
  have low := n.le_toInt
  have high := n.toInt_lt
  have size : (n.toInt.tdiv d.toInt).natAbs = n.toInt.natAbs / d.toInt.natAbs :=
    Int.natAbs_tdiv n.toInt d.toInt
  have notLarger := Int.natAbs_tdiv_le_natAbs n.toInt d.toInt
  unfold Beyond at beyond
  have least : n.toInt = -9223372036854775808 := by omega
  have largest : n.toInt.natAbs = 9223372036854775808 := by omega
  have unit : d.toInt.natAbs = 1 := by
    rw [largest] at size
    have whole : 9223372036854775808 / d.toInt.natAbs = 9223372036854775808 := by omega
    exact (Nat.div_eq_self.mp whole).resolve_left (by decide)
  obtain one | minusOne := Int.natAbs_eq d.toInt
  · rw [one, unit, Int.natCast_one, Int.tdiv_one] at beyond
    omega
  · rw [unit] at minusOne
    exact ⟨least, Int64.toInt_inj.mp minusOne⟩

/- One of the divisions is that of the least integer by -1, and no divisor before it is zero. Its
dividend is the quotient by all divisors before it. -/
def Overflows (n : Int64) (divisors : List Int64) : Prop :=
  ∃ before after, divisors = before ++ -1 :: after ∧ 0 ∉ before ∧
    n.toInt.tdiv (exactProduct before) = -9223372036854775808

inductive Divided (n : Int64) (divisors : List Int64) : Except Condition Int64 → Prop
  | exactly {q : Int64} (same : q.toInt = n.toInt.tdiv (exactProduct divisors))
      (nonzero : 0 ∉ divisors) (within : ¬ Overflows n divisors) : Divided n divisors (.ok q)
  | byZero (zero : 0 ∈ divisors) (within : ¬ Overflows n divisors) :
      Divided n divisors (.error divisionByZero)
  | exceeds (beyond : Overflows n divisors) : Divided n divisors (.error overflow)

theorem overflowsCons {n d q : Int64} {divisors : List Int64} (nonzero : d ≠ 0)
    (quotient : q.toInt = n.toInt.tdiv d.toInt) :
    Overflows n (d :: divisors) ↔ Overflows q divisors := by
  constructor
  · intro overflows
    obtain ⟨before, after, split, nonzeros, least⟩ := overflows
    cases before with
    | nil =>
      obtain ⟨rfl, rfl⟩ := List.cons.inj split
      refine absurd ?_ (withinSixtyFour q)
      have least : n.toInt = -9223372036854775808 := by simpa [exactProduct] using least
      rw [quotient, least]
      exact .inr (by decide)
    | cons d before =>
      obtain ⟨rfl, rfl⟩ := List.cons.inj split
      refine ⟨before, after, rfl, fun zero => nonzeros (List.mem_cons_of_mem _ zero), ?_⟩
      rw [quotient, tdivTdiv]
      exact least
  · intro overflows
    obtain ⟨before, after, rfl, nonzeros, least⟩ := overflows
    refine ⟨d :: before, after, rfl, ?_, ?_⟩
    · simpa [nonzero.symm] using nonzeros
    · rw [quotient, tdivTdiv] at least
      exact least

theorem dividedCons {n d q : Int64} {divisors : List Int64} {x : Except Condition Int64}
    (nonzero : d ≠ 0) (quotient : q.toInt = n.toInt.tdiv d.toInt) (rest : Divided q divisors x) :
    Divided n (d :: divisors) x := by
  have overflows : Overflows n (d :: divisors) ↔ Overflows q divisors :=
    overflowsCons nonzero quotient
  cases rest with
  | exactly same nonzeros within =>
    refine .exactly ?_ (by simpa [nonzero.symm] using nonzeros) (mt overflows.mp within)
    rw [same, quotient, tdivTdiv]
    rfl
  | byZero zero within => exact .byZero (List.mem_cons_of_mem _ zero) (mt overflows.mp within)
  | exceeds beyond => exact .exceeds (overflows.mpr beyond)

theorem foldDivided (n : Int64) (divisors : List Int64) :
    Divided n divisors (divisors.foldlM divide n) := by
  induction divisors generalizing n with
  | nil =>
    refine .exactly (by simp [exactProduct]) List.not_mem_nil ?_
    intro overflows
    obtain ⟨before, after, split, -⟩ := overflows
    simp at split
  | cons d divisors ih =>
    rw [List.foldlM_cons]
    by_cases zero : d = 0
    · subst zero
      refine .byZero List.mem_cons_self ?_
      intro overflows
      obtain ⟨before, after, split, nonzeros, -⟩ := overflows
      cases before with
      | nil => simp at split
      | cons d before =>
        obtain ⟨rfl, -⟩ := List.cons.inj split
        exact nonzeros List.mem_cons_self
    · rw [divide, if_neg zero]
      have fitted := fitExactly (n.toInt.tdiv d.toInt)
      generalize fit (n.toInt.tdiv d.toInt) = result at fitted ⊢
      cases fitted with
      | @fits q same => exact dividedCons zero same (ih q)
      | exceeds beyond =>
        obtain ⟨least, rfl⟩ := tdivBeyond beyond
        exact .exceeds ⟨[], divisors, rfl, List.not_mem_nil, by simpa [exactProduct] using least⟩

theorem integersOfInts (ns : List Int64) : integers (ns.map .int) = .ok ns := by
  induction ns with
  | nil => rfl
  | cons n ns ih => simp [integers, Sexp.int?, ih, Except.map]

theorem integersOther {args : List Sexp} {v : Sexp}
    (first : args.find? (·.int?.isNone) = some v) : integers args = .error (notAnInteger v) := by
  induction args with
  | nil => simp at first
  | cons arg rest ih =>
    rw [List.find?_cons] at first
    unfold integers
    cases known : arg.int? with
    | none =>
      rw [known] at first
      cases first
      rfl
    | some n =>
      rw [known] at first
      simp [ih first, Except.map]

structure Computes (call : Program Sexp) (i : Int) (reason : Prop) : Prop where
  value : ∀ v, call = .done v → ∃ n : Int64, v = .int n ∧ n.toInt = i
  overflows : call = .signal overflow ↔ reason
  ends : (∃ v, call = .done v) ∨ call = .signal overflow

structure Divides (call : Program Sexp) (n : Int64) (divisors : List Int64) : Prop where
  value : ∀ v, call = .done v →
    ∃ q : Int64, v = .int q ∧ q.toInt = n.toInt.tdiv (exactProduct divisors)
  byZero : call = .signal divisionByZero ↔ 0 ∈ divisors ∧ ¬ Overflows n divisors
  overflows : call = .signal overflow ↔ Overflows n divisors
  ends : (∃ v, call = .done v) ∨ call = .signal divisionByZero ∨ call = .signal overflow

theorem failuresDiffer : (Program.signal overflow : Program Sexp) ≠ .signal divisionByZero :=
  fun same => absurd (Failure.failed.inj (Program.stop.inj same)) (by decide)

theorem exactlyComputes {i : Int} {reason : Prop} {x : Except Condition Int64}
    (exactly : Exactly i reason x) : Computes (ofInteger x) i reason := by
  cases exactly with
  | @fits n same within =>
    refine ⟨?_, ⟨nofun, fun beyond => absurd beyond within⟩, .inl ⟨.int n, rfl⟩⟩
    intro v value
    cases value
    exact ⟨n, rfl, same⟩
  | exceeds beyond => exact ⟨nofun, ⟨fun _ => beyond, fun _ => rfl⟩, .inr rfl⟩

theorem dividedDivides {n : Int64} {divisors : List Int64} {x : Except Condition Int64}
    (divided : Divided n divisors x) : Divides (ofInteger x) n divisors := by
  cases divided with
  | @exactly q same nonzero within =>
    refine ⟨?_, ⟨nofun, fun zero => absurd zero.1 nonzero⟩,
      ⟨nofun, fun beyond => absurd beyond within⟩, .inl ⟨.int q, rfl⟩⟩
    intro v value
    cases value
    exact ⟨q, rfl, same⟩
  | byZero zero within =>
    exact ⟨nofun, ⟨fun _ => ⟨zero, within⟩, fun _ => rfl⟩,
      ⟨fun same => absurd same.symm failuresDiffer, fun beyond => absurd beyond within⟩,
      .inr (.inl rfl)⟩
  | exceeds beyond =>
    exact ⟨nofun, ⟨fun same => absurd same failuresDiffer, fun zero => absurd beyond zero.2⟩,
      ⟨fun _ => beyond, fun _ => rfl⟩, .inr (.inr rfl)⟩

theorem callOfInts (name : String) {f : List Int64 → Except Condition Int64}
    (call : ∀ args, apply name args = ofInteger ((integers args).bind f)) (ns : List Int64) :
    apply name (ns.map .int) = ofInteger (f ns) := by
  rw [call, integersOfInts]
  rfl

theorem callOfOther {name : String} {f : List Int64 → Except Condition Int64}
    (call : ∀ args, apply name args = ofInteger ((integers args).bind f)) {args : List Sexp}
    {v : Sexp} (first : args.find? (·.int?.isNone) = some v) :
    apply name args = .signal (notAnInteger v) := by
  rw [call, integersOther first]
  rfl

theorem arithmeticCall {name : String} (arithmetic : name ∈ ["+", "*", "-", "/"]) :
    ∃ f, ∀ args, apply name args = ofInteger ((integers args).bind f) := by
  simp only [List.mem_cons, List.not_mem_nil, or_false] at arithmetic
  obtain rfl | rfl | rfl | rfl := arithmetic
  · exact ⟨sum, fun _ => rfl⟩
  · exact ⟨product, fun _ => rfl⟩
  · exact ⟨difference, fun _ => rfl⟩
  · exact ⟨quotient, fun _ => rfl⟩

/- What each function of arithmetic comes to, for integers and for anything else. -/
theorem arithmeticExact :
    (∀ ns : List Int64, Computes (apply "+" (ns.map .int)) (exactSum ns) (Leaves exactSum ns)) ∧
    (∀ ns : List Int64,
      Computes (apply "*" (ns.map .int)) (exactProduct ns) (Leaves exactProduct ns)) ∧
    (∀ n : Int64, Computes (apply "-" [.int n]) (-n.toInt) (Beyond (-n.toInt))) ∧
    (∀ (n m : Int64) (ns : List Int64), Computes (apply "-" (.int n :: .int m :: ns.map .int))
      (n.toInt - exactSum (m :: ns)) (Leaves (n.toInt - exactSum ·) (m :: ns))) ∧
    (∀ (n : Int64) (divisors : List Int64),
      Divides (apply "/" (.int n :: divisors.map .int)) n divisors) ∧
    (∀ name ∈ ["-", "/"], apply name [] = .signal (wrongArity name)) ∧
    ∀ name ∈ ["+", "*", "-", "/"], ∀ args : List Sexp, (∃ v ∈ args, v.int? = none) →
      ∃ v, args.find? (·.int?.isNone) = some v ∧
        apply name args = .signal (.error "TYPE-ERROR" s!"The value {v} is not an integer.") := by
  refine ⟨fun ns => ?_, fun ns => ?_, fun n => ?_, fun n m ns => ?_, fun n divisors => ?_, ?_,
    fun name arithmetic args other => ?_⟩
  · rw [callOfInts "+" (fun _ => rfl) ns]
    exact exactlyComputes (sumExactly ns)
  · rw [callOfInts "*" (fun _ => rfl) ns]
    exact exactlyComputes (productExactly ns)
  · exact exactlyComputes (fitExactly (-n.toInt))
  · have call := callOfInts "-" (fun _ => rfl) (n :: m :: ns)
    rw [List.map_cons, List.map_cons] at call
    rw [call]
    exact exactlyComputes (differenceExactly n m ns)
  · have call := callOfInts "/" (fun _ => rfl) (n :: divisors)
    rw [List.map_cons] at call
    rw [call]
    exact dividedDivides (foldDivided n divisors)
  · simp only [List.forall_mem_cons, List.not_mem_nil, false_imp_iff, implies_true, and_true]
    exact ⟨rfl, rfl⟩
  · obtain ⟨f, call⟩ := arithmeticCall arithmetic
    obtain ⟨w, mem, noInteger⟩ := other
    have found : (args.find? (·.int?.isNone)).isSome = true :=
      List.find?_isSome.mpr ⟨w, mem, by rw [noInteger]; rfl⟩
    obtain ⟨v, first⟩ := Option.isSome_iff_exists.mp found
    exact ⟨v, first, callOfOther call first⟩

theorem arithmeticAtLimits :
    apply "+" [.int 9223372036854775807, .int 1, .int (-1)] = .signal overflow ∧
    apply "/" [.int (-9223372036854775808), .int 1, .int (-1), .int 0] = .signal overflow ∧
    (∃ v ∈ [Sexp.int 9223372036854775807, .int 1, .keyword "x"], v.int? = none) ∧
    apply "+" [.int 9223372036854775807, .int 1, .keyword "x"] =
      .signal (.error "TYPE-ERROR" "The value :x is not an integer.") := by
  obtain ⟨sums, -, -, -, divisions, -, others⟩ := arithmeticExact
  have other : ∃ v ∈ [Sexp.int 9223372036854775807, .int 1, .keyword "x"], v.int? = none :=
    ⟨.keyword "x", by simp, rfl⟩
  refine ⟨?_, ?_, other, ?_⟩
  · exact (sums [9223372036854775807, 1, -1]).overflows.mpr
      ⟨[9223372036854775807, 1], ⟨[-1], rfl⟩, .inr (by decide)⟩
  · exact (divisions (-9223372036854775808) [1, -1, 0]).overflows.mpr
      ⟨[1], [0], rfl, by decide, by decide⟩
  · obtain ⟨v, first, same⟩ := others "+" (by simp) _ other
    cases first
    exact same

end RemoteEval.Calc
