import RemoteEval.Sexp.Reader

/-! What the reader can hold. One relation says what a character does to the reader, between
two tokens (`Passes`) and anywhere (`Feeds`); everything else here follows from it. The count
of parentheses that guards the reader moves with the open lists, and each value that the reader
has put together is proper and nests no deeper than that count has gone. So a text that is read
gives a proper value of a bounded depth. Which texts are read is not said here. -/
namespace RemoteEval.Sexp
open Text (isBlank)

def isKeywordName (name : String) : Bool :=
  !name.toList.isEmpty && name.toList.all fun c => isAtomChar c && c != ':'

mutual
/-- The value has no empty list in it, and every keyword in it has a name that can be read. -/
def isProper : Sexp → Bool
  | .keyword name => isKeywordName name
  | .list items => !items.isEmpty && allProper items
  | _ => true

def allProper : List Sexp → Bool
  | [] => true
  | v :: rest => v.isProper && allProper rest
end

theorem allProperIff {items : List Sexp} :
    allProper items = true ↔ ∀ v ∈ items, v.isProper = true := by
  induction items with
  | nil => simp [allProper]
  | cons v rest ih => simp [allProper, ih]

theorem ofItemsProper {items : List Sexp} :
    (ofItems items).isProper = true ↔ ∀ v ∈ items, v.isProper = true := by
  cases items with
  | nil => simp [ofItems, isProper]
  | cons v rest => simp [ofItems, isProper, allProperIff]

mutual
def isFilled : Sexp → Bool
  | .list items => !items.isEmpty && allFilled items
  | _ => true

def allFilled : List Sexp → Bool
  | [] => true
  | v :: rest => v.isFilled && allFilled rest
end

theorem allFilledIff {items : List Sexp} :
    allFilled items = true ↔ ∀ v ∈ items, v.isFilled = true := by
  induction items with
  | nil => simp [allFilled]
  | cons v rest ih => simp [allFilled, ih]

theorem ofItemsFilled {items : List Sexp} :
    (ofItems items).isFilled = true ↔ ∀ v ∈ items, v.isFilled = true := by
  cases items with
  | nil => simp [ofItems, isFilled]
  | cons v rest => simp [ofItems, isFilled, allFilledIff]

mutual
theorem properFilled : ∀ v : Sexp, v.isProper = true → v.isFilled = true
  | .nil, _ | .int _, _ | .str _, _ | .symbol _, _ | .keyword _, _ => rfl
  | .list items, proper => by
    simp only [isProper, Bool.and_eq_true] at proper
    simp only [isFilled, Bool.and_eq_true]
    exact ⟨proper.1, allProperFilled items proper.2⟩

theorem allProperFilled : ∀ items : List Sexp, allProper items = true → allFilled items = true
  | [], _ => rfl
  | v :: rest, proper => by
    simp only [allProper, Bool.and_eq_true] at proper
    simp only [allFilled, Bool.and_eq_true]
    exact ⟨properFilled v proper.1, allProperFilled rest proper.2⟩
end

theorem depthOfItemsLe {items : List Sexp} {bound : Nat} :
    depthOfItems items ≤ bound ↔ ∀ v ∈ items, v.depth ≤ bound := by
  induction items with
  | nil => simp [depthOfItems]
  | cons v rest ih => rw [depthOfItems, Nat.max_le, ih, List.forall_mem_cons]

theorem ofItemsNonempty {items : List Sexp} (nonempty : items ≠ []) :
    ofItems items = .list items := by
  cases items with
  | nil => contradiction
  | cons v rest => rfl

def Fits (bound outer : Nat) (v : Sexp) : Prop := v.isProper = true ∧ v.depth + outer ≤ bound

theorem Fits.mono {bound bound' outer v} (fits : Fits bound outer v) (le : bound ≤ bound') :
    Fits bound' outer v := ⟨fits.1, Nat.le_trans fits.2 le⟩

theorem fitsAtom {bound outer : Nat} {v : Sexp} (proper : v.isProper = true) (flat : v.depth = 0)
    (height : outer ≤ bound) : Fits bound outer v := ⟨proper, by omega⟩

theorem fitsList {bound outer : Nat} {items : List Sexp} : Fits bound outer (.list items) ↔
    items ≠ [] ∧ outer + 1 ≤ bound ∧ ∀ v ∈ items, Fits bound (outer + 1) v := by
  have deep : depthOfItems items + 1 + outer ≤ bound ↔
      outer + 1 ≤ bound ∧ ∀ v ∈ items, v.depth ≤ bound - (outer + 1) := by
    rw [← depthOfItemsLe]
    omega
  simp only [Fits, isProper, depth, deep, Bool.and_eq_true, Bool.not_eq_true',
    List.isEmpty_eq_false_iff, allProperIff]
  constructor
  · rintro ⟨⟨nonempty, proper⟩, room, shallow⟩
    refine ⟨nonempty, room, fun v mem => ⟨proper v mem, ?_⟩⟩
    have := shallow v mem
    omega
  · rintro ⟨nonempty, room, fit⟩
    refine ⟨⟨nonempty, fun v mem => (fit v mem).1⟩, room, fun v mem => ?_⟩
    have := (fit v mem).2
    omega

theorem fitsOfItems {bound outer : Nat} {items : List Sexp}
    (fits : ∀ v ∈ items, Fits bound (outer + 1) v) (room : outer + 1 ≤ bound) :
    Fits bound outer (ofItems items) := by
  cases items with
  | nil => exact fitsAtom rfl rfl (by omega)
  | cons v rest => exact fitsList.mpr ⟨by simp, room, fits⟩

theorem atomCharPlain {c : Char} (atom : isAtomChar c = true) :
    isBlank c = false ∧ c ≠ '(' ∧ c ≠ ')' ∧ c ≠ '"' ∧ c ≠ '|' ∧ c ≠ '\\' := by
  simp only [isAtomChar, Bool.and_eq_true, Bool.not_eq_true', Bool.or_eq_false_iff,
    beq_eq_false_iff_ne] at atom
  grind

theorem blankPlain {c : Char} (blank : isBlank c = true) :
    isAtomChar c = false ∧ c ≠ '(' ∧ c ≠ ')' ∧ c ≠ '"' ∧ c ≠ '|' := by
  refine ⟨by simp [isAtomChar, blank], ?_, ?_, ?_, ?_⟩ <;> rintro rfl <;> revert blank <;> decide

theorem classifyAtom {atom : List Char} {v : Sexp} (read : classify atom = some v)
    (chars : ∀ c ∈ atom, isAtomChar c = true) : v.isProper = true ∧ v.depth = 0 := by
  simp only [classify] at read
  split at read
  · simp only [Option.bind_eq_bind, Option.bind_eq_some_iff, Option.map_eq_some_iff] at read
    obtain ⟨_, _, i, _, rfl⟩ := read
    exact ⟨rfl, rfl⟩
  · split at read
    next name =>
      split at read
      · contradiction
      next named =>
        cases read
        refine ⟨?_, rfl⟩
        simp only [Bool.or_eq_true, not_or, Bool.not_eq_true] at named
        simp only [isProper, isKeywordName, String.toList_ofList, named.1, Bool.not_false,
          Bool.true_and, List.all_eq_true, Bool.and_eq_true, bne_iff_ne]
        intro c mem
        refine ⟨chars c (List.mem_cons_of_mem _ mem), ?_⟩
        rintro rfl
        simpa [mem] using named.2
    · split at read <;> cases read <;> exact ⟨rfl, rfl⟩

def Mode.scan : Mode → Scan
  | .gap | .atom _ => .outside
  | .inside kind _ => .inside kind.delimiter
  | .escaped kind _ => .escaped kind.delimiter

namespace Reader

inductive Adds (r : Reader) (v : Sexp) : Reader → Prop where
  | item {items outer} (lists : r.lists = items :: outer) :
      Adds r v { r with mode := .gap, lists := (v :: items) :: outer }
  | value (lists : r.lists = []) (first : r.value = none) :
      Adds r v { r with mode := .gap, value := some v }

theorem addAdds {r r' : Reader} {v : Sexp} (added : r.add v = some r') : r.Adds v r' := by
  unfold add at added
  split at added
  next lists => cases added; exact .item lists
  next lists value => cases added; exact .value lists value
  · contradiction

theorem Adds.gap {r v r'} (adds : Adds r v r') : r'.mode = .gap := by cases adds <;> rfl

theorem Adds.height {r v r'} (adds : Adds r v r') : r'.lists.length = r.lists.length := by
  cases adds with
  | item lists => simp [lists]
  | value lists => rfl

inductive Passes (r : Reader) : Char → Reader → Prop where
  | blank {c} (blank : isBlank c = true) : Passes r c r
  | opened : Passes r '(' { r with lists := [] :: r.lists }
  | closed {items outer r'} (lists : r.lists = items :: outer)
      (adds : Adds { r with lists := outer } (ofItems items.reverse) r') : Passes r ')' r'
  | delimited (kind : Delimited) : Passes r kind.delimiter { r with mode := .inside kind [] }
  | begun {c} (atom : isAtomChar c = true) : Passes r c { r with mode := .atom [c] }

theorem betweenPasses {r r' : Reader} {c : Char} (passed : r.between c = some r') :
    r.Passes c r' := by
  unfold between at passed
  split at passed
  next blank => cases passed; exact .blank blank
  split at passed
  next paren => cases passed; cases eq_of_beq paren; exact .opened
  split at passed
  next paren =>
    cases eq_of_beq paren
    split at passed
    next lists => exact .closed lists (addAdds passed)
    · contradiction
  split at passed
  next quote => cases passed; cases eq_of_beq quote; exact .delimited .string
  split at passed
  next bar => cases passed; cases eq_of_beq bar; exact .delimited .bars
  split at passed
  next atom => cases passed; exact .begun atom
  · contradiction

inductive Feeds (r : Reader) : Char → Reader → Prop where
  | gap {c r'} (mode : r.mode = .gap) (passes : Passes r c r') : Feeds r c r'
  | longer {c seen} (mode : r.mode = .atom seen) (atom : isAtomChar c = true) :
      Feeds r c { r with mode := .atom (c :: seen) }
  | ended {c seen v e r'} (mode : r.mode = .atom seen) (other : isAtomChar c = false)
      (value : classify seen.reverse = some v) (adds : Adds r v e) (passes : Passes e c r') :
      Feeds r c r'
  | backslash {kind seen} (mode : r.mode = .inside kind seen) :
      Feeds r '\\' { r with mode := .escaped kind seen }
  | closed {kind seen r'} (mode : r.mode = .inside kind seen)
      (adds : Adds r (kind.value seen.reverse) r') : Feeds r kind.delimiter r'
  | inner {c kind seen} (mode : r.mode = .inside kind seen) (plain : c ≠ '\\')
      (within : c ≠ kind.delimiter) : Feeds r c { r with mode := .inside kind (c :: seen) }
  | quoted {c kind seen} (mode : r.mode = .escaped kind seen) :
      Feeds r c { r with mode := .inside kind (c :: seen) }

theorem endAtomAdds {r e : Reader} {seen : List Char} (mode : r.mode = .atom seen)
    (ended : r.endAtom = some e) : ∃ v, classify seen.reverse = some v ∧ r.Adds v e := by
  simp only [endAtom, mode, Option.bind_eq_some_iff] at ended
  obtain ⟨v, value, added⟩ := ended
  exact ⟨v, value, addAdds added⟩

theorem feedFeeds {r r' : Reader} {c : Char} (fed : r.feed c = some r') : r.Feeds c r' := by
  unfold feed at fed
  split at fed
  next mode => exact .gap mode (betweenPasses fed)
  next seen mode =>
    split at fed
    next atom => cases fed; exact .longer mode atom
    next other =>
      obtain ⟨e, ended, passed⟩ := Option.bind_eq_some_iff.mp fed
      obtain ⟨v, value, adds⟩ := endAtomAdds mode ended
      exact .ended mode (by simpa using other) value adds (betweenPasses passed)
  next kind seen mode =>
    split at fed
    next backslash => cases fed; cases eq_of_beq backslash; exact .backslash mode
    next plain =>
      split at fed
      next delimiter => cases eq_of_beq delimiter; exact .closed mode (addAdds fed)
      next within => cases fed; exact .inner mode (by simpa using plain) (by simpa using within)
  next kind seen mode => cases fed; exact .quoted mode

theorem Passes.scan {r c r'} (passes : Passes r c r') (gap : r.mode = .gap) {deepest : Nat}
    (height : r.lists.length ≤ deepest) (cs : List Char) :
    scanDepth .outside r.lists.length deepest (c :: cs) =
      scanDepth r'.mode.scan r'.lists.length (max deepest r'.lists.length) cs := by
  cases passes with
  | blank blank =>
    have plain := (blankPlain blank).2
    simp [scanDepth, plain, gap, Mode.scan, Nat.max_eq_left height]
  | opened => simp [scanDepth, gap, Mode.scan]
  | @closed items outer r' lists adds =>
    have same : r'.lists.length = outer.length := adds.height
    simp only [lists, List.length_cons] at height
    have lower : outer.length ≤ deepest := by omega
    simp [scanDepth, lists, same, adds.gap, Mode.scan, Nat.max_eq_left lower]
  | delimited kind =>
    cases kind <;> simp [scanDepth, Mode.scan, Delimited.delimiter, Nat.max_eq_left height]
  | begun atom =>
    have plain := atomCharPlain atom
    simp [scanDepth, plain, Mode.scan, Nat.max_eq_left height]

theorem Feeds.scan {r c r'} (feeds : Feeds r c r') {deepest : Nat}
    (height : r.lists.length ≤ deepest) (cs : List Char) :
    scanDepth r.mode.scan r.lists.length deepest (c :: cs) =
      scanDepth r'.mode.scan r'.lists.length (max deepest r'.lists.length) cs := by
  cases feeds with
  | gap mode passes =>
    rw [mode]
    exact passes.scan mode height cs
  | longer mode atom =>
    have plain := atomCharPlain atom
    simp [mode, Mode.scan, scanDepth, plain, Nat.max_eq_left height]
  | ended mode _ value adds passes =>
    have same := adds.height
    rw [mode, Mode.scan, ← same]
    exact passes.scan adds.gap (same ▸ height) cs
  | backslash mode => simp [mode, Mode.scan, scanDepth, Nat.max_eq_left height]
  | @closed kind _ _ mode adds =>
    have plain : kind.delimiter ≠ '\\' := by cases kind <;> decide
    simp [mode, Mode.scan, scanDepth, plain, adds.height, adds.gap, Nat.max_eq_left height]
  | inner mode plain within =>
    simp [mode, Mode.scan, scanDepth, plain, within, Nat.max_eq_left height]
  | quoted mode => simp [mode, Mode.scan, scanDepth, Nat.max_eq_left height]

def ItemsFit (bound : Nat) : List (List Sexp) → Prop
  | [] => True
  | items :: outer => (∀ v ∈ items, Fits bound (outer.length + 1) v) ∧ ItemsFit bound outer

theorem ItemsFit.mono {bound bound' : Nat} (le : bound ≤ bound') :
    ∀ {lists}, ItemsFit bound lists → ItemsFit bound' lists
  | [], _ => trivial
  | _ :: _, fit => ⟨fun v mem => (fit.1 v mem).mono le, ItemsFit.mono le fit.2⟩

/- Nothing that the reader holds is improper or, in its place, nested deeper than `bound`. -/
structure Sound (r : Reader) (bound : Nat) : Prop where
  atom : ∀ seen, r.mode = .atom seen → ∀ c ∈ seen, isAtomChar c = true
  height : r.lists.length ≤ bound
  items : ItemsFit bound r.lists
  value : ∀ v, r.value = some v → Fits bound 0 v

theorem soundEmpty : Sound {} 0 where
  atom := by simp
  height := Nat.le_refl 0
  items := trivial
  value := by simp

theorem Sound.mono {r bound bound'} (sound : Sound r bound) (le : bound ≤ bound') :
    Sound r bound' where
  atom := sound.atom
  height := Nat.le_trans sound.height le
  items := sound.items.mono le
  value v known := (sound.value v known).mono le

theorem Sound.withMode {r bound} (sound : Sound r bound) {mode : Mode}
    (plain : ∀ seen, mode = .atom seen → ∀ c ∈ seen, isAtomChar c = true) :
    Sound { r with mode } bound :=
  ⟨plain, sound.height, sound.items, sound.value⟩

theorem Sound.adds {r v r' bound} (sound : Sound r bound) (adds : Adds r v r')
    (fits : Fits bound r.lists.length v) : Sound r' bound := by
  have height := sound.height
  cases adds with
  | item lists =>
    have items := sound.items
    rw [lists] at fits items height
    refine ⟨by simp, height, ⟨?_, items.2⟩, sound.value⟩
    intro w mem
    rcases List.mem_cons.mp mem with rfl | older
    · exact fits
    · exact items.1 w older
  | value lists first =>
    rw [lists] at fits
    exact ⟨by simp, height, sound.items, fun w known => Option.some.inj known ▸ fits⟩

theorem Sound.passes {r c r' bound} (sound : Sound r bound) (passes : Passes r c r') :
    Sound r' (max bound r'.lists.length) := by
  cases passes with
  | blank => exact sound.mono (Nat.le_max_left _ _)
  | opened =>
    have wider := sound.mono (Nat.le_max_left bound (r.lists.length + 1))
    exact ⟨wider.atom, Nat.le_max_right _ _, ⟨by simp, wider.items⟩, wider.value⟩
  | @closed items outer r' lists adds =>
    have height := sound.height
    have fit := sound.items
    rw [lists] at height fit
    have inner : Sound { r with lists := outer } bound :=
      ⟨sound.atom, Nat.le_of_succ_le height, fit.2, sound.value⟩
    have fits : Fits bound outer.length (ofItems items.reverse) :=
      fitsOfItems (fun v mem => fit.1 v (List.mem_reverse.mp mem)) height
    exact (inner.adds adds fits).mono (Nat.le_max_left _ _)
  | delimited => exact (sound.withMode (by simp)).mono (Nat.le_max_left _ _)
  | begun atom => exact (sound.withMode (by simpa using atom)).mono (Nat.le_max_left _ _)

theorem Sound.endsAtom {r seen v e bound} (sound : Sound r bound) (mode : r.mode = .atom seen)
    (value : classify seen.reverse = some v) (adds : Adds r v e) : Sound e bound := by
  have chars := sound.atom seen mode
  obtain ⟨proper, flat⟩ := classifyAtom value fun c mem => chars c (List.mem_reverse.mp mem)
  exact sound.adds adds (fitsAtom proper flat sound.height)

theorem Sound.feeds {r c r' bound} (sound : Sound r bound) (feeds : Feeds r c r') :
    Sound r' (max bound r'.lists.length) := by
  cases feeds with
  | gap mode passes => exact sound.passes passes
  | @longer c seen mode atom =>
    refine (sound.withMode ?_).mono (Nat.le_max_left _ _)
    simpa [atom] using sound.atom seen mode
  | ended mode _ value adds passes => exact (sound.endsAtom mode value adds).passes passes
  | backslash => exact (sound.withMode (by simp)).mono (Nat.le_max_left _ _)
  | @closed kind seen r' mode adds =>
    have flat : Fits bound r.lists.length (kind.value seen.reverse) := by
      cases kind <;> exact fitsAtom rfl rfl sound.height
    exact (sound.adds adds flat).mono (Nat.le_max_left _ _)
  | inner => exact (sound.withMode (by simp)).mono (Nat.le_max_left _ _)
  | quoted => exact (sound.withMode (by simp)).mono (Nat.le_max_left _ _)

theorem feedAllCons {r e : Reader} {c : Char} {cs : List Char}
    (fed : r.feedAll (c :: cs) = some e) : ∃ m, r.feed c = some m ∧ m.feedAll cs = some e := by
  simp only [feedAll] at fed
  split at fed
  next m first => exact ⟨m, first, fed⟩
  · contradiction

theorem feedAllSound {cs : List Char} {r e : Reader} {deepest : Nat} (sound : Sound r deepest)
    (fed : r.feedAll cs = some e) : Sound e (scanDepth r.mode.scan r.lists.length deepest cs) := by
  induction cs generalizing r deepest with
  | nil =>
    cases fed
    simpa [scanDepth] using sound
  | cons c cs ih =>
    obtain ⟨m, first, rest⟩ := feedAllCons fed
    have feeds := feedFeeds first
    rw [feeds.scan sound.height]
    exact ih (sound.feeds feeds) rest

theorem finishFits {r : Reader} {v : Sexp} {bound : Nat} (sound : Sound r bound)
    (finished : r.finish = some v) : Fits bound 0 v := by
  unfold finish at finished
  split at finished
  next value ended =>
    subst finished
    cases mode : r.mode with
    | atom seen =>
      obtain ⟨w, read, adds⟩ := endAtomAdds mode ended
      exact (sound.endsAtom mode read adds).value v rfl
    | gap | inside | escaped =>
      simp only [endAtom, mode, Option.some.injEq] at ended
      exact sound.value v (by rw [ended])
  · contradiction

end Reader

theorem readOk {text : String} {v : Sexp} : read text = .ok v ↔
    nestingDepth text.toList ≤ maxDepth ∧
      ∃ e, Reader.feedAll {} text.toList = some e ∧ e.finish = some v := by
  simp only [read, ← Option.bind_eq_some_iff]
  split
  next deep => simp [Nat.not_le.mpr deep]
  next shallow =>
    rw [and_iff_right (Nat.not_lt.mp shallow)]
    cases (Reader.feedAll {} text.toList).bind Reader.finish <;> simp

theorem readFits {text : String} {v : Sexp} (ok : read text = .ok v) :
    v.isProper = true ∧ v.depth ≤ maxDepth := by
  obtain ⟨shallow, e, fed, finished⟩ := readOk.mp ok
  have sound := Reader.feedAllSound Reader.soundEmpty fed
  exact (Reader.finishFits sound finished).mono shallow

end RemoteEval.Sexp
