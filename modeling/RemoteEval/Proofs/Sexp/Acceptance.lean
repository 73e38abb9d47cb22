import RemoteEval.Proofs.Sexp.Grammar

/-! The reader and the grammar. What the grammar derives, the reader reads: it stands between two
tokens before an expression and after it, once the last atom is ended (`Ends`). What the reader
reads, the grammar derives: at every character the text so far is a row of expressions for each
open list and the beginning of a token (`Spelt`). Together with the guard this says which texts
are read, and as what. -/
namespace RemoteEval.Sexp

namespace Reader

theorem feedAllAppend (r : Reader) (xs ys : List Char) :
    r.feedAll (xs ++ ys) = (r.feedAll xs).bind (·.feedAll ys) := by
  induction xs generalizing r with
  | nil => rfl
  | cons c xs ih =>
    simp only [List.cons_append, feedAll]
    cases r.feed c with
    | none => rfl
    | some next => exact ih next

theorem Passes.atomLast {r c r' seen} (passes : Passes r c r') (gap : r.mode = .gap)
    (mode : r'.mode = .atom seen) : isAtomChar c = true := by
  cases passes with
  | blank | opened => simp [gap] at mode
  | closed lists adds => simp [adds.gap] at mode
  | delimited => simp at mode
  | begun atom => exact atom

theorem Feeds.atomLast {r c r' seen} (feeds : Feeds r c r') (mode : r'.mode = .atom seen) :
    isAtomChar c = true := by
  cases feeds with
  | gap before passes => exact passes.atomLast before mode
  | longer _ atom => exact atom
  | ended _ _ _ adds passes => exact passes.atomLast adds.gap mode
  | closed _ adds => simp [adds.gap] at mode
  | backslash | inner | quoted => simp at mode

theorem feedAllLast {cs : List Char} {r m : Reader} {seen : List Char} (gap : r.mode = .gap)
    (fed : r.feedAll cs = some m) (mode : m.mode = .atom seen) :
    ∃ c, cs.getLast? = some c ∧ isAtomChar c = true := by
  rcases List.eq_nil_or_concat cs with rfl | ⟨front, c, rfl⟩
  · cases fed
    simp [gap] at mode
  · rw [List.concat_eq_append, feedAllAppend] at fed
    obtain ⟨e, _, last⟩ := Option.bind_eq_some_iff.mp fed
    obtain ⟨m', step, same⟩ := feedAllCons last
    cases same
    exact ⟨c, by simp, (feedFeeds step).atomLast mode⟩

/- The characters are whole tokens but for the end of a last atom; with it ended, the reader
is `e`. -/
structure Ends (r : Reader) (cs : List Char) (e : Reader) : Prop where
  gap : e.mode = .gap
  fed : ∃ m, r.feedAll cs = some m ∧ m.endAtom = some e

theorem endAtomGap {r : Reader} (gap : r.mode = .gap) : r.endAtom = some r := by
  simp [endAtom, gap]

theorem feedGap {r : Reader} (gap : r.mode = .gap) (c : Char) : r.feed c = r.between c := by
  simp [feed, gap]

theorem feedEnds {m e : Reader} {c : Char} (ended : m.endAtom = some e) (gap : e.mode = .gap)
    (other : isAtomChar c = false ∨ ∀ seen, m.mode ≠ .atom seen) : m.feed c = e.feed c := by
  cases mode : m.mode with
  | atom seen =>
    have plain := other.resolve_right fun never => never seen mode
    simp [feed, mode, plain, ended, gap]
  | gap | inside | escaped =>
    have same : m = e := by simpa [endAtom, mode] using ended
    rw [same]

theorem Ends.append {r e e' : Reader} {xs ys : List Char} (first : Ends r xs e)
    (gap : r.mode = .gap) (apart : Apart xs ys) (later : Ends e ys e') : Ends r (xs ++ ys) e' := by
  obtain ⟨m, fed, ended⟩ := first.fed
  obtain ⟨m', fed', ended'⟩ := later.fed
  refine ⟨later.gap, ?_⟩
  rw [feedAllAppend, fed, Option.bind_some]
  cases ys with
  | nil =>
    have same : e = m' := Option.some.inj fed'
    have stays : m'.endAtom = some m' := endAtomGap (same ▸ first.gap)
    have last : m' = e' := Option.some.inj (stays.symm.trans ended')
    exact ⟨m, rfl, by rw [ended, same, last]⟩
  | cons d ys =>
    have other : isAtomChar d = false ∨ ∀ seen, m.mode ≠ .atom seen := by
      by_cases atom : ∃ seen, m.mode = .atom seen
      · obtain ⟨seen, mode⟩ := atom
        obtain ⟨c, last, continued⟩ := feedAllLast gap fed mode
        exact .inl (apart c d last rfl continued)
      · exact .inr fun seen mode => atom ⟨seen, mode⟩
    exact ⟨m', by rw [feedAll, feedEnds ended first.gap other]; exact fed', ended'⟩

theorem feedAllBlank {blanks : List Char} (blank : Blank blanks) {r : Reader}
    (gap : r.mode = .gap) : r.feedAll blanks = some r := by
  induction blanks with
  | nil => rfl
  | cons c blanks ih =>
    have step : r.feed c = some r := by simp [feed, gap, between, blank c List.mem_cons_self]
    rw [feedAll, step]
    exact ih fun d mem => blank d (List.mem_cons_of_mem _ mem)

theorem blankEnds {blanks : List Char} (blank : Blank blanks) {r : Reader} (gap : r.mode = .gap) :
    Ends r blanks r :=
  ⟨gap, r, feedAllBlank blank gap, endAtomGap gap⟩

theorem feedAllAtom {cs : List Char} (chars : ∀ c ∈ cs, isAtomChar c = true) {r : Reader}
    {seen : List Char} (mode : r.mode = .atom seen) :
    r.feedAll cs = some { r with mode := .atom (cs.reverse ++ seen) } := by
  induction cs generalizing r seen with
  | nil => simp [feedAll, ← mode]
  | cons c cs ih =>
    have step : r.feed c = some { r with mode := .atom (c :: seen) } := by
      simp [feed, mode, chars c List.mem_cons_self]
    rw [feedAll, step]
    simpa using ih (fun d mem => chars d (List.mem_cons_of_mem _ mem)) rfl

theorem feedAllQuoted {kind : Delimited} {text name : List Char}
    (body : Quoted kind.delimiter text name) {r : Reader} {seen : List Char}
    (mode : r.mode = .inside kind seen) :
    r.feedAll text = some { r with mode := .inside kind (name.reverse ++ seen) } := by
  induction body generalizing r seen with
  | nil => simp [feedAll, ← mode]
  | @plain c text name bare within rest ih =>
    have next := ih (r := { r with mode := .inside kind (c :: seen) }) rfl
    simpa [feedAll, feed, mode, bare, within] using next
  | @backslash c text name rest ih =>
    have next := ih (r := { r with mode := .inside kind (c :: seen) }) rfl
    simpa [feedAll, feed, mode] using next

theorem addWithMode (r : Reader) (mode : Mode) (v : Sexp) : { r with mode }.add v = r.add v := by
  unfold add
  split <;> simp_all

theorem feedAllWord {text : List Char} (nonempty : text ≠ [])
    (chars : ∀ c ∈ text, isAtomChar c = true) {r : Reader} (gap : r.mode = .gap) :
    r.feedAll text = some { r with mode := .atom text.reverse } := by
  obtain ⟨c, cs, rfl⟩ := List.exists_cons_of_ne_nil nonempty
  have first := chars c List.mem_cons_self
  have plain := atomCharPlain first
  have begun : r.feed c = some { r with mode := .atom [c] } := by
    simp [feed, gap, between, plain, first]
  have rest := feedAllAtom (fun d mem => chars d (List.mem_cons_of_mem _ mem))
    (r := { r with mode := .atom [c] }) rfl
  rw [feedAll, begun]
  simpa using rest

theorem atomEnds {text : List Char} {v : Sexp} (nonempty : text ≠ [])
    (chars : ∀ c ∈ text, isAtomChar c = true) (value : Atom text v) {r e : Reader}
    (gap : r.mode = .gap) (added : r.add v = some e) : Ends r text e := by
  refine ⟨(addAdds added).gap, _, feedAllWord nonempty chars gap, ?_⟩
  simpa [endAtom, atomClassified value, addWithMode] using added

theorem delimitedEnds {kind : Delimited} {text name : List Char}
    (body : Quoted kind.delimiter text name) {r e : Reader} (gap : r.mode = .gap)
    (added : r.add (kind.value name) = some e) :
    Ends r (kind.delimiter :: (text ++ [kind.delimiter])) e := by
  have closed := (addAdds added).gap
  refine ⟨closed, e, ?_, endAtomGap closed⟩
  have opened : r.feed kind.delimiter = some { r with mode := .inside kind [] } := by
    cases kind <;> simp [feed, gap, between, Delimited.delimiter, Text.isBlank]
  have inner := feedAllQuoted body (r := { r with mode := .inside kind [] }) rfl
  have plain : kind.delimiter ≠ '\\' := by cases kind <;> decide
  rw [feedAll, opened]
  simp only [feedAllAppend, inner, Option.bind_some, feedAll, feed, beq_iff_eq, plain, if_false,
    if_true, List.append_nil, List.reverse_reverse, addWithMode, added]

end Reader

mutual
theorem exprEnds {text v n} {r e : Reader} (gap : r.mode = .gap) (added : r.add v = some e) :
    Expr text v n → r.Ends text e
  | .delimited kind body => Reader.delimitedEnds body gap added
  | .atom nonempty chars value => Reader.atomEnds nonempty chars value gap added
  | @Expr.list text items _ inner => by
    have opened : r.feed '(' = some { r with lists := [] :: r.lists } := Reader.feedGap gap '('
    have within := itemsEnd (r := { r with lists := [] :: r.lists }) gap rfl inner
    rw [List.append_nil] at within
    have closed : ({ r with lists := items.reverse :: r.lists } : Reader).feed ')' = some e := by
      refine (Reader.feedGap (r := { r with lists := items.reverse :: r.lists }) gap ')').trans ?_
      rw [← added, ← List.reverse_reverse items, List.reverse_reverse items.reverse]
      rfl
    have last : Reader.Ends { r with lists := items.reverse :: r.lists } [')'] e :=
      ⟨(Reader.addAdds added).gap, e, by rw [Reader.feedAll, closed]; rfl,
        Reader.endAtomGap (Reader.addAdds added).gap⟩
    obtain ⟨m, fed, ended⟩ := (within.append gap (apartCons text (by decide)) last).fed
    exact ⟨last.gap, m, by rw [Reader.feedAll, opened]; exact fed, ended⟩

theorem itemsEnd {text vs n} {r : Reader} {seen outer} (gap : r.mode = .gap)
    (lists : r.lists = seen :: outer) :
    Items text vs n → r.Ends text { r with lists := (vs.reverse ++ seen) :: outer }
  | .done blank => by
    have same : { r with lists := seen :: outer } = r := by rw [← lists]
    simpa [same] using Reader.blankEnds blank gap
  | @Items.more _ _ _ v _ _ _ blank first apart later => by
    have added : r.add v = some { r with lists := (v :: seen) :: outer } := by
      simp [Reader.add, lists, gap]
    have one := exprEnds gap added first
    have others := itemsEnd (r := { r with lists := (v :: seen) :: outer }) gap rfl later
    have padded := Reader.blankEnds blank gap
    simpa using padded.append gap (blankApart blank _) (one.append gap apart others)
end

namespace Reader

theorem Ends.finish {cs v} (ends : Ends {} cs { value := some v }) :
    ∃ e, Reader.feedAll {} cs = some e ∧ e.finish = some v := by
  obtain ⟨m, fed, ended⟩ := ends.fed
  exact ⟨m, fed, by rw [Reader.finish, ended]⟩

theorem derivesEnds {text v n} (derives : Derives text v n) :
    Ends {} text { value := some v } := by
  obtain ⟨leading, expr, trailing⟩ := derives
  have value : Ends {} _ { value := some v } := exprEnds rfl rfl expr
  have after := value.append rfl (apartBlank _ trailing) (blankEnds trailing rfl)
  exact (blankEnds leading rfl).append rfl (blankApart leading _) after

/- The text so far, up to the token in progress: a row of expressions outside all lists, and one
in each list that is open. -/
inductive Opens : List (List Sexp) → Option Sexp → List Char → Prop where
  | outermost {text value n} (items : Items text value.toList n) : Opens [] value text
  | inner {outer value before text items n} (outside : Opens outer value before)
      (within : Items text items.reverse n) : Opens (items :: outer) value (before ++ '(' :: text)

inductive Begun : Mode → List Char → Prop where
  | gap : Begun .gap []
  | atom {seen} (nonempty : seen ≠ []) (chars : ∀ c ∈ seen, isAtomChar c = true) :
      Begun (.atom seen) seen.reverse
  | inside {kind seen text} (body : Quoted kind.delimiter text seen.reverse) :
      Begun (.inside kind seen) (kind.delimiter :: text)
  | escaped {kind seen text} (body : Quoted kind.delimiter text seen.reverse) :
      Begun (.escaped kind seen) (kind.delimiter :: (text ++ ['\\']))

def Quiet (text : List Char) : Prop := ∀ c, text.getLast? = some c → isAtomChar c = false

inductive Spelt (r : Reader) : List Char → Prop where
  | mk {before token} (opens : Opens r.lists r.value before) (begun : Begun r.mode token)
      (quiet : r.mode.scan = .outside → Quiet before) : Spelt r (before ++ token)

theorem Opens.append {lists value before more} (opens : Opens lists value before)
    (blank : Blank more) : Opens lists value (before ++ more) := by
  cases opens with
  | outermost items =>
    have joined := itemsAppend (.done blank) items (apartBlank _ blank)
    exact .outermost (by simpa using joined)
  | inner outside within =>
    have joined := itemsAppend (.done blank) within (apartBlank _ blank)
    rw [List.append_assoc, List.cons_append]
    exact .inner outside (by simpa using joined)

theorem Opens.adds {r v r' before text n} (opens : Opens r.lists r.value before)
    (adds : Adds r v r') (expr : Expr text v n) (apart : Apart before text) :
    Opens r'.lists r'.value (before ++ text) := by
  cases adds with
  | item lists =>
    rw [lists] at opens
    cases opens with
    | inner outside within =>
      have tail := @Apart.tail ['('] _ _ apart.tail
      have joined := itemsAppend (itemsOne expr) within tail
      rw [← List.reverse_cons] at joined
      rw [List.append_assoc, List.cons_append]
      exact .inner outside joined
  | value lists first =>
    rw [lists, first] at opens
    cases opens with
    | outermost items =>
      have joined : Items (before ++ text) (some v).toList _ :=
        itemsAppend (itemsOne expr) items apart
      exact lists ▸ .outermost joined

theorem quietSnoc (text : List Char) {c : Char} (other : isAtomChar c = false) :
    Quiet (text ++ [c]) := by
  intro d last
  have same : c = d := by simpa using last
  exact same ▸ other

theorem Quiet.apart {before : List Char} (quiet : Quiet before) (text : List Char) :
    Apart before text := by
  intro c d last _ atom
  rw [quiet c last] at atom
  contradiction

theorem speltGap {r : Reader} {text : List Char} (gap : r.mode = .gap)
    (opens : Opens r.lists r.value text) (quiet : Quiet text) : Spelt r text := by
  have spelt : Spelt r (text ++ []) := .mk opens (gap ▸ .gap) fun _ => quiet
  simpa using spelt

theorem Passes.spelt {r c r' text} (passes : Passes r c r') (gap : r.mode = .gap)
    (opens : Opens r.lists r.value text) (quiet : isAtomChar c = true → Quiet text) :
    Spelt r' (text ++ [c]) := by
  cases passes with
  | blank blank =>
    have more : Blank [c] := by simpa [Blank] using blank
    exact speltGap gap (opens.append more) (quietSnoc text (blankPlain blank).1)
  | opened =>
    have inner : Opens ([] :: r.lists) r.value (text ++ ['(']) :=
      .inner opens (.done blankNil)
    exact speltGap gap inner (quietSnoc text (by decide))
  | closed lists adds =>
    rw [lists] at opens
    cases opens with
    | @inner _ _ before inside _ n outside within =>
      have whole := outside.adds adds (.list within) (apartCons before (by decide))
      rw [List.append_assoc, List.cons_append]
      refine speltGap adds.gap whole ?_
      rw [← List.cons_append, ← List.append_assoc]
      exact quietSnoc _ (by decide)
  | delimited kind => exact .mk opens (@Begun.inside kind [] [] .nil) (by simp [Mode.scan])
  | begun atom =>
    exact .mk opens (@Begun.atom [c] (by simp) (by simpa using atom)) fun _ => quiet atom

theorem quotedSnoc {delimiter : Char} {text name : List Char} (body : Quoted delimiter text name)
    {more : List Char} {c : Char} (last : Quoted delimiter more [c]) :
    Quoted delimiter (text ++ more) (name ++ [c]) := by
  induction body with
  | nil => exact last
  | plain bare within _ ih => exact .plain bare within ih
  | backslash _ ih => exact .backslash ih

theorem Feeds.spelt {r c r' text} (feeds : Feeds r c r') (spelt : Spelt r text) :
    Spelt r' (text ++ [c]) := by
  obtain ⟨opens, begun, quiet⟩ := spelt
  cases feeds with
  | gap mode passes =>
    rw [mode] at begun quiet
    cases begun
    rw [List.append_nil]
    exact passes.spelt mode opens fun _ => quiet rfl
  | @longer _ seen mode atom =>
    rw [mode] at begun quiet
    cases begun with
    | atom nonempty chars =>
      rw [List.append_assoc, ← List.reverse_cons]
      exact .mk opens (.atom (by simp) (List.forall_mem_cons.mpr ⟨atom, chars⟩)) fun _ => quiet rfl
  | @ended _ seen v e _ mode other value adds passes =>
    rw [mode] at begun quiet
    cases begun with
    | atom nonempty chars =>
      have expr : Expr seen.reverse v 0 :=
        .atom (by simpa using nonempty) (by simpa using chars) (classifyAtomic value)
      have whole := opens.adds adds expr ((quiet rfl).apart _)
      exact passes.spelt adds.gap whole fun atom => by simp [other] at atom
  | backslash mode =>
    rw [mode] at begun
    cases begun with
    | inside body =>
      rw [List.append_assoc, List.cons_append]
      exact .mk opens (.escaped body) (by simp [Mode.scan])
  | @closed kind seen _ mode adds =>
    rw [mode] at begun
    cases begun with
    | inside body =>
      have plain : isAtomChar kind.delimiter = false := by cases kind <;> decide
      have whole := opens.adds adds (.delimited kind body) (apartCons _ plain)
      rw [List.append_assoc, List.cons_append]
      refine speltGap adds.gap whole ?_
      rw [← List.cons_append, ← List.append_assoc]
      exact quietSnoc _ plain
  | inner mode plain within =>
    rw [mode] at begun
    cases begun with
    | inside body =>
      rw [List.append_assoc, List.cons_append]
      refine .mk opens (.inside ?_) (by simp [Mode.scan])
      rw [List.reverse_cons]
      exact quotedSnoc body (.plain plain within .nil)
  | quoted mode =>
    rw [mode] at begun
    cases begun with
    | escaped body =>
      rw [List.append_assoc, List.cons_append, List.append_assoc]
      refine .mk opens (.inside ?_) (by simp [Mode.scan])
      rw [List.reverse_cons]
      exact quotedSnoc body (.backslash .nil)

theorem feedAllSpelt {cs text : List Char} {r e : Reader} (spelt : Spelt r text)
    (fed : r.feedAll cs = some e) : Spelt e (text ++ cs) := by
  induction cs generalizing r text with
  | nil =>
    cases fed
    simpa using spelt
  | cons c cs ih =>
    obtain ⟨m, first, rest⟩ := feedAllCons fed
    rw [List.append_cons]
    exact ih ((feedFeeds first).spelt spelt) rest

theorem speltEmpty : Spelt {} [] :=
  speltGap rfl (.outermost (.done blankNil)) (by simp [Quiet])

theorem Spelt.finish {r : Reader} {text : List Char} {v : Sexp} (spelt : Spelt r text)
    (finished : r.finish = some v) : ∃ n, Derives text v n := by
  unfold Reader.finish at finished
  split at finished
  next value ended =>
    subst finished
    have whole : Opens [] (some v) text := by
      obtain ⟨opens, begun, quiet⟩ := spelt
      cases mode : r.mode with
      | atom seen =>
        rw [mode] at begun quiet
        cases begun with
        | atom nonempty chars =>
          obtain ⟨w, read, adds⟩ := endAtomAdds mode ended
          have expr : Expr seen.reverse w 0 :=
            .atom (by simpa using nonempty) (by simpa using chars) (classifyAtomic read)
          exact opens.adds adds expr ((quiet rfl).apart _)
      | gap =>
        rw [mode] at begun
        cases begun
        have same : r = ⟨.gap, [], some v⟩ := by simpa [endAtom, mode] using ended
        rw [same] at opens
        simpa using opens
      | inside | escaped =>
        simp only [endAtom, mode, Option.some.injEq] at ended
        simp [ended] at mode
    cases whole with
    | outermost items => exact ⟨_, derivesItems.mpr items⟩
  · contradiction

end Reader

theorem readDerives {text : String} {v : Sexp} (ok : read text = .ok v) :
    ∃ n, n ≤ maxDepth ∧ Derives text.toList v n := by
  obtain ⟨shallow, e, fed, finished⟩ := readOk.mp ok
  obtain ⟨n, derives⟩ := (Reader.feedAllSpelt Reader.speltEmpty fed).finish finished
  exact ⟨n, derivesNesting derives ▸ shallow, derives⟩

theorem derivesRead {text : String} {v : Sexp} {n : Nat} (derives : Derives text.toList v n)
    (shallow : n ≤ maxDepth) : read text = .ok v :=
  readOk.mpr ⟨derivesNesting derives ▸ shallow, (Reader.derivesEnds derives).finish⟩

/- A text is read as the value that the grammar derives from it, if it derives one and the
derivation nests at most 256 lists. The guard counts just that nesting, and whatever the text, no
more lists are ever open than it has counted. -/
theorem readIffDerived (text : String) :
    (∀ v, read text = .ok v ↔ ∃ n, n ≤ 256 ∧ Derives text.toList v n) ∧
    (∀ v n, Derives text.toList v n → nestingDepth text.toList = n) ∧
    (∀ seen r, seen <+: text.toList → Reader.feedAll {} seen = some r →
      r.lists.length ≤ nestingDepth text.toList) ∧
    (∀ v, read text = .ok v → v.isProper = true) := by
  refine ⟨fun v => ⟨readDerives, ?_⟩, fun v n => derivesNesting, ?_, fun v ok => (readFits ok).1⟩
  · rintro ⟨n, shallow, derives⟩
    exact derivesRead derives shallow
  · rintro seen r ⟨rest, whole⟩ fed
    have height := (Reader.feedAllSound Reader.soundEmpty fed).height
    rw [← whole]
    exact Nat.le_trans height (scanDepthAppend _ _ _ seen rest)

end RemoteEval.Sexp
