import RemoteEval.Calc.Basic
import RemoteEval.Proofs.Exchange.Levels
import RemoteEval.Proofs.Exchange.Places

/-! Where the two sides lose track of each other. If all that is sent can be read, there
are two ways and no other: the worker gives up a read that the client has just answered,
or it answers a request that the client has covered by a later one. -/
namespace RemoteEval

open Client (Machine DebuggerView StackFrame)
open Client.Machine (requestIds)

variable {γ : Type}

def Bonds.outer (β : Bonds) (ref : WorkerRef) : Option RequestId := (β ref).map Bond.outermost

theorem outerOf {β : Bonds} {ref : WorkerRef} {b : Bond} (bound : β ref = some b) :
    β.outer ref = some b.outermost := by
  rw [Bonds.outer, bound]
  rfl

theorem outerFree {β : Bonds} {ref : WorkerRef} (free : β ref = none) : β.outer ref = none := by
  rw [Bonds.outer, free]
  rfl

theorem outerHear {β : Bonds} {a : Author} {b : Bond} {m : Message} {levels}
    (bound : β a.ref = some b) (worker : b.worker = a.id)
    (plain : ∀ id ref, m ≠ .workerAssigned id ref) :
    (β.hear ⟨some a, m, levels⟩).outer = fun ref =>
      if ref = a.ref then (b.hear levels m).map Bond.outermost else β.outer ref := by
  funext ref
  rw [Bonds.outer, hearAuthor plain]
  by_cases this : ref = a.ref
  · simp [this, bound, worker]
  · simp [this, Bonds.outer]

theorem outerSame {β : Bonds} {a : Author} {b b' : Bond} {m : Message} {levels}
    (bound : β a.ref = some b) (worker : b.worker = a.id)
    (plain : ∀ id ref, m ≠ .workerAssigned id ref) (goesOn : b.hear levels m = some b') :
    (β.hear ⟨some a, m, levels⟩).outer = β.outer := by
  rw [outerHear bound worker plain]
  funext ref
  split
  next this =>
    rw [this, goesOn, outerOf bound]
    exact congrArg some (Bond.hearKeeps goesOn).2.1
  · rfl

theorem Based.bare {outermost : RequestId} {stack : List (StackFrame γ)}
    (based : Based outermost stack) (bare : viewsOf stack = []) :
    ∃ k, stack = [.evaluating outermost k] := by
  cases based with
  | @bottom k => exact ⟨k, rfl⟩
  | level => contradiction
  | request => contradiction

namespace Places
variable {sent : List Message} {assigned answered : List RequestId}
  {outer : WorkerRef → Option RequestId} {c c' : Machine γ}

theorem answer (places : Places sent assigned answered outer c)
    (distinct : (sent.filterMap Message.requested?).Nodup) {ref value id}
    (nested : Nested sent ref id) (takes : c.Takes (.returned ref value id) c') :
    Places sent assigned (answered ++ [id]) outer c' := by
  cases takes with
  | told => contradiction
  | unreached waiting =>
    obtain ⟨fresh, _⟩ := places.unbound.mp (by rw [waiting]; rfl)
    exact absurd nested (freshNotNested distinct fresh)
  | orphaned => exact places.forget id
  | @uncovered _ _ _ k levels below _ _ stack above =>
    obtain ⟨outermost, known⟩ := places.occupied (show c.stack ref ≠ [] by simp [stack])
    obtain ⟨based, once, errands⟩ := places.based known
    have other : id ≠ outermost := fun same => places.notNested distinct known (same ▸ nested)
    have ids : requestIds (c.stack ref) = requestIds levels ++ id :: requestIds below := by
      rw [stack, requestIdsAppend]
      rfl
    have fewer : (requestIds (levels ++ below)).Sublist (requestIds (c.stack ref)) := by
      rw [ids, requestIdsAppend]
      exact (List.sublist_cons_self _ _).append_left _
    rw [stack] at based
    refine places.shrink ?_ fewer.subset (fun one member _ => ?_) (fun known => known)
      fun _ _ => rfl
    · rw [known]
      exact .taken (based.uncover above (based.covers other)) (once.sublist fewer)
        fun one member => errands one (fewer.subset member)
    · rw [ids] at member
      simp only [requestIdsAppend, List.mem_append, List.mem_cons] at member ⊢
      tauto

theorem finish (places : Places sent assigned answered outer c)
    (distinct : (sent.filterMap Message.requested?).Nodup) {ref value id}
    (known : outer ref = some id) (bare : viewsOf (c.stack ref) = [])
    (takes : c.Takes (.returned ref value id) c') {outer' : WorkerRef → Option RequestId}
    (free : outer' ref = none) (others : ∀ other, other ≠ ref → outer' other = outer other) :
    Places sent assigned (answered ++ [id]) outer' c' := by
  obtain ⟨k, alone⟩ := (places.based known).1.bare bare
  cases takes with
  | told => contradiction
  | unreached waiting =>
    exact absurd (places.outermost known) (places.unbound.mp (by rw [waiting]; rfl)).2
  | @orphaned _ _ _ k _ left =>
    exact absurd (places.orphaned (Machine.ownerOf left)).1 (places.notNested distinct known)
  | @uncovered _ _ _ k levels below _ _ stack above =>
    rw [alone] at stack
    have empty : levels ++ below = [] := by
      cases levels with
      | nil =>
        cases stack
        rfl
      | cons f rest => simp at stack
    rw [empty]
    refine places.shrink (free ▸ .vacant) (List.nil_subset _) (fun one member _ => ?_) ?_ others
    · rw [alone] at member
      exact .inr member
    · intro one wrong
      rw [free] at wrong
      contradiction

end Places

theorem Places.quiet {sent : List Message} {assigned answered : List RequestId}
    {outer : WorkerRef → Option RequestId} {c : Machine γ}
    (places : Places sent assigned answered outer c) {reads} :
    Places sent (assigned ++ []) (answered ++ []) outer { c with reads } := by
  rw [List.append_nil, List.append_nil]
  exact ⟨places.seated, places.outermost, places.fresh, places.unbound, places.orphaned,
    places.placed⟩

theorem Places.spoken {received sent : List Message} {assigned answered : List RequestId}
    {β : Bonds} {a : Author} {b : Bond} {m : Message} {levels} {c c' : Machine γ}
    (places : Places sent assigned answered β.outer c) (subset : received ⊆ sent)
    (distinct : (sent.filterMap Message.requested?).Nodup) (mirrors : Mirrors c β)
    (bound : β a.ref = some b) (worker : b.worker = a.id)
    (speech : Speech received a.ref b m levels) (takes : c.Takes m c') :
    Places sent (assigned ++ m.assigned?.toList) (answered ++ m.answered?.toList)
      (β.hear ⟨some a, m, levels⟩).outer c' := by
  have known := outerOf bound
  have ending : (β.hear ⟨some a, m, levels⟩).outer = _ := outerHear bound worker speech.plain
  have same : ∀ {b'}, b.hear levels m = some b' → _ := outerSame bound worker speech.plain
  cases speech with
  | output | text | background =>
    rw [same rfl, plainTakes rfl takes]
    exact places.quiet
  | ask =>
    rw [same rfl]
    cases takes with
    | asked => exact places.quiet
    | told => contradiction
  | abortRead asked =>
    rw [same rfl]
    cases takes with
    | aborted => exact places.quiet
    | told => contradiction
  | activate nested =>
    rw [same rfl]
    cases takes with
    | activated => exact places.quiet
    | told => contradiction
  | enter opened frames =>
    rw [same rfl]
    cases takes with
    | told => contradiction
    | @opened _ _ _ _ _ stack next busy =>
      have before : c.stack a.ref = stack := by simp [Machine.stack, busy]
      obtain ⟨based, once, errands⟩ := places.based known
      rw [before] at based once errands
      simp only [Message.assigned?, Option.toList_none, List.append_nil]
      refine places.shrink ?_ ?_ (fun one member _ => .inl ?_) (fun known => known) fun _ _ => rfl
      · rw [known]
        exact .taken (.level based) once errands
      · rw [before]
        exact List.Subset.refl _
      · rw [before] at member
        exact member
  | leave opened =>
    rw [same rfl]
    cases takes with
    | told => contradiction
    | closed stack =>
      simp only [Message.assigned?, Message.answered?, Option.toList_none, List.append_nil]
      exact places.close distinct stack
  | answer value asked other =>
    rw [same (if_neg other)]
    simp only [Message.assigned?, Option.toList_none, List.append_nil]
    exact places.answer distinct (asked.more subset) takes
  | finish value empty =>
    have mirrored : Mirrored (c.stack a.ref) (some b) := bound ▸ mirrors a.ref
    rw [ending]
    simp only [Message.assigned?, Option.toList_none, List.append_nil]
    refine places.finish distinct known (mirrored.bare empty) takes ?_ fun other different => ?_
    · simp [Bond.hear]
    · simp [different]

theorem Places.takes {received sent : List Message} {assigned answered : List RequestId}
    {β : Bonds} {p : Parcel} {c c' : Machine γ}
    (places : Places sent assigned answered β.outer c) (subset : received ⊆ sent)
    (distinct : (sent.filterMap Message.requested?).Nodup) (mirrors : Mirrors c β)
    (legal : Legal received β p) (takes : c.Takes p.message c') :
    Places sent (assigned ++ p.message.assigned?.toList) (answered ++ p.message.answered?.toList)
      (β.hear p).outer c' := by
  cases legal with
  | features | channel | notice =>
    rw [plainTakes rfl takes]
    exact places.quiet
  | reported text gone =>
    rw [hearGone (by simp) gone, plainTakes rfl takes]
    exact places.quiet
  | unknown value gone asked =>
    simp only [Message.assigned?, Option.toList_none, List.append_nil]
    exact places.answer distinct (asked.more subset) takes
  | refused value gone asked =>
    rw [hearGone (by simp) gone]
    simp only [Message.assigned?, Option.toList_none, List.append_nil]
    exact places.answer distinct (asked.more subset) takes
  | @assigned worker ref id free =>
    cases takes with
    | told => contradiction
    | bound waiting =>
      simp only [Message.answered?, Option.toList_none, List.append_nil]
      refine places.bind distinct (outerFree free) waiting ?_ fun other different => ?_
      · simp [Bonds.outer, Bonds.hear]
      · simp [Bonds.outer, Bonds.hear, different]
  | spoken bound worker speech =>
    exact places.spoken subset distinct mirrors bound worker speech takes

def Replied (story : List Happening) (ref : WorkerRef) (tag : Tag) : Prop :=
  ∃ before text after, story = before ++ .sent (.readStringReply ref tag text) :: after ∧
    ∀ p, .heard p ∈ after → p.message ≠ .readStringRequest ref tag

theorem repliedSnoc {story : List Happening} {h : Happening} {ref : WorkerRef} {tag : Tag} :
    Replied (story ++ [h]) ref tag ↔ (∃ text, h = .sent (.readStringReply ref tag text)) ∨
      (Replied story ref tag ∧ ∀ p, h = .heard p → p.message ≠ .readStringRequest ref tag) := by
  constructor
  · rintro ⟨before, text, after, parts, quiet⟩
    rcases List.eq_nil_or_concat after with rfl | ⟨init, last, rfl⟩
    · exact .inl ⟨text, by simpa using (List.append_inj' parts rfl).2⟩
    · rw [List.concat_eq_append, ← List.cons_append, ← List.append_assoc] at parts
      obtain ⟨front, back⟩ := List.append_inj' parts rfl
      cases back
      refine .inr ⟨⟨before, text, init, front, fun p member => quiet p (by simp [member])⟩, ?_⟩
      rintro p rfl
      exact quiet p (by simp)
  · rintro (⟨text, rfl⟩ | ⟨⟨before, text, after, rfl, quiet⟩, other⟩)
    · exact ⟨story, text, [], rfl, by simp⟩
    · refine ⟨before, text, after ++ [h], by simp, fun p member => ?_⟩
      rcases List.mem_append.mp member with earlier | last
      · exact quiet p earlier
      · exact other p (List.mem_singleton.mp last).symm

/- A read that a worker may still give up waits here until it is answered. -/
def Listens (story : List Happening) (β : Bonds) (c : Machine γ) : Prop :=
  ∀ ref b tag, β ref = some b → b.asked = some tag →
    (c.reads.contains (ref, tag) = true ↔ ¬ Replied story ref tag)

theorem Client.Machine.Takes.readsKept {c c' : Machine γ} {m : Message} {ref : WorkerRef}
    {tag : Tag} (takes : c.Takes m c') (ask : ∀ other, m ≠ .readStringRequest ref other)
    (abort : ∀ other, m ≠ .readAborted ref other) (busy : c'.stack ref ≠ []) :
    c'.reads.get? (ref, tag) = c.reads.get? (ref, tag) := by
  have kept : ∀ {d : Machine γ} {own stack}, (d.setStack own stack).stack ref ≠ [] →
      (d.setStack own stack).reads.get? (ref, tag) = d.reads.get? (ref, tag) := by
    intro d own stack busy
    rw [Machine.readsSetStack, if_neg]
    rintro ⟨rfl, rfl⟩
    simp at busy
  cases takes with
  | bound | uncovered | opened => exact kept busy
  | closed => exact (kept busy).trans (by rw [(Machine.orphanRest ..).2.2.1])
  | unreached | orphaned | activated | told => rfl
  | @asked own other =>
    have different : own ≠ ref := fun same => ask other (by rw [same])
    simp [different]
  | @aborted own other =>
    have different : ref ≠ own := fun same => abort other (by rw [same])
    simp [different]

theorem Listens.sends {story : List Happening} {β : Bonds} {c c' : Machine γ} {m : Message}
    (listens : Listens story β c) (sends : c.Sends m c') :
    Listens (story ++ [.sent m]) β c' := by
  intro ref b tag bound asked
  have before := listens ref b tag bound asked
  rw [repliedSnoc]
  cases sends with
  | fresh => simpa using before
  | interrupt => simpa using before
  | nested =>
    rw [Table.contains, Machine.readsSetStack]
    simpa [Table.contains] using before
  | @reply own other text waiting =>
    by_cases same : own = ref ∧ other = tag
    · obtain ⟨rfl, rfl⟩ := same
      simp [Table.contains]
    · have apart : (own, other) ≠ (ref, tag) := by simpa using same
      have distinct : ¬ ∃ line, Happening.sent (.readStringReply own other text) =
          .sent (.readStringReply ref tag line) := by
        rintro ⟨line, equal⟩
        cases equal
        exact same ⟨rfl, rfl⟩
      simp only [distinct, false_or]
      simpa [Table.contains, Ne.symm apart] using before

theorem askedBefore {received : List Message} {β : Bonds} {p : Parcel} {ref : WorkerRef}
    {b' : Bond} {tag : Tag} (legal : Legal received β p) (bound : β.hear p ref = some b')
    (asked : b'.asked = some tag) :
    p.message = .readStringRequest ref tag ∨
    ∃ b, β ref = some b ∧ b.asked = some tag ∧ ∀ other,
      p.message ≠ .readStringRequest ref other ∧ p.message ≠ .readAborted ref other := by
  cases legal with
  | features | channel | notice | unknown => exact .inr ⟨b', bound, asked, by simp⟩
  | reported text gone | refused value gone =>
    rw [hearGone (by simp) gone] at bound
    exact .inr ⟨b', bound, asked, by simp⟩
  | assigned free =>
    simp only [Bonds.hear] at bound
    split at bound
    · cases bound
      contradiction
    · exact .inr ⟨b', bound, asked, by simp⟩
  | @spoken a b m levels known worker speech =>
    rw [hearAuthor speech.plain] at bound
    by_cases here : ref = a.ref
    · subst here
      simp only [if_true, known, Option.bind_some, worker] at bound
      cases speech with
      | ask =>
        cases bound
        cases asked
        exact .inl rfl
      | abortRead =>
        cases bound
        contradiction
      | finish => simp [Bond.hear] at bound
      | answer _ _ other =>
        rw [Bond.hear, if_neg other] at bound
        cases bound
        exact .inr ⟨b, known, asked, by simp⟩
      | output | text | background | enter | leave | activate =>
        cases bound
        exact .inr ⟨b, known, asked, by simp⟩
    · simp only [if_neg here] at bound
      refine .inr ⟨b', bound, asked, ?_⟩
      cases speech with
      | ask | abortRead => simp [Ne.symm here]
      | _ => simp

theorem Listens.takes {received : List Message} {story : List Happening} {β : Bonds} {p : Parcel}
    {c c' : Machine γ} (listens : Listens story β c) (legal : Legal received β p)
    (takes : c.Takes p.message c') (busy : ∀ {ref b}, β.hear p ref = some b → c'.stack ref ≠ []) :
    Listens (story ++ [.heard p]) (β.hear p) c' := by
  intro ref b' tag bound asked
  rw [repliedSnoc]
  rcases askedBefore legal bound asked with announced | ⟨b, known, before, others⟩
  · rw [announced] at takes
    cases takes with
    | told => contradiction
    | asked => simp [announced, Table.contains]
  · have kept : c'.reads.contains (ref, tag) = c.reads.contains (ref, tag) := by
      rw [Table.contains, Table.contains, takes.readsKept (fun other => (others other).1)
        (fun other => (others other).2) (busy bound)]
    rw [kept, listens ref b tag known before]
    simp [(others tag).1]

namespace Exchange

def assigned (x : Exchange γ) : List RequestId := x.heard.filterMap (·.message.assigned?)

def answered (x : Exchange γ) : List RequestId := x.heard.filterMap (·.message.answered?)

structure Tracked (x : Exchange γ) : Prop where
  places : Places x.sent x.assigned x.answered (bonds x.heard).outer x.client
  listens : Listens x.story (bonds x.heard) x.client

theorem Advances.tracked {x y : Exchange γ} (advances : x.Advances y) (regular : x.Regular)
    (mirrors : Mirrors x.client (bonds x.heard))
    (distinct : (y.sent.filterMap Message.requested?).Nodup) (tracked : x.Tracked) :
    y.Tracked := by
  cases advances with
  | stay => exact tracked
  | dispatch | work | loseSide => exact ⟨tracked.places, tracked.listens⟩
  | call sends =>
    rw [sentSend] at distinct
    refine ⟨?_, ?_⟩
    · rw [sentSend, assigned, answered, heardSend]
      exact tracked.places.sends distinct sends
    · rw [heardSend]
      exact tracked.listens.sends sends
  | @handle p later client down read takes =>
    have legal := regular.legal down read
    have sent : Exchange.sent { x with client, down := later, story := x.story ++ [.heard p] } =
        x.sent := by simp [Exchange.sent]
    rw [sent] at distinct
    have places := tracked.places.takes regular.dispatchedSent distinct mirrors legal takes
    refine ⟨?_, ?_⟩
    · rw [sent, assigned, answered, heardHandle, bondsSnoc, filterMapSnoc, filterMapSnoc]
      exact places
    · rw [heardHandle, bondsSnoc]
      refine tracked.listens.takes legal takes fun {ref b} bound => ?_
      have bottom := (places.based (outerOf bound)).1.outermostMem
      intro empty
      rw [empty] at bottom
      contradiction

end Exchange

theorem debuggingIds {levels : List (StackFrame γ)} (above : ∀ f ∈ levels, f.isDebugging = true) :
    requestIds levels = [] := by
  refine List.filterMap_eq_nil_iff.mpr fun f member => ?_
  have debugging := above f member
  cases f with
  | evaluating => contradiction
  | debugging => rfl

theorem freshRequested (received : List Message) :
    (received.filterMap Message.fresh?).Sublist (received.filterMap Message.requested?) := by
  induction received with
  | nil => exact .slnil
  | cons m rest ih =>
    cases m with
    | request form package target id =>
      cases target with
      | new => exact ih.cons_cons id
      | worker ref => exact ih.cons id
    | _ => exact ih

theorem Places.answerable {sent : List Message} {assigned answered : List RequestId}
    {outer : WorkerRef → Option RequestId} {c : Machine γ}
    (places : Places sent assigned answered outer c)
    (distinct : (sent.filterMap Message.requested?).Nodup) {ref : WorkerRef} {id : RequestId}
    (value : Outcome) (nested : Nested sent ref id) (owed : id ∉ answered) :
    (∀ c', ¬ c.Takes (.returned ref value id) c') ↔ id ∈ (requestIds (c.stack ref)).tail := by
  have reached : c.unbound.get? id = none :=
    places.reached fun fresh => absurd nested (freshNotNested distinct fresh)
  constructor
  · intro never
    cases own : c.orphans.get? id with
    | some entry =>
      obtain ⟨owner, k⟩ := entry
      have sentTo := (places.orphaned (Machine.ownerOf own)).1
      cases nestedOnce distinct sentTo nested
      exact absurd (.orphaned reached own) (never _)
    | none =>
      have member : id ∈ requestIds (c.stack ref) := by
        refine (places.placed nested owed).resolve_left ?_
        simp [Machine.owner?, own]
      obtain ⟨outermost, known⟩ := places.occupied
        (show c.stack ref ≠ [] from fun empty => by rw [empty] at member; contradiction)
      obtain ⟨based, _, _⟩ := places.based known
      obtain ⟨levels, top, k, below, stack, above, ids⟩ := based.topmost
      rw [ids] at member ⊢
      rcases List.mem_cons.mp member with rfl | later
      · have other : id ≠ outermost := fun same => places.notNested distinct known (same ▸ nested)
        rw [stack] at based
        exact absurd (.uncovered reached own stack above (.inl (based.covers other))) (never _)
      · exact later
  · intro covered c' takes
    have member := List.mem_of_mem_tail covered
    cases takes with
    | told => contradiction
    | unreached waiting =>
      rw [reached] at waiting
      contradiction
    | orphaned _ left =>
      exact (places.orphaned (Machine.ownerOf left)).2 member
    | @uncovered _ _ _ k levels below _ _ stack above =>
      obtain ⟨outermost, known⟩ := places.occupied (show c.stack ref ≠ [] by simp [stack])
      obtain ⟨_, once, _⟩ := places.based known
      have ids : requestIds (c.stack ref) = id :: requestIds below := by
        rw [stack, requestIdsAppend, debuggingIds above]
        rfl
      rw [ids] at covered once
      exact (List.nodup_cons.mp once).1 covered

theorem innermost {stack : List (StackFrame γ)} {view : DebuggerView} {views : List DebuggerView}
    (shown : viewsOf stack = view :: views) : ∃ requests below,
      stack = requests ++ .debugging view :: below ∧
      ∀ f ∈ requests, Machine.isRequest f = true := by
  induction stack with
  | nil => contradiction
  | cons f rest ih =>
    cases f with
    | debugging own =>
      cases shown
      exact ⟨[], rest, rfl, by simp⟩
    | evaluating id k =>
      obtain ⟨requests, below, parts, above⟩ := ih shown
      exact ⟨.evaluating id k :: requests, below, by simp [parts],
        List.forall_mem_cons.mpr ⟨rfl, above⟩⟩

theorem shownLevel {view : DebuggerView} {views level levels}
    (shown : Shown (view :: views) (level :: levels)) :
    view.level = (levels.length + 1).toUInt64 := by
  cases shown with
  | cons number =>
    rw [← UInt64.toNat_inj, Nat.toUInt64, UInt64.toNat_ofNat', ← number]
    exact (Nat.mod_eq_of_lt view.level.toNat_lt).symm

theorem nextLevel {views levels} (shown : Shown views levels)
    (proper : 0 < (levels.length + 1).toUInt64.toNat) :
    (levels.length + 1).toUInt64.toNat = levels.length + 1 := by
  have small : levels.length < 2 ^ 64 := by
    cases shown with
    | nil => simp
    | @cons view level views levels number =>
      have := view.level.toNat_lt
      simp only [List.length_cons]
      omega
  rw [Nat.toUInt64, UInt64.toNat_ofNat'] at proper ⊢
  omega

namespace Exchange

/- The message comes too late for the client: the read has been answered meanwhile, or
another request has been put over the one that is answered. -/
def Crossed (x : Exchange γ) : Message → Prop
  | .readAborted ref tag => Replied x.story ref tag
  | .returned ref _ id => id ∈ (requestIds (x.client.stack ref)).tail
  | _ => False

theorem Regular.owed {x : Exchange γ} (regular : x.Regular) {p : Parcel} {later : List Parcel}
    (down : x.down = p :: later) :
    (∀ id, p.message.answered? = some id → id ∉ x.answered) ∧
    (∀ id, p.message.assigned? = some id → id ∉ x.assigned) := by
  have split : ∀ f : Parcel → Option RequestId, ((x.heard ++ x.down).filterMap f).Nodup →
      ∀ id, f p = some id → id ∉ x.heard.filterMap f := by
    intro f once id here before
    rw [down, List.filterMap_append, List.filterMap_cons_some here] at once
    exact (List.nodup_append.mp once).2.2 id before id List.mem_cons_self rfl
  constructor
  · refine split (·.message.answered?) ?_
    rw [regular.conveys.answered]
    exact (List.nodup_append.mp
      (regular.conveys.balanced.balance.nodup_iff.mp regular.distinct)).1
  · refine split (·.message.assigned?) ?_
    rw [regular.conveys.assigned]
    exact regular.distinct.sublist (freshRequested _)

theorem Tracked.speech {x : Exchange γ} (tracked : x.Tracked)
    (mirrors : Mirrors x.client (bonds x.heard))
    (tidy : x.client.Tidy) (distinct : (x.sent.filterMap Message.requested?).Nodup)
    {received : List Message} (subset : received ⊆ x.sent) {ref : WorkerRef} {b : Bond}
    {m : Message} {levels} (bound : bonds x.heard ref = some b)
    (speech : Speech received ref b m levels) (read : m.readable = true)
    (owed : ∀ id, m.answered? = some id → id ∉ x.answered) :
    (∀ c', ¬ x.client.Takes m c') ↔ x.Crossed m := by
  have places := tracked.places
  have known := outerOf bound
  have mirrored : Mirrored (x.client.stack ref) (some b) := bound ▸ mirrors ref
  have ⟨views, shown⟩ := mirrored
  have taken : ∀ {c'}, ¬ x.Crossed m → x.client.Takes m c' →
      ((∀ c', ¬ x.client.Takes m c') ↔ x.Crossed m) := by
    intro c' fits takes
    exact iff_of_false (fun never => never c' takes) fits
  cases speech with
  | output | text | background => exact taken id (.told rfl)
  | ask => exact taken id .asked
  | abortRead asked =>
    have waits := tracked.listens ref b _ bound asked
    constructor
    · intro never
      by_contra quiet
      exact never _ (.aborted (waits.mpr quiet))
    · intro replied c' takes
      cases takes with
      | told => contradiction
      | aborted waiting => exact waits.mp waiting replied
  | enter opened frames =>
    have proper : 0 < _ ∧ _ := Message.readableInRange read
    obtain ⟨stack, busy⟩ : ∃ stack, x.client.busy.get? ref = some stack := by
      cases busy : x.client.busy.get? ref with
      | some stack => exact ⟨stack, rfl⟩
      | none =>
        have bottom := (places.based known).1.outermostMem
        rw [tidy.idle.mp busy] at bottom
        contradiction
    refine taken id (.opened ?_ busy)
    rw [nextLevel shown proper.1, debugLevelViews, views, shown.length]
  | @leave closing below opened =>
    rw [opened] at shown
    generalize openings : b.openings = all at shown views
    cases shown with
    | @cons view _ rest _ number description restarts inner =>
      obtain ⟨requests, under, stack, above⟩ := innermost views
      refine taken id (.closed stack above ?_)
      exact shownLevel (.cons number description restarts inner)
  | activate nested =>
    refine taken id (.activated ?_)
    rw [debuggerViews, views]
    generalize b.openings = openings at shown
    generalize b.levels = opened at shown nested
    cases shown with
    | nil => contradiction
    | cons number description restarts inner =>
      exact congrArg some (shownLevel (.cons number description restarts inner))
  | answer value asked other =>
    exact places.answerable distinct value (asked.more subset) (owed _ rfl)
  | finish value empty =>
    obtain ⟨k, alone⟩ := (places.based known).1.bare (mirrored.bare empty)
    have reached := places.reached fun _ => places.outermost known
    have own : x.client.orphans.get? b.outermost = none := by
      cases left : x.client.orphans.get? b.outermost with
      | none => rfl
      | some entry =>
        exact absurd (places.orphaned (Machine.ownerOf left)).1 (places.notNested distinct known)
    have stack : x.client.stack ref = [] ++ .evaluating b.outermost k :: [] := alone
    refine taken ?_ (.uncovered reached own stack (by simp) (.inr rfl))
    rw [Crossed, alone]
    exact List.not_mem_nil

theorem Tracked.untaken {x : Exchange γ} (tracked : x.Tracked) (regular : x.Regular)
    (mirrors : Mirrors x.client (bonds x.heard))
    (distinct : (x.sent.filterMap Message.requested?).Nodup) {p : Parcel} {later : List Parcel}
    (down : x.down = p :: later) (read : p.message.readable = true) :
    (∀ c', ¬ x.client.Takes p.message c') ↔ x.Crossed p.message := by
  have subset := regular.dispatchedSent
  obtain ⟨owed, unassigned⟩ := regular.owed down
  have told : p.message.isPlain = true → ¬ x.Crossed p.message →
      ((∀ c', ¬ x.client.Takes p.message c') ↔ x.Crossed p.message) := fun plain fits =>
    iff_of_false (fun never => never _ (.told plain)) fits
  cases regular.legal down read with
  | features | channel | notice | reported => exact told rfl id
  | unknown value gone asked =>
    exact tracked.places.answerable distinct value (asked.more subset) (owed _ rfl)
  | refused value gone asked =>
    exact tracked.places.answerable distinct value (asked.more subset) (owed _ rfl)
  | @assigned worker ref id free asked =>
    have waiting := tracked.places.unbound.mpr ⟨asked.more subset, unassigned _ rfl⟩
    obtain ⟨k, waiting⟩ := Option.isSome_iff_exists.mp waiting
    have idle := regular.tidy.idle.mpr
      (tracked.places.vacant (outerFree free))
    exact iff_of_false (fun never => never _ (.bound waiting idle)) fun crossed => crossed
  | spoken bound worker speech =>
    exact tracked.speech mirrors regular.tidy distinct subset bound speech read owed

theorem openingTracked (service : Service) (port : UInt16) :
    (opening service port : Exchange γ).Tracked where
  places :=
    { seated := fun _ => .vacant
      outermost := fun known => nomatch known
      fresh := fun member => nomatch member
      unbound := by simp [opening, Machine.start, Fresh, sent]
      orphaned := fun left => nomatch left
      placed := by simp [opening, Machine.start, Nested, sent] }
  listens := fun _ _ _ bound => nomatch bound

theorem Advances.sentMore {x y : Exchange γ} (advances : x.Advances y) : x.sent ⊆ y.sent := by
  cases advances with
  | stay | dispatch | work | loseSide => exact List.Subset.refl _
  | call => simp
  | handle => simp [sent]

theorem runTracked (service : Service) (port : UInt16) (steps : List (Step γ))
    (clear : ∀ m ∈ ((opening service port).run steps : Exchange γ).sent, m.readable = true) :
    ((opening service port).run steps : Exchange γ).Tracked := by
  have kept := runKeeps (P := fun x : Exchange γ => x.Regular ∧ Mirrors x.client (bonds x.heard) ∧
      ((∀ m ∈ x.sent, m.readable = true) → x.Tracked)) ?_
      ⟨openingRegular service port, fun _ => rfl, fun _ => openingTracked service port⟩ steps
  · exact kept.2.2 clear
  · rintro x y advances ⟨regular, mirrors, tracked⟩
    have next := advances.regular regular
    refine ⟨next, advances.mirrors regular mirrors, fun clear => ?_⟩
    have distinct := next.numbered.distinct (List.append_nil _).symm clear
    exact advances.tracked regular mirrors distinct
      (tracked fun m member => clear m (advances.sentMore member))

theorem desyncIffCrossed (service : Service) (port : UInt16) (steps : List (Step γ))
    (clear : ∀ m ∈ ((opening service port).run steps : Exchange γ).sent, m.readable = true) :
    let x : Exchange γ := (opening service port).run steps
    ∀ p later, x.down = p :: later → p.message.readable = true →
      ((∃ e, (x.client.handle p.message).1 = .error e) ↔ x.Crossed p.message) := by
  intro x p later down read
  have regular : x.Regular := runRegular service port steps
  have distinct := regular.numbered.distinct (List.append_nil _).symm clear
  rw [Machine.handleError]
  exact (runTracked service port steps clear).untaken regular (runMirrors service port steps)
    distinct down read

def lateLineSteps : List (Step Unit) := [
  .evaluate "(read-line)" "U" none none, .dispatch, .work 0 .throughRests [],
  .handle, .handle, .handle, .interrupt 1, .returnString 1 1 "x", .dispatch,
  .work 0 .throughRests []]

def lateLine : Exchange Unit := (opening { language := Calc.language } 0).run lateLineSteps

theorem lateLineFacts :
    (∀ m ∈ lateLine.sent, m.readable = true) ∧
    ∃ p later, lateLine.down = p :: later ∧ p.message = .readAborted 1 1 ∧
      p.message.readable = true ∧
      (lateLine.client.handle p.message).1 =
        .error (.desync "worker 1 aborted unknown read 1") := by
  have facts : (lateLine.sent.all Message.readable &&
      lateLine.down.head?.map Parcel.message == some (.readAborted 1 1) &&
      (Message.readAborted 1 1).readable &&
      (lateLine.client.handle (.readAborted 1 1)).1 ==
        .error (.desync "worker 1 aborted unknown read 1")) = true := by
    decide +kernel
  simp only [Bool.and_eq_true, List.all_eq_true, beq_iff_eq] at facts
  obtain ⟨⟨⟨clear, first⟩, read⟩, untaken⟩ := facts
  obtain ⟨p, next, message⟩ := Option.map_eq_some_iff.mp first
  obtain ⟨later, down⟩ := List.head?_eq_some_iff.mp next
  refine ⟨clear, p, later, down, message, ?_, ?_⟩
  · rw [message]
    exact read
  · rw [message]
    exact untaken

theorem desyncReached : ¬ ∀ steps : List (Step Unit),
    let x := (opening { language := Calc.language } 0).run steps
    (∀ m ∈ x.sent, m.readable = true) → ∀ p later, x.down = p :: later →
      p.message.readable = true → ∃ effects, (x.client.handle p.message).1 = .ok effects := by
  intro always
  obtain ⟨clear, p, later, down, _, read, untaken⟩ := lateLineFacts
  obtain ⟨effects, taken⟩ : ∃ effects, (lateLine.client.handle p.message).1 = .ok effects :=
    always lateLineSteps clear p later down read
  rw [untaken] at taken
  cases taken

theorem lateLineCrossed :
    (∀ m ∈ lateLine.sent, m.readable = true) ∧ lateLine.Crossed (.readAborted 1 1) := by
  obtain ⟨clear, p, later, down, message, read, untaken⟩ := lateLineFacts
  refine ⟨clear, ?_⟩
  rw [← message]
  exact (desyncIffCrossed { language := Calc.language } 0 lateLineSteps clear p later down read).mp
    ⟨_, untaken⟩

end Exchange

end RemoteEval
