import RemoteEval.Proofs.Session.Answers
import RemoteEval.Proofs.Exchange.Basic

/-! What the server puts into its channel. Every message fits the bonds that the messages
before it have made: a worker is announced under a reference that is free, and says only
what its conduct allows. When all has been read, the bonds are those of the workers that
are there. A reference that has run over cannot be read, and nothing is said of what
comes after it. -/
namespace RemoteEval

open Client (DebuggerView)

def Nested (received : List Message) (ref : WorkerRef) (id : RequestId) : Prop :=
  ∃ form package, Message.request form package (.worker ref) id ∈ received

def Fresh (received : List Message) (id : RequestId) : Prop :=
  ∃ form package, Message.request form package .new id ∈ received

inductive Speech (received : List Message) (ref : WorkerRef) (b : Bond) :
    Message → DebugStack Request → Prop where
  | output (text : String) : Speech received ref b (.output text) b.levels
  | text (text : String) : Speech received ref b (.debugConditionText ref text) b.levels
  | background (text : String) : Speech received ref b (.backgroundMessage text) b.levels
  | ask (tag : Tag) : Speech received ref b (.readStringRequest ref tag) b.levels
  | abortRead {tag} (asked : b.asked = some tag) :
      Speech received ref b (.readAborted ref tag) b.levels
  | enter (opened : DebugLevel Request) (frames) :
      Speech received ref b (.debugEnter ref (b.levels.length + 1).toUInt64 opened.description
        opened.restartViews frames) (opened :: b.levels)
  | leave {closing below} (levels : b.levels = closing :: below) :
      Speech received ref b (.debugReturn ref (below.length + 1).toUInt64) below
  | activate (nested : b.levels ≠ []) :
      Speech received ref b (.debugActivate ref b.levels.length.toUInt64) b.levels
  | answer {id} (value : Outcome) (asked : Nested received ref id) (other : id ≠ b.outermost) :
      Speech received ref b (.returned ref value id) b.levels
  | finish (value : Outcome) (levels : b.levels = []) :
      Speech received ref b (.returned ref value b.outermost) []

inductive Legal (received : List Message) (β : Bonds) : Parcel → Prop where
  | features (list : List String) {levels} : Legal received β ⟨none, .featureUpdate list, levels⟩
  | channel (port : UInt16) {levels} : Legal received β ⟨none, .outputChannel port, levels⟩
  | notice (text : String) {levels} : Legal received β ⟨none, .backgroundMessage text, levels⟩
  | unknown {ref id levels} (value : Outcome) (gone : β ref = none)
      (asked : Nested received ref id) : Legal received β ⟨none, .returned ref value id, levels⟩
  | assigned {worker ref id} (free : β ref = none) (asked : Fresh received id) :
      Legal received β ⟨some ⟨worker, ref⟩, .workerAssigned id ref, []⟩
  | refused {a id levels} (value : Outcome) (gone : β a.ref = none)
      (asked : Nested received a.ref id) :
      Legal received β ⟨some a, .returned a.ref value id, levels⟩
  | reported {a levels} (text : String) (gone : β a.ref = none) :
      Legal received β ⟨some a, .backgroundMessage text, levels⟩
  | spoken {a b m levels} (bound : β a.ref = some b) (worker : b.worker = a.id)
      (speech : Speech received a.ref b m levels) : Legal received β ⟨some a, m, levels⟩

def Flows (received : List Message) (β : Bonds) : List Parcel → Prop
  | [] => True
  | p :: later => p.message.readable → Legal received β p ∧ Flows received (β.hear p) later

def AllRead (parcels : List Parcel) : Prop := ∀ p ∈ parcels, p.message.readable = true

theorem flowsAppend {received : List Message} {β : Bonds} {first second : List Parcel} :
    Flows received β (first ++ second) ↔ Flows received β first ∧
      (AllRead first → Flows received (first.foldl Bonds.hear β) second) := by
  induction first generalizing β with
  | nil => simp [Flows, AllRead]
  | cons p rest ih =>
    simp only [List.cons_append, Flows, ih, AllRead, List.forall_mem_cons, List.foldl_cons]
    constructor
    · intro flows
      exact ⟨fun read => ⟨(flows read).1, (flows read).2.1⟩,
        fun ⟨read, all⟩ => (flows read).2.2 all⟩
    · rintro ⟨head, tail⟩ read
      exact ⟨(head read).1, (head read).2, fun all => tail ⟨read, all⟩⟩

theorem Nested.more {received more : List Message} {ref id} (nested : Nested received ref id)
    (subset : received ⊆ more) : Nested more ref id := by
  obtain ⟨form, package, member⟩ := nested
  exact ⟨form, package, subset member⟩

theorem Fresh.more {received more : List Message} {id} (fresh : Fresh received id)
    (subset : received ⊆ more) : Fresh more id := by
  obtain ⟨form, package, member⟩ := fresh
  exact ⟨form, package, subset member⟩

theorem Speech.more {received more : List Message} {ref b m levels}
    (speech : Speech received ref b m levels) (subset : received ⊆ more) :
    Speech more ref b m levels := by
  cases speech with
  | output => exact .output _
  | text => exact .text _
  | background => exact .background _
  | ask => exact .ask _
  | abortRead asked => exact .abortRead asked
  | enter => exact .enter _ _
  | leave levels => exact .leave levels
  | activate nested => exact .activate nested
  | answer value asked other => exact .answer value (asked.more subset) other
  | finish value levels => exact .finish value levels

theorem Speech.plain {received : List Message} {ref b m levels}
    (speech : Speech received ref b m levels) (id : RequestId) (other : WorkerRef) :
    m ≠ .workerAssigned id other := by
  cases speech <;> simp

theorem Legal.more {received more : List Message} {β p} (legal : Legal received β p)
    (subset : received ⊆ more) : Legal more β p := by
  cases legal with
  | features list => exact .features list
  | channel port => exact .channel port
  | notice text => exact .notice text
  | unknown value gone asked => exact .unknown value gone (asked.more subset)
  | assigned free asked => exact .assigned free (asked.more subset)
  | refused value gone asked => exact .refused value gone (asked.more subset)
  | reported text gone => exact .reported text gone
  | spoken bound worker speech => exact .spoken bound worker (speech.more subset)

theorem Flows.more {received more : List Message} {β parcels} (flows : Flows received β parcels)
    (subset : received ⊆ more) : Flows more β parcels := by
  induction parcels generalizing β with
  | nil => trivial
  | cons p later ih => exact fun read => ⟨(flows read).1.more subset, ih (flows read).2⟩

theorem openersNonempty {levels : DebugStack Request} (grounded : DebugStack.Grounded levels)
    (nested : levels ≠ []) : DebugStack.openers levels ≠ [] := by
  induction levels with
  | nil => contradiction
  | cons level below ih =>
    cases below with
    | nil =>
      obtain ⟨r, origin⟩ := grounded
      simp [DebugStack.openers, origin, Origin.opener?]
    | cons next rest =>
      have deeper := ih grounded (by simp)
      cases opener : level.origin.opener? with
      | none => simpa [DebugStack.openers, opener] using deeper
      | some id => simp [DebugStack.openers, opener]

/- A bond is up to date with the worker that it stands for. -/
structure Bond.Tracks (b : Bond) (a : Stance) : Prop where
  present : a.task ≠ .gone
  grounded : DebugStack.Grounded a.levels
  levels : b.levels = a.levels
  asked : b.asked = a.asked
  outermost : a.chain.getLast? = some b.outermost

theorem Conduct.speech {received me a spoken a'} {b : Bond}
    (conduct : Conduct me a (.said spoken) a') (tracks : b.Tracks a) (distinct : a.held.Nodup)
    (errands : ∀ id ∈ a.held, id = b.outermost ∨ Nested received me id) :
    Speech received me b spoken.message spoken.levels ∧
    match b.hear spoken.levels spoken.message with
    | some b' => b'.Tracks a'
    | none => a'.task = .gone := by
  obtain ⟨present, grounded, levels, asked, outermost⟩ := tracks
  cases conduct with
  | aside engaged aside =>
    subst levels
    cases aside with
    | output text => exact ⟨.output text, present, grounded, rfl, asked, outermost⟩
    | text text => exact ⟨.text text, present, grounded, rfl, asked, outermost⟩
    | background text => exact ⟨.background text, present, grounded, rfl, asked, outermost⟩
  | ask tag =>
    subst levels
    exact ⟨.ask tag, by simp, grounded, rfl, rfl, outermost⟩
  | abortRead =>
    subst levels
    exact ⟨.abortRead asked, by simp, grounded, rfl, rfl, outermost⟩
  | trap opened frames origin =>
    subst levels
    refine ⟨.enter opened frames, by simp, DebugStack.groundedEvaluation grounded origin, rfl,
      asked, ?_⟩
    simpa [Stance.chain, Task.request?, DebugStack.openers, origin, Origin.opener?] using outermost
  | interrupt opened frames origin nested =>
    subst levels
    refine ⟨.enter opened frames, by simp, DebugStack.groundedCons grounded nested, rfl, asked, ?_⟩
    simpa [Stance.chain, Task.request?, DebugStack.openers, origin, Origin.opener?] using outermost
  | @answer request closed opened queue read value nested =>
    subst levels
    have suspended := openersNonempty grounded nested
    have last : (DebugStack.openers b.levels).getLast? = some b.outermost := by
      have chain : (request.id :: DebugStack.openers b.levels).getLast? = some b.outermost :=
        outermost
      rwa [List.getLast?_cons_of_ne_nil suspended] at chain
    have other : request.id ≠ b.outermost := by
      intro same
      have apart : (request.id :: DebugStack.openers b.levels).Nodup :=
        (List.nodup_append.mp distinct).1
      exact (List.nodup_cons.mp apart).1 (same ▸ List.mem_of_getLast? last)
    have mine :=
      (errands request.id (by simp [Stance.held, Stance.chain, Task.request?])).resolve_left other
    refine ⟨.answer value mine other, ?_⟩
    simp only [Spoken.message, Bond.hear, if_neg other]
    exact ⟨by simp, grounded, rfl, asked, last⟩
  | @finish request closed queue read value =>
    have alone : request.id = b.outermost := by
      simpa [Stance.chain, Task.request?, DebugStack.openers] using outermost
    simp only [Spoken.message, Bond.hear, alone, if_true]
    exact ⟨.finish value levels, trivial⟩
  | @close due closing below queue read request origin =>
    refine ⟨.leave levels, by simp, DebugStack.groundedTail grounded, rfl, asked, ?_⟩
    simpa [Stance.chain, Task.request?, DebugStack.openers, origin, Origin.opener?] using outermost
  | @resume due closing below queue read origin nested =>
    refine ⟨.leave levels, by simp, DebugStack.groundedTail grounded, rfl, asked, ?_⟩
    simpa [Stance.chain, Task.request?, DebugStack.openers, origin, Origin.opener?] using outermost
  | activate nested =>
    subst levels
    exact ⟨.activate nested, by simp, grounded, rfl, asked, outermost⟩
  | refuse => exact absurd rfl present
  | report text => exact absurd rfl present

/- How a worker and its reference stand in the midst of a turn. Once it is gone, what it
still holds are requests that were sent to it. -/
inductive Standing (received : List Message) (β : Bonds) (author : Author) (a : Stance) : Prop where
  | bound {b} (bond : β author.ref = some b) (worker : b.worker = author.id)
      (tracks : b.Tracks a)
      (errands : ∀ id ∈ a.held, id = b.outermost ∨ Nested received author.ref id)
  | gone (task : a.task = .gone) (free : β author.ref = none)
      (errands : ∀ id ∈ a.held, Nested received author.ref id)

theorem hearAuthor {β : Bonds} {a : Author} {m : Message} {levels}
    (plain : ∀ id ref, m ≠ .workerAssigned id ref) :
    β.hear ⟨some a, m, levels⟩ = fun ref => if ref = a.ref then
      (β ref).bind fun b => if b.worker = a.id then b.hear levels m else some b
    else β ref := by
  cases m with
  | workerAssigned id ref => exact absurd rfl (plain id ref)
  | _ => rfl

theorem hearGone {β : Bonds} {a : Author} {m : Message} {levels}
    (plain : ∀ id ref, m ≠ .workerAssigned id ref) (gone : β a.ref = none) :
    β.hear ⟨some a, m, levels⟩ = β := by
  rw [hearAuthor plain]
  funext ref
  split
  next this => rw [this, gone]; rfl
  · rfl

theorem Conduct.plain {me a spoken a'} (conduct : Conduct me a (.said spoken) a') (id : RequestId)
    (ref : WorkerRef) : spoken.message ≠ .workerAssigned id ref := by
  cases conduct with
  | aside _ aside => cases aside <;> simp [Spoken.message]
  | _ => simp [Spoken.message]

theorem Bond.hearKeeps {b b' : Bond} {m : Message} {levels} (heard : b.hear levels m = some b') :
    b'.worker = b.worker ∧ b'.outermost = b.outermost ∧ b'.levels = levels := by
  unfold hear at heard
  split at heard
  · split at heard
    · contradiction
    · cases heard
      exact ⟨rfl, rfl, rfl⟩
  all_goals
    cases heard
    exact ⟨rfl, rfl, rfl⟩

theorem Bond.hearNone {b : Bond} {m : Message} {levels} (heard : b.hear levels m = none) :
    m.answered? = some b.outermost := by
  unfold hear at heard
  split at heard
  · split at heard
    next same => simp [Message.answered?, same]
    · contradiction
  all_goals contradiction

theorem Spoken.messageAnswered (spoken : Spoken) :
    spoken.message.answered? = spoken.utterance.answered? := by
  unfold Spoken.message
  cases spoken.utterance <;> rfl

theorem Standing.said {received β author a spoken a'} (standing : Standing received β author a)
    (conduct : Conduct author.ref a (.said spoken) a') (distinct : a.held.Nodup) :
    Legal received β ⟨some author, spoken.message, spoken.levels⟩ ∧
    Standing received (β.hear ⟨some author, spoken.message, spoken.levels⟩) author a' ∧
    ∀ ref, ref ≠ author.ref →
      β.hear ⟨some author, spoken.message, spoken.levels⟩ ref = β ref := by
  have owed := conduct.held
  have kept : ∀ id ∈ a'.held, id ∈ a.held := fun id member =>
    owed.mem_iff.mpr (List.mem_append_right _ member)
  cases standing with
  | @bound b bond worker tracks errands =>
    obtain ⟨speech, after⟩ := conduct.speech tracks distinct errands
    have heard : β.hear ⟨some author, spoken.message, spoken.levels⟩ author.ref =
        b.hear spoken.levels spoken.message := by
      simp [hearAuthor conduct.plain, bond, worker]
    refine ⟨.spoken bond worker speech, ?_, fun ref other => ?_⟩
    · cases next : b.hear spoken.levels spoken.message with
      | some b' =>
        rw [next] at after
        obtain ⟨same, outermost, _⟩ := Bond.hearKeeps next
        exact .bound (heard.trans next) (same.trans worker) after fun id member =>
          outermost ▸ errands id (kept id member)
      | none =>
        rw [next] at after
        refine .gone after (heard.trans next) fun id member => ?_
        have answered : (Deed.said spoken).answered? = some b.outermost :=
          (Spoken.messageAnswered spoken).symm.trans (Bond.hearNone next)
        rw [answered] at owed
        have apart := List.nodup_cons.mp (owed.nodup_iff.mp distinct)
        exact (errands id (kept id member)).resolve_left fun same => apart.1 (same ▸ member)
    · simp [hearAuthor conduct.plain, other]
  | gone task free errands =>
    rw [hearGone conduct.plain free]
    cases conduct with
    | refuse =>
      exact ⟨.refused _ free (errands _ (by simp [Stance.held])),
        .gone rfl free fun id member => errands id (kept id member), fun _ _ => rfl⟩
    | report text => exact ⟨.reported text free, .gone rfl free errands, fun _ _ => rfl⟩
    | aside engaged =>
      subst task
      contradiction
    | _ => contradiction

theorem Standing.started {received β author a request a'} (standing : Standing received β author a)
    (conduct : Conduct author.ref a (.started request) a') : Standing received β author a' := by
  have owed := conduct.held
  have kept : ∀ id ∈ a'.held, id ∈ a.held := fun id member =>
    owed.mem_iff.mpr (List.mem_append_right _ member)
  cases standing with
  | @bound b bond worker tracks errands =>
    obtain ⟨_, grounded, levels, asked, outermost⟩ := tracks
    refine .bound bond worker ?_ fun id member => errands id (kept id member)
    cases conduct with
    | start => exact ⟨by simp, grounded, levels, asked, outermost⟩
    | @serve _ opened queue read nested =>
      have suspended := openersNonempty grounded nested
      refine ⟨by simp, grounded, levels, asked, ?_⟩
      exact (List.getLast?_cons_of_ne_nil suspended).trans outermost
  | gone task => cases conduct <;> contradiction

theorem Conduct.outputSame {me a text levels a'}
    (conduct : Conduct me a (.said ⟨.output text, levels⟩) a') : a' = a := by
  cases conduct
  rfl

def parcelsOf (dedicated : Bool) (author : Author) (deeds : List Deed) : List Parcel :=
  (deeds.map fun deed => (⟨some author, deed⟩ : Entry)).filterMap (Entry.parcel? dedicated)

theorem Conducts.flows {received author a deeds a'} (dedicated : Bool)
    (conducts : Conducts author.ref a deeds a') {β : Bonds}
    (standing : Standing received β author a) (distinct : a.held.Nodup) :
    Flows received β (parcelsOf dedicated author deeds) ∧
    (AllRead (parcelsOf dedicated author deeds) →
      Standing received ((parcelsOf dedicated author deeds).foldl Bonds.hear β) author a' ∧
      ∀ ref, ref ≠ author.ref →
        (parcelsOf dedicated author deeds).foldl Bonds.hear β ref = β ref) := by
  induction conducts generalizing β with
  | nil => exact ⟨trivial, fun _ => ⟨standing, fun _ _ => rfl⟩⟩
  | @cons before deed between deeds after conduct _ ih =>
    have apart : between.held.Nodup :=
      (List.nodup_append.mp (conduct.held.nodup_iff.mp distinct)).2.1
    cases deed with
    | started request => exact ih (standing.started conduct) apart
    | said spoken =>
      cases carried : spoken.carried dedicated with
      | false =>
        have skipped : parcelsOf dedicated author (.said spoken :: deeds) =
            parcelsOf dedicated author deeds := by
          simp [parcelsOf, Entry.parcel?, carried]
        have same : between = before := by
          obtain ⟨utterance, levels⟩ := spoken
          cases utterance with
          | message m => contradiction
          | output text => exact conduct.outputSame
        rw [skipped]
        exact ih (same ▸ standing) apart
      | true =>
        have taken : parcelsOf dedicated author (.said spoken :: deeds) =
            ⟨some author, spoken.message, spoken.levels⟩ :: parcelsOf dedicated author deeds := by
          simp [parcelsOf, Entry.parcel?, carried]
        obtain ⟨legal, next, others⟩ := standing.said conduct distinct
        obtain ⟨flows, reached⟩ := ih next apart
        rw [taken]
        refine ⟨fun _ => ⟨legal, flows⟩, fun all => ?_⟩
        obtain ⟨last, rest⟩ := reached (List.forall_mem_cons.mp all).2
        exact ⟨last, fun ref other => (rest ref other).trans (others ref other)⟩

end RemoteEval
