import RemoteEval.Proofs.Worker.Course

/-! The reads of one worker. They are numbered from one; the next is asked for when the one before
is over, and a read is over with the reply that it takes or with the announcement that it is
aborted. What is told of a worker here is which replies came into its mailbox, which of them a read
took, and all that the worker said, in the order in which it happened. -/
namespace RemoteEval

structure Reply where
  tag : Tag
  text : String
  deriving DecidableEq

def Event.reply? : Event → Option Reply
  | .readReply tag text => some ⟨tag, text⟩
  | _ => none

inductive Note where
  | came (reply : Reply)
  | took (reply : Reply)
  | said (spoken : Spoken)

namespace Note

def came? : Note → Option Reply
  | .came reply => some reply
  | _ => none

def took? : Note → Option Reply
  | .took reply => some reply
  | _ => none

def ask? : Note → Option Tag
  | .said ⟨.message (.readStringRequest _ tag), _⟩ => some tag
  | _ => none

def over? : Note → Option Tag
  | .took reply => some reply.tag
  | .said ⟨.message (.readAborted _ tag), _⟩ => some tag
  | _ => none

def report? : Note → Option String
  | .said ⟨.message (.backgroundMessage text), _⟩ => some text
  | _ => none

def aborts : Note → Bool
  | .said ⟨.message (.readAborted _ _), _⟩ => true
  | _ => false

def alarms : Note → Bool
  | .said spoken => spoken.alarms
  | _ => false

end Note

structure Reading where
  waiting : List Reply := []
  asked : Nat := 0
  outstanding : Option Tag := none

def staleText (me : WorkerRef) (reply : Reply) : String := (Error.tagNotFound me reply.tag).message

/- What may happen next, and where the reads stand then. -/
inductive Reads (me : WorkerRef) : Reading → Note → Reading → Prop where
  | came {waiting asked outstanding} (reply : Reply) :
      Reads me ⟨waiting, asked, outstanding⟩ (.came reply) ⟨waiting ++ [reply], asked, outstanding⟩
  | asks {waiting asked} (levels : DebugStack Request) : Reads me ⟨waiting, asked, none⟩
      (.said ⟨.message (.readStringRequest me (asked + 1).toUInt64), levels⟩)
      ⟨waiting, asked + 1, some (asked + 1).toUInt64⟩
  | took {reply waiting asked} : Reads me ⟨reply :: waiting, asked, some reply.tag⟩ (.took reply)
      ⟨waiting, asked, none⟩
  | aborts {waiting asked tag} (levels : DebugStack Request) : Reads me ⟨waiting, asked, some tag⟩
      (.said ⟨.message (.readAborted me tag), levels⟩) ⟨waiting, asked, none⟩
  | reports {reply waiting asked outstanding} (levels : DebugStack Request)
      (other : outstanding ≠ some reply.tag) : Reads me ⟨reply :: waiting, asked, outstanding⟩
      (.said ⟨.message (.backgroundMessage (staleText me reply)), levels⟩)
      ⟨waiting, asked, outstanding⟩
  | other {reading spoken} (plain : spoken.utterance.ofReads = false) :
      Reads me reading (.said spoken) reading

inductive ReadsAll (me : WorkerRef) : Reading → List Note → Reading → Prop where
  | nil {reading} : ReadsAll me reading [] reading
  | cons {before note between notes after} (first : Reads me before note between)
      (rest : ReadsAll me between notes after) : ReadsAll me before (note :: notes) after

structure Fate where
  reply : Reply
  taken : Bool

namespace ReadsAll
variable {me : WorkerRef} {a b c : Reading} {notes more : List Note}

theorem single {note : Note} (reads : Reads me a note b) : ReadsAll me a [note] b :=
  .cons reads .nil

theorem append (left : ReadsAll me a notes b) (right : ReadsAll me b more c) :
    ReadsAll me a (notes ++ more) c := by
  induction left with
  | nil => exact right
  | cons first _ ih => exact .cons first (ih right)

theorem split (reads : ReadsAll me a (notes ++ more) c) :
    ∃ b, ReadsAll me a notes b ∧ ReadsAll me b more c := by
  induction notes generalizing a with
  | nil => exact ⟨a, .nil, reads⟩
  | cons note notes ih =>
    cases reads with
    | cons first rest =>
      obtain ⟨b, left, right⟩ := ih rest
      exact ⟨b, .cons first left, right⟩

theorem plain {new : List Spoken} (plain : ∀ x ∈ new, x.utterance.ofReads = false) :
    ReadsAll me a (new.map .said) a := by
  induction new with
  | nil => exact .nil
  | cons x rest ih =>
    obtain ⟨first, later⟩ := List.forall_mem_cons.mp plain
    exact .cons (.other first) (ih later)

theorem reported (waiting : List Reply) (asked : Nat) (levels : DebugStack Request) :
    ReadsAll me ⟨waiting, asked, none⟩ (waiting.map fun reply =>
      .said ⟨.message (.backgroundMessage (staleText me reply)), levels⟩) ⟨[], asked, none⟩ := by
  induction waiting with
  | nil => exact .nil
  | cons reply rest ih => exact .cons (.reports levels (by simp)) ih

theorem plainSays {spoken : Spoken} (plain : spoken.utterance.ofReads = false) :
    (Note.said spoken).ask? = none ∧ (Note.said spoken).over? = none ∧
    (Note.said spoken).report? = none := by
  obtain ⟨utterance, levels⟩ := spoken
  cases utterance with
  | output => exact ⟨rfl, rfl, rfl⟩
  | message m => cases m <;> first | contradiction | exact ⟨rfl, rfl, rfl⟩

theorem tags (reads : ReadsAll me a notes b) : ∃ n, b.asked = a.asked + n ∧
    notes.filterMap Note.ask? = (List.range' (a.asked + 1) n).map Nat.toUInt64 := by
  induction reads with
  | nil => exact ⟨0, rfl, rfl⟩
  | cons first _ ih =>
    obtain ⟨n, count, same⟩ := ih
    cases first with
    | asks =>
      refine ⟨n + 1, by simpa [Nat.add_assoc, Nat.add_comm 1] using count, ?_⟩
      rw [List.filterMap_cons_some (by rfl), same, List.range'_succ, List.map_cons]
    | other plain =>
      exact ⟨n, count, by rw [List.filterMap_cons_none (plainSays plain).1, same]⟩
    | came | took | aborts | reports =>
      exact ⟨n, count, by rw [List.filterMap_cons_none (by rfl), same]⟩

theorem overs (reads : ReadsAll me a notes b) :
    a.outstanding.toList ++ notes.filterMap Note.ask? =
      notes.filterMap Note.over? ++ b.outstanding.toList := by
  induction reads with
  | nil => simp
  | cons first _ ih =>
    cases first with
    | asks => exact ih
    | @took reply => exact congrArg (reply.tag :: ·) ih
    | @aborts _ _ tag => exact congrArg (tag :: ·) ih
    | other plain =>
      obtain ⟨ask, ended, -⟩ := plainSays plain
      rw [List.filterMap_cons_none ask, List.filterMap_cons_none ended]
      exact ih
    | came | reports =>
      rw [List.filterMap_cons_none (by rfl), List.filterMap_cons_none (by rfl)]
      exact ih

theorem last {note : Note} {tag : Tag} (reads : ReadsAll me {} (notes ++ note :: more) b)
    (ended : note.over? = some tag) :
    notes.filterMap Note.ask? = notes.filterMap Note.over? ++ [tag] := by
  obtain ⟨between, left, right⟩ := reads.split
  have overs := left.overs
  cases right with
  | cons first =>
    cases first with
    | took | aborts =>
      cases ended
      exact overs
    | other plain =>
      rw [(plainSays plain).2.1] at ended
      contradiction
    | came | asks | reports => contradiction

theorem fates (reads : ReadsAll me a notes b) : ∃ fates : List Fate,
    a.waiting ++ notes.filterMap Note.came? = fates.map Fate.reply ++ b.waiting ∧
    notes.filterMap Note.took? = (fates.filter Fate.taken).map Fate.reply ∧
    notes.filterMap Note.report? =
      (fates.filter (!·.taken)).map fun fate => staleText me fate.reply := by
  induction reads with
  | nil => exact ⟨[], by simp, rfl, rfl⟩
  | cons first _ ih =>
    obtain ⟨fates, came, took, reported⟩ := ih
    cases first with
    | came reply => exact ⟨fates, by simpa [Note.came?] using came, took, reported⟩
    | @took reply =>
      exact ⟨⟨reply, true⟩ :: fates, congrArg (reply :: ·) came, congrArg (reply :: ·) took,
        reported⟩
    | @reports reply =>
      exact ⟨⟨reply, false⟩ :: fates, congrArg (reply :: ·) came, took,
        congrArg (staleText me reply :: ·) reported⟩
    | asks | aborts => exact ⟨fates, came, took, reported⟩
    | other plain =>
      obtain ⟨-, -, report⟩ := plainSays plain
      exact ⟨fates, came, took, by rw [List.filterMap_cons_none report, reported]⟩

end ReadsAll

/- Each read that is aborted is followed at once by the level of an interrupt. -/
def Followed (notes : List Note) : Prop := ∀ before note after, notes = before ++ note :: after →
  note.aborts = true → ∃ opened rest, after = opened :: rest ∧ opened.alarms = true

theorem Followed.append {notes more : List Note} (left : Followed notes) (right : Followed more) :
    Followed (notes ++ more) := by
  intro before note after same aborts
  rcases List.append_eq_append_iff.mp same with ⟨middle, rfl, later⟩ | ⟨middle, earlier, later⟩
  · exact right middle note after later aborts
  · cases middle with
    | nil => exact right [] note after (by simpa using later.symm) aborts
    | cons x rest =>
      obtain ⟨rfl, rfl⟩ := List.cons.inj later
      obtain ⟨opened, between, rfl, alarms⟩ := left before note rest earlier aborts
      exact ⟨opened, between ++ more, rfl, alarms⟩

theorem followedPlain {notes : List Note} (plain : ∀ note ∈ notes, note.aborts = false) :
    Followed notes := by
  rintro before note after rfl aborts
  rw [plain note (by simp)] at aborts
  contradiction

theorem followedFirst {first opened : Note} {rest : List Note} (alarms : opened.alarms = true)
    (calm : ∀ note ∈ opened :: rest, note.aborts = false) : Followed (first :: opened :: rest) := by
  intro before note after same aborts
  cases before with
  | nil =>
    obtain ⟨-, rfl⟩ := List.cons.inj same
    exact ⟨opened, rest, rfl, alarms⟩
  | cons x before =>
    obtain ⟨-, later⟩ := List.cons.inj same
    rw [calm note (by simp [later])] at aborts
    contradiction

/- The worker is where its reads stand. -/
structure Reading.Fits (a : Reading) (w : Worker) : Prop where
  waiting : a.waiting = w.mailbox.filterMap Event.reply?
  asked : w.lastTag = a.asked.toUInt64
  outstanding : a.outstanding = w.activity.pending?

namespace Worker

def takes? (w : Worker) : Option Reply :=
  match w.activity, w.mailbox with
  | .reading _ tag _, .readReply got text :: _ => if got = tag then some ⟨got, text⟩ else none
  | _, _ => none

def notes (w : Worker) (t : Turn) : List Note :=
  w.takes?.toList.map .took ++ t.spoken.map .said

theorem takesNone {w : Worker} (idle : w.activity.pending? = none) : w.takes? = none := by
  unfold takes?
  split
  next reading _ => simp [reading, Activity.pending?] at idle
  · rfl

theorem lastWordsReads (w : Worker) (asked : Nat) (levels : DebugStack Request) :
    ReadsAll w.me ⟨w.mailbox.filterMap Event.reply?, asked, none⟩
      (((Turn.lastWords w).map (⟨·, levels⟩)).map .said) ⟨[], asked, none⟩ := by
  have words : Turn.lastWords w = ((w.mailbox.filterMap Event.reply?).map fun reply =>
      .message (.backgroundMessage (staleText w.me reply))) ++ w.queue.map fun r =>
        .message (.returned w.me (.abort (some s!"worker {w.me} finished")) r.id) := by
    unfold Turn.lastWords
    rw [List.map_filterMap, List.map_filterMap]
    congr 2
    funext event
    cases event <;> rfl
  rw [words, List.map_append, List.map_append, List.map_map, List.map_map]
  refine (ReadsAll.reported _ asked levels).append (.plain ?_)
  simp [Utterance.ofReads]

section
variable {loyal : Prop} {s : Service} {globals : Globals} {w : Worker} {t u : Turn} {a : Reading}

theorem plainCalm {x : Spoken} (plain : x.utterance.ofReads = false) :
    (Note.said x).aborts = false := by
  obtain ⟨utterance, levels⟩ := x
  cases utterance with
  | output => rfl
  | message m => cases m <;> first | contradiction | rfl

theorem comesReads (comes : u.Comes loyal t)
    (waiting : a.waiting = u.worker.mailbox.filterMap Event.reply?)
    (asked : u.worker.lastTag = a.asked.toUInt64) (idle : a.outstanding = none) :
    ∃ new b, t.spoken = u.spoken ++ new ∧ ReadsAll u.worker.me a (new.map .said) b ∧
      b.Fits t.worker ∧ ∀ x ∈ new, (Note.said x).aborts = false := by
  obtain ⟨replies, count, outstanding⟩ := a
  cases idle
  cases comes with
  | halts onward awake idle =>
    obtain ⟨new, spoken, plain⟩ := onward.spoken
    exact ⟨new, _, spoken, .plain plain, ⟨by rw [onward.mailbox]; exact waiting,
      by rw [onward.lastTag]; exact asked, idle.symm⟩, fun x member => plainCalm (plain x member)⟩
  | @asks v request next onward =>
    obtain ⟨new, spoken, plain⟩ := onward.spoken
    have tag : v.worker.lastTag + 1 = (count + 1).toUInt64 := by
      rw [onward.lastTag, asked]
      exact (UInt64.ofNat_add count 1).symm
    refine ⟨new ++ [⟨.message (.readStringRequest u.worker.me (count + 1).toUInt64),
      v.worker.levels⟩], ⟨replies, count + 1, some (count + 1).toUInt64⟩, ?_, ?_, ?_, ?_⟩
    · rw [← tag, ← onward.me, ← List.append_assoc, ← spoken]
      rfl
    · rw [List.map_append]
      exact (ReadsAll.plain plain).append (.single (.asks _))
    · exact ⟨by simpa [Turn.asking, onward.mailbox] using waiting, tag, congrArg some tag.symm⟩
    · intro x member
      rcases List.mem_append.mp member with early | late
      · exact plainCalm (plain x early)
      · rw [List.mem_singleton.mp late]
        rfl
  | @retires v onward =>
    obtain ⟨new, spoken, plain⟩ := onward.spoken
    have words := lastWordsReads v.worker count v.worker.levels
    rw [onward.me, onward.mailbox, ← waiting] at words
    refine ⟨new ++ (Turn.lastWords v.worker).map (⟨·, v.worker.levels⟩), ⟨[], count, none⟩, ?_, ?_,
      ?_, ?_⟩
    · rw [Turn.retireEq, spoken, List.append_assoc]
    · rw [List.map_append]
      exact (ReadsAll.plain plain).append words
    · rw [Turn.retireEq]
      exact ⟨rfl, by rw [← asked, ← onward.lastTag], rfl⟩
    · intro x member
      rcases List.mem_append.mp member with early | late
      · exact plainCalm (plain x early)
      · obtain ⟨utterance, said, rfl⟩ := List.mem_map.mp late
        rcases Turn.lastWordsCases said with ⟨text, rfl⟩ | ⟨value, id, rfl⟩ <;> rfl

theorem takesOther {event : Event} {later : List Event} (mail : w.mailbox = event :: later)
    (other : ∀ tag text, event = .readReply tag text → w.activity.pending? ≠ some tag) :
    w.takes? = none := by
  unfold takes?
  split
  next reading mail' =>
    rw [mail] at mail'
    obtain ⟨same, -⟩ := List.cons.inj mail'
    have apart := other _ _ same
    simp only [reading, Activity.pending?, ne_eq, Option.some.injEq] at apart
    exact if_neg (Ne.symm apart)
  · rfl

theorem worksReads {v : Worker} (comes : ({ worker := v, globals } : Turn).Comes loyal t)
    (me : v.me = w.me) (lastTag : v.lastTag = w.lastTag)
    (mailbox : v.mailbox.filterMap Event.reply? = w.mailbox.filterMap Event.reply?)
    (idle : w.activity.pending? = none) (fits : a.Fits w) :
    ∃ b, ReadsAll w.me a (w.notes t) b ∧ b.Fits t.worker := by
  obtain ⟨new, b, spoken, reads, fits', -⟩ := comesReads comes (fits.waiting.trans mailbox.symm)
    (lastTag.trans fits.asked) (fits.outstanding.trans idle)
  refine ⟨b, ?_, fits'⟩
  rw [notes, takesNone idle, spoken, ← me]
  exact reads

theorem waitsReads {v : Worker} {event : Event} {later : List Event}
    (mail : w.mailbox = event :: later) (other : event.reply? = none) (mailbox : v.mailbox = later)
    (lastTag : v.lastTag = w.lastTag) (activity : v.activity = w.activity) (fits : a.Fits w) :
    ∃ b, ReadsAll w.me a (w.notes { worker := v, globals }) b ∧ b.Fits v := by
  have takes : w.takes? = none := takesOther mail fun tag text same => by
    rw [same] at other
    contradiction
  refine ⟨a, ?_, ?_, lastTag.trans fits.asked, fits.outstanding.trans (by rw [activity])⟩
  · rw [notes, takes]
    exact .nil
  · rw [fits.waiting, mail, mailbox, List.filterMap_cons_none other]

theorem courseReads (course : w.Course loyal s globals t) (attached : w.attached = true)
    (fits : a.Fits w) : ∃ b, ReadsAll w.me a (w.notes t) b ∧ b.Fits t.worker := by
  cases course with
  | works idle mail comes =>
    refine worksReads comes rfl rfl ?_ idle fits
    rcases mail with same | ⟨request, taken⟩
    · rw [same]
    · rw [taken, List.filterMap_cons_none (by rfl)]
  | defers mail => exact waitsReads mail rfl rfl rfl rfl fits
  | @reports tag text later other mail =>
    obtain ⟨replies, count, outstanding⟩ := a
    obtain ⟨waiting, asked, pending⟩ := fits
    dsimp only at waiting asked pending
    have takes : w.takes? = none := takesOther mail fun got line same => by
      cases same
      exact other
    rw [mail, List.filterMap_cons_some (by rfl)] at waiting
    refine ⟨⟨later.filterMap Event.reply?, count, outstanding⟩, ?_, ⟨rfl, asked, pending⟩⟩
    rw [notes, takes, waiting]
    exact .single (.reports w.levels (pending ▸ other))
  | stirs calm mail => exact waitsReads mail rfl rfl rfl rfl fits
  | interrupts idle mail comes calm =>
    refine worksReads comes rfl rfl ?_ idle fits
    rw [mail, List.filterMap_cons_none (by rfl)]
  | @reads request tag next text later reading mail comes =>
    obtain ⟨replies, count, outstanding⟩ := a
    obtain ⟨waiting, asked, pending⟩ := fits
    dsimp only at waiting asked pending
    have takes : w.takes? = some ⟨tag, text⟩ := by simp [takes?, reading, mail]
    rw [mail, List.filterMap_cons_some (by rfl)] at waiting
    obtain ⟨new, b, spoken, reads, fits, -⟩ :=
      comesReads comes (a := ⟨later.filterMap Event.reply?, count, none⟩) rfl asked rfl
    refine ⟨b, ?_, fits⟩
    rw [notes, takes, spoken, waiting, pending, reading]
    exact .cons .took reads
  | @aborts request tag next later _ reading mail comes =>
    obtain ⟨replies, count, outstanding⟩ := a
    obtain ⟨waiting, asked, pending⟩ := fits
    dsimp only at waiting asked pending
    rw [mail, List.filterMap_cons_none (by rfl)] at waiting
    obtain ⟨new, b, spoken, reads, fits, -⟩ :=
      comesReads comes (a := ⟨replies, count, none⟩) waiting asked rfl
    refine ⟨b, ?_, fits⟩
    rw [notes, takesOther mail nofun, spoken, pending, reading]
    exact .cons (.aborts w.levels) reads
  | cut detached =>
    rw [attached] at detached
    contradiction

theorem comesCalm (comes : u.Comes loyal t) :
    ∃ new, t.spoken = u.spoken ++ new ∧ ∀ x ∈ new, (Note.said x).aborts = false := by
  obtain ⟨new, b, spoken, -, -, calm⟩ := comesReads comes
    (a := ⟨u.worker.mailbox.filterMap Event.reply?, u.worker.lastTag.toNat, none⟩) rfl
    (by simp) rfl
  exact ⟨new, spoken, calm⟩

theorem notesFollowed (calm : ∀ x ∈ t.spoken, (Note.said x).aborts = false) :
    Followed (w.notes t) := by
  refine followedPlain fun note member => ?_
  rcases List.mem_append.mp member with took | said
  · obtain ⟨reply, -, rfl⟩ := List.mem_map.mp took
    rfl
  · obtain ⟨x, spoken, rfl⟩ := List.mem_map.mp said
    exact calm x spoken

theorem courseFollowed (course : w.Course loyal s globals t) (honest : loyal) :
    Followed (w.notes t) := by
  cases course with
  | works _ _ comes | interrupts _ _ comes | reads _ _ comes | cut _ comes =>
    obtain ⟨new, spoken, calm⟩ := comesCalm comes
    rw [List.nil_append] at spoken
    exact notesFollowed (spoken ▸ calm)
  | defers | stirs => exact notesFollowed (by simp)
  | reports =>
    refine notesFollowed fun x member => ?_
    rw [List.mem_singleton.mp member]
    rfl
  | aborts reading mail comes calm follows =>
    obtain ⟨opened, rest, alarms, told⟩ := follows honest
    obtain ⟨new, spoken, calm⟩ := comesCalm comes
    have same : opened :: rest = new := by
      rw [told] at spoken
      exact (List.cons.inj spoken).2
    rw [notes, takesOther mail nofun, told]
    refine followedFirst alarms fun note member => ?_
    rw [← List.map_cons, same] at member
    obtain ⟨x, said, rfl⟩ := List.mem_map.mp member
    exact calm x said

end
end Worker
end RemoteEval
