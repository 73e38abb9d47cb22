import RemoteEval.Proofs.Session.Housing
import RemoteEval.Proofs.Session.Interrupts
import RemoteEval.Proofs.Worker.Reads

/-! The reads of every worker, in every run of a session before its teardown. A reply may come
early, late or twice, and wait behind anything else in the mailbox. It is looked at once: by the
read that is outstanding then, which takes it if it has its tag, or by a prompt, or when the worker
ends. The number of a read is a word, so its tags are different as long as they fit one. -/
namespace RemoteEval

namespace Log

def noted (l : Log) (worker : WorkerId) (before : List Note) : Move → List Note
  | .receive m =>
    if m.spawns = true ∧ l.session.nextWorker = worker then []
    else before ++ ((l.session.arrival? worker m).bind Event.reply?).toList.map .came
  | .work id pace globals =>
    if id = worker then
      match l.session.workers.get? id, l.session.turn? id pace globals with
      | some w, some t => before ++ w.notes t
      | _, _ => before
    else before
  | _ => before

def notes (worker : WorkerId) (before : List Note) (l : Log) : List Move → List Note
  | [] => before
  | move :: rest => (l.step move).notes worker (l.noted worker before move) rest

end Log

/- The reads of a worker that is gone are over, and none of its replies is left. -/
def Story (notes : List Note) : Option Worker → Prop
  | some w => ∃ a, ReadsAll w.me {} notes a ∧ a.Fits w
  | none => ∃ me a, ReadsAll me {} notes a ∧ a.waiting = [] ∧ a.outstanding = none

theorem storyReads {notes : List Note} {x : Option Worker} (story : Story notes x) :
    ∃ (me : WorkerRef) (reading : Reading), ReadsAll me {} notes reading ∧
      (∀ w, x = some w → w.me = me ∧ reading.Fits w) ∧
      (x = none → reading.waiting = [] ∧ reading.outstanding = none) := by
  cases x with
  | some w =>
    obtain ⟨reading, reads, fits⟩ := story
    exact ⟨w.me, reading, reads, fun _ same => by cases same; exact ⟨rfl, fits⟩, nofun⟩
  | none =>
    obtain ⟨me, reading, reads, ended⟩ := story
    exact ⟨me, reading, reads, nofun, fun _ => ended⟩

namespace ReadsAll
variable {me : WorkerRef} {b : Reading} {notes more : List Note}

theorem numbered (reads : ReadsAll me {} notes b) :
    notes.filterMap Note.ask? = (List.range' 1 b.asked).map Nat.toUInt64 := by
  obtain ⟨n, asked, tags⟩ := reads.tags
  rw [tags, asked]
  simp

theorem distinct (reads : ReadsAll me {} notes b) (few : b.asked < 2 ^ 64) :
    (notes.filterMap Note.ask?).Nodup := by
  rw [reads.numbered, List.range'_eq_map_range, List.map_map]
  simpa [Function.comp_def, Nat.add_comm] using Client.Machine.numbersDistinct few

theorem once {note : Note} {tag : Tag} (reads : ReadsAll me {} (notes ++ note :: more) b)
    (few : b.asked < 2 ^ 64) (ended : note.over? = some tag) :
    tag ∉ notes.filterMap Note.over? := by
  intro again
  have distinct := reads.distinct few
  rw [List.filterMap_append, reads.last ended] at distinct
  have first := (List.nodup_append.mp distinct).1
  exact (List.nodup_append.mp first).2.2 _ again _ (by simp) rfl

end ReadsAll

theorem postedMail {m : Message} {ref : WorkerRef} (addressed : m.addressee? = some ref)
    (w : Worker) : (m.posted w).lastTag = w.lastTag ∧ (m.posted w).activity = w.activity ∧
      (m.posted w).mailbox = w.mailbox ++ m.event?.toList := by
  cases m with
  | request | interrupt | readStringReply => exact ⟨rfl, rfl, rfl⟩
  | _ => contradiction

theorem cameReads (me : WorkerRef) (a : Reading) (reply : Option Reply) :
    ReadsAll me a (reply.toList.map .came) { a with waiting := a.waiting ++ reply.toList } := by
  cases reply with
  | none =>
    rw [Option.toList_none, List.append_nil]
    exact .nil
  | some reply => exact .single (.came reply)

theorem postedStory {notes : List Note} {w : Worker} (story : Story notes (some w)) {m : Message}
    {ref : WorkerRef} (addressed : m.addressee? = some ref) :
    Story (notes ++ (m.event?.bind Event.reply?).toList.map .came) (some (m.posted w)) := by
  obtain ⟨a, reads, fits⟩ := story
  obtain ⟨lastTag, activity, mailbox⟩ := postedMail addressed w
  have me := (m.postedKeeps w).1
  refine ⟨{ a with waiting := a.waiting ++ (m.event?.bind Event.reply?).toList }, ?_, ?_,
    lastTag.trans fits.asked, fits.outstanding.trans (by rw [activity])⟩
  · rw [me]
    exact reads.append (cameReads w.me a _)
  · rw [mailbox, List.filterMap_append, ← fits.waiting]
    cases m.event? with
    | none => rfl
    | some event => cases event <;> rfl

namespace Log
variable {l : Log} {worker : WorkerId} {notes : List Note} {loyal : Prop}

theorem receiveStory (story : Story notes (l.session.workers.get? worker)) (m : Message) :
    Story (l.noted worker notes (.receive m))
      ((l.step (.receive m)).session.workers.get? worker) := by
  have reaches := l.session.dispatchReaches m worker
  change Story _ ((l.session.dispatch m).2.workers.get? worker)
  generalize (l.session.dispatch m).2.workers.get? worker = after at reaches
  unfold noted
  dsimp only
  cases reaches with
  | made spawns next =>
    rw [if_pos ⟨spawns, next⟩]
    exact ⟨{}, .nil, rfl, rfl, rfl⟩
  | posted addressed live found =>
    rw [found] at story
    have arrives : l.session.arrival? worker m = m.event? := by
      simp [Session.arrival?, addressed, live]
    rw [if_neg (by simp [Session.addressedOld addressed]), arrives]
    exact postedStory story addressed
  | passes old other =>
    rw [if_neg old, Session.arrival?, if_neg other]
    simpa using story

theorem receiveFollowed (followed : Followed notes) (m : Message) :
    Followed (l.noted worker notes (.receive m)) := by
  unfold noted
  dsimp only
  split
  · exact followedPlain (by simp)
  · refine followed.append (followedPlain fun note member => ?_)
    obtain ⟨reply, -, rfl⟩ := List.mem_map.mp member
    rfl

structure Tended (loyal : Prop) (l : Log) : Prop where
  orderly : l.Orderly
  housed : l.session.Housed
  attended : ∃ r : Relay, r.log = l ∧ r.due = none ∧ r.Attended loyal

theorem stepTended (tended : l.Tended loyal) {move : Move} (before : move.isTeardown = false)
    (room : (l.step move).session.registry.size ≤ 4294967294) : (l.step move).Tended loyal := by
  refine ⟨stepOrderly tended.orderly move, stepHoused tended.orderly tended.housed before room, ?_⟩
  obtain ⟨r, rfl, idle, attended⟩ := tended.attended
  cases move with
  | receive m =>
    refine ⟨r.step (.receive m), ?_, ?_, Relay.receiveAttended attended m⟩
    · simp only [Relay.step, idle]
    · simp only [Relay.step, idle]
  | work id pace globals =>
    exact ⟨r.step (.work id pace globals), rfl, idle, Relay.workAttended attended id pace globals⟩
  | loseSide => exact ⟨r.step .loseSide, rfl, idle, Relay.stepAttended attended .loseSide⟩
  | cancel | cutOff | closeWriter => contradiction

theorem openingTended {service : Service} (live : service.cancelled = false)
    (language : loyal → service.language.Obeys) (port : UInt16) :
    (opening service port).Tended loyal :=
  ⟨openingOrderly service port, openingHoused service port,
    ⟨.opening service port, rfl, rfl, Relay.openingAttended live language port⟩⟩

theorem Tended.course (tended : l.Tended loyal) {id : WorkerId} {w : Worker}
    (found : l.session.workers.get? id = some w) {pace : Pace} {globals : Globals} {t : Turn}
    (moved : w.step (l.session.paced pace).service globals = some t) :
    w.Course loyal (l.session.paced pace).service globals t := by
  obtain ⟨r, rfl, idle, attended⟩ := tended.attended
  have attends := attended.workers id
  rw [found] at attends
  exact Worker.stepCourse attended.live attended.language attends.obeys moved

theorem workIdle {id : WorkerId} {pace : Pace} {globals : Globals}
    (idle : l.session.turn? id pace globals = none) : l.step (.work id pace globals) = l := by
  cases found : l.session.workers.get? id with
  | none => simp [step, Session.paced, found]
  | some w =>
    have waits : w.step (l.session.paced pace).service globals = none := by
      simpa [Session.turn?, found] using idle
    simp only [step]
    rw [show (l.session.paced pace).workers.get? id = some w from found]
    simp only [waits]

theorem workTurn {id : WorkerId} {w : Worker} {pace : Pace} {globals : Globals} {t : Turn}
    (found : l.session.workers.get? id = some w)
    (moved : w.step (l.session.paced pace).service globals = some t) :
    (l.step (.work id pace globals)).session.workers =
      ((l.session.paced pace).resume id t.worker).workers := by
  obtain ⟨inFlight, side, effect, -⟩ :=
    ((l.session.paced pace).resume id t.worker).deliverAllEq t.said
  simp only [step]
  rw [show (l.session.paced pace).workers.get? id = some w from found]
  simp only [moved, Session.complete, effect]

theorem turnStory {s : Service} {globals : Globals} {w : Worker} {t : Turn}
    (story : Story notes (some w)) (attached : w.attached = true) (sound : w.Sound)
    (moved : w.step s globals = some t) (course : w.Course loyal s globals t) :
    Story (notes ++ w.notes t) (if t.worker.isFinished then none else some t.worker) := by
  obtain ⟨a, reads, fits⟩ := story
  obtain ⟨b, more, fits'⟩ := Worker.courseReads course attached fits
  have told := reads.append more
  obtain ⟨sound, me, -⟩ := Worker.stepKeeps sound moved
  cases finished : t.worker.isFinished with
  | true =>
    have ended := Worker.finishedIff.mp finished
    refine ⟨w.me, b, told, ?_, ?_⟩
    · rw [fits'.waiting, (sound.finished ended).2.1]
      rfl
    · rw [fits'.outstanding, ended]
      rfl
  | false => exact ⟨b, me ▸ told, fits'⟩

theorem workStory (tended : l.Tended loyal) (story : Story notes (l.session.workers.get? worker))
    (followed : loyal → Followed notes) (id : WorkerId) (pace : Pace) (globals : Globals) :
    Story (l.noted worker notes (.work id pace globals))
      ((l.step (.work id pace globals)).session.workers.get? worker) ∧
    (loyal → Followed (l.noted worker notes (.work id pace globals))) := by
  unfold noted
  dsimp only
  cases moved : l.session.turn? id pace globals with
  | none =>
    rw [workIdle moved]
    split
    · cases l.session.workers.get? id <;> exact ⟨story, followed⟩
    · exact ⟨story, followed⟩
  | some t =>
    obtain ⟨w, found, stepped⟩ := Option.bind_eq_some_iff.mp moved
    have course := tended.course found stepped
    rw [workTurn found stepped, found]
    by_cases this : id = worker
    · subst this
      rw [Session.resumeGet, if_pos rfl, if_pos rfl]
      rw [found] at story
      exact ⟨turnStory story (tended.housed.homes found).1 (tended.orderly.sound found) stepped
        course, fun honest => (followed honest).append (Worker.courseFollowed course honest)⟩
    · rw [if_neg this]
      refine ⟨Session.resumeOthers (s := l.session.paced pace) (Ne.symm this) story
        (fun _ cut => ?_) t.worker, followed⟩
      obtain ⟨a, reads, fits⟩ := cut
      exact ⟨a, reads, fits.waiting, fits.asked, fits.outstanding⟩

theorem stepStory (tended : l.Tended loyal) (story : Story notes (l.session.workers.get? worker))
    (followed : loyal → Followed notes) {move : Move} (before : move.isTeardown = false) :
    Story (l.noted worker notes move) ((l.step move).session.workers.get? worker) ∧
    (loyal → Followed (l.noted worker notes move)) := by
  cases move with
  | receive m => exact ⟨receiveStory story m, fun honest => receiveFollowed (followed honest) m⟩
  | work id pace globals => exact workStory tended story followed id pace globals
  | loseSide => exact ⟨story, followed⟩
  | cancel | cutOff | closeWriter => contradiction

theorem runStory (tended : l.Tended loyal) (story : Story notes (l.session.workers.get? worker))
    (followed : loyal → Followed notes) {moves : List Move}
    (before : ∀ move ∈ moves, move.isTeardown = false)
    (room : ∀ early, early <+: moves → (l.run early).session.registry.size ≤ 4294967294) :
    Story (l.notes worker notes moves) ((l.run moves).session.workers.get? worker) ∧
    (loyal → Followed (l.notes worker notes moves)) ∧ (l.run moves).Tended loyal := by
  induction moves generalizing l notes with
  | nil => exact ⟨story, followed, tended⟩
  | cons move rest ih =>
    obtain ⟨first, later⟩ := List.forall_mem_cons.mp before
    obtain ⟨story', followed'⟩ := stepStory tended story followed first
    refine ih (stepTended tended first ?_) story' followed' later fun early inside => ?_
    · exact room [move] (by simp)
    · exact room (move :: early) (by simpa using inside)

/- Reads are asked for under the tags from one on, and one only when the one before is over: with
the next reply that has its tag, which is its result, or aborted for the level of an interrupt. Each
reply is taken so, is reported once, or waits in the mailbox of a worker that is there. What is over
is not over again, so a late reply is never a result. -/
theorem readsAccounted {service : Service} (live : service.cancelled = false) (port : UInt16)
    {moves : List Move} (before : ∀ move ∈ moves, move.isTeardown = false)
    (room : ∀ early, early <+: moves →
      ((opening service port).run early).session.registry.size ≤ 4294967294)
    (worker : WorkerId) :
    let l := (opening service port).run moves
    let notes := (opening service port).notes worker [] moves
    ∃ (me : WorkerRef) (reading : Reading) (fates : List Fate), ReadsAll me {} notes reading ∧
      (∀ w, l.session.workers.get? worker = some w → w.me = me ∧ reading.Fits w ∧
        ∀ request tag next text later, w.activity = .reading request tag next →
          w.mailbox = .readReply tag text :: later → ∀ pace globals,
          w.step (l.session.paced pace).service globals =
            some (Turn.run (l.session.paced pace).service request (next (.ok text))
              { worker := { w with mailbox := later }, globals })) ∧
      (l.session.workers.get? worker = none →
        reading.waiting = [] ∧ reading.outstanding = none) ∧
      notes.filterMap Note.ask? = (List.range' 1 reading.asked).map Nat.toUInt64 ∧
      (reading.asked < 2 ^ 64 → (notes.filterMap Note.ask?).Nodup) ∧
      (∀ early, early <+: notes → ∃ outstanding : Option Tag,
        early.filterMap Note.ask? = early.filterMap Note.over? ++ outstanding.toList) ∧
      (∀ early note later tag, notes = early ++ note :: later → note.over? = some tag →
        early.filterMap Note.ask? = early.filterMap Note.over? ++ [tag] ∧
        (reading.asked < 2 ^ 64 → tag ∉ early.filterMap Note.over?)) ∧
      notes.filterMap Note.came? = fates.map Fate.reply ++ reading.waiting ∧
      notes.filterMap Note.took? = (fates.filter Fate.taken).map Fate.reply ∧
      notes.filterMap Note.report? =
        (fates.filter (!·.taken)).map (fun fate => staleText me fate.reply) ∧
      (service.language.Obeys → Followed notes) := by
  intro l notes
  have tended : (opening service port).Tended service.language.Obeys := openingTended live id port
  obtain ⟨side, session⟩ := openingSession service port
  have silent : Story [] ((opening service port).session.workers.get? worker) := by
    rw [session]
    exact ⟨0, {}, .nil, rfl, rfl⟩
  obtain ⟨story, followed, -⟩ :=
    runStory tended silent (fun _ => followedPlain (by simp)) before room
  change Story notes (l.session.workers.get? worker) at story
  obtain ⟨me, reading, reads, there, gone⟩ := storyReads story
  obtain ⟨fates, came, took, reported⟩ := reads.fates
  refine ⟨me, reading, fates, reads, fun w found => ?_, gone, reads.numbered, reads.distinct, ?_,
    ?_, came, took, reported, followed⟩
  · obtain ⟨same, fits⟩ := there w found
    refine ⟨same, fits, fun request tag next text later reads mail pace globals => ?_⟩
    simp [Worker.step, reads, mail, Turn.readEvent]
  · rintro early ⟨later, same⟩
    rw [← same] at reads
    obtain ⟨between, left, -⟩ := reads.split
    exact ⟨between.outstanding, left.overs⟩
  · intro early note later tag same ended
    rw [same] at reads
    exact ⟨reads.last ended, fun few => reads.once few ended⟩

def lateReply : List Move := [
  .receive (.request "(read-line)" "U" .new 1), .work 0 .throughRests [],
  .receive (.readStringReply 1 9 "wrong"), .receive (.interrupt 1), .work 0 .throughRests [],
  .work 0 .throughRests [], .receive (.readStringReply 1 1 "late"),
  .receive (.request "(read-line)" "U" (.worker 1) 2), .work 0 .throughRests [],
  .receive (.readStringReply 1 2 "new"), .work 0 .throughRests [], .work 0 .throughRests []]

theorem lateReplyReported :
    let l := opening { language := Calc.language } 0
    let notes := l.notes 0 [] lateReply
    ({ language := Calc.language } : Service).cancelled = false ∧
    (∀ move ∈ lateReply, move.isTeardown = false) ∧
    (∀ early, early <+: lateReply → (l.run early).session.registry.size ≤ 4294967294) ∧
    (∃ (me : WorkerRef) (reading : Reading) (fates : List Fate), ReadsAll me {} notes reading ∧
      notes.filterMap Note.report? =
        (fates.filter (!·.taken)).map (fun fate => staleText me fate.reply)) ∧
    notes.filterMap Note.came? = [⟨9, "wrong"⟩, ⟨1, "late"⟩, ⟨2, "new"⟩] ∧
    notes.filterMap Note.ask? = [1, 2] ∧ notes.filterMap Note.over? = [1, 2] ∧
    notes.filterMap Note.took? = [⟨2, "new"⟩] ∧
    notes.filterMap Note.report? = [staleText 1 ⟨9, "wrong"⟩, staleText 1 ⟨1, "late"⟩] ∧
    Followed notes := by
  intro l notes
  have before : ∀ move ∈ lateReply, move.isTeardown = false := by decide
  have room : ∀ early, early <+: lateReply →
      (l.run early).session.registry.size ≤ 4294967294 := by
    intro early inside
    have rooms : ∀ early ∈ lateReply.inits,
        (l.run early).session.registry.size ≤ 4294967294 := by decide +kernel
    exact rooms early ((List.mem_inits _ _).mpr inside)
  obtain ⟨me, reading, fates, reads, -, -, -, -, -, -, -, -, reported, followed⟩ :=
    @readsAccounted { language := Calc.language } rfl 0 lateReply before room 0
  exact ⟨rfl, before, room, ⟨me, reading, fates, reads, reported⟩, by decide +kernel,
    by decide +kernel, by decide +kernel, by decide +kernel, by decide +kernel,
    followed Calc.languageObeys⟩

end Log
end RemoteEval
