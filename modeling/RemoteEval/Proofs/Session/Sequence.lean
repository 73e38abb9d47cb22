import RemoteEval.Proofs.Exchange.Delivery
import RemoteEval.Proofs.Worker.Docket

/-! The requests that are routed to a worker, in every run of a session. The run itself says which
they are: the outermost one comes with the worker, and each nested one finds the worker by its
reference. When the connection closes, the mailboxes keep what is in them. -/
namespace RemoteEval

def Message.event? : Message → Option Event
  | .request form package _ id => some (.request ⟨form, package, id⟩)
  | .interrupt _ => some .wake
  | .readStringReply _ tag text => some (.readReply tag text)
  | _ => none

namespace Session

def arrival? (s : Session) (worker : WorkerId) (m : Message) : Option Event :=
  if m.addressee?.bind s.worker? = some worker then m.event? else none

def given (s : Session) (worker : WorkerId) (before : List Request) : Message → List Request
  | .request form package .new id =>
    if s.nextWorker = worker then [⟨form, package, id⟩] else before
  | m => before ++ ((s.arrival? worker m).bind Event.request?).toList

theorem givenSame (s : Session) (worker : WorkerId) (before : List Request) {m : Message}
    (other : m.requested? = none) : s.given worker before m = before := by
  cases m with
  | request => contradiction
  | _ =>
    simp only [given, arrival?]
    split <;> simp [Message.event?, Event.request?]

end Session

def Log.given (worker : WorkerId) (before : List Request) (l : Log) : List Move → List Request
  | [] => before
  | .receive m :: rest => (l.step (.receive m)).given worker (l.session.given worker before m) rest
  | move :: rest => (l.step move).given worker before rest

/- A worker that is there keeps its docket; one that is gone has left none of its requests. -/
def Books (given : List Request) (life : List Deed) : Option Worker → Prop
  | some w => Docket w.me given life (w.stance none)
  | none => given = [] ∧ life = [] ∨ ∃ me, Docket me given life ⟨.gone, [], [], none⟩

theorem booksAlike {given : List Request} {life : List Deed} {old new : Option Worker}
    (books : Books given life old) (alike : new.map Worker.inward = old.map Worker.inward) :
    Books given life new := by
  cases old with
  | none =>
    rw [Option.map_none, Option.map_eq_none_iff] at alike
    rw [alike]
    exact books
  | some w =>
    obtain ⟨v, rfl, same⟩ := Option.map_eq_some_iff.mp alike
    have stance : v.stance none = w.stance none :=
      show v.inward.stance none = w.inward.stance none by rw [same]
    have docket : Docket w.me given life (w.stance none) := books
    rw [← Worker.inwardMe same, ← stance] at docket
    exact docket

theorem Worker.awakeThere {w : Worker} (awake : w.isFinished = false) : w.task ≠ .gone := by
  intro gone
  rw [Worker.goneFinished.mp gone] at awake
  contradiction

theorem mailStance (event : Event) (interrupted : Bool) (w : Worker) :
    (Session.mail event { w with interrupted }).stance none =
      { w.stance none with queue := w.queue ++ event.request?.toList } := by
  cases event <;>
    simp [Worker.stance, Worker.task, Worker.queue, Session.mail, Event.request?]

theorem mailBooks {given : List Request} {life : List Deed} {w : Worker}
    (books : Books given life (some w)) (awake : w.isFinished = false) (event : Event)
    (interrupted : Bool) : Books (given ++ event.request?.toList) life
      (some (Session.mail event { w with interrupted })) := by
  have docket : Docket w.me given life (w.stance none) := books
  have more : Docket w.me (given ++ event.request?.toList) life
      { w.stance none with queue := w.queue ++ event.request?.toList } := by
    cases event.request? with
    | some request => exact docket.arrive (Worker.awakeThere awake) request
    | none => simpa [Worker.stance] using docket
  rw [← mailStance event interrupted] at more
  exact more

namespace Log
variable {l : Log} {worker : WorkerId} {given : List Request}

theorem postBooks (orderly : l.Orderly)
    (books : Books given (l.life worker) (l.session.workers.get? worker)) {holder : WorkerId}
    {w : Worker} (found : l.session.workers.get? holder = some w) (event : Event)
    (interrupted : Bool) :
    Books (if holder = worker then given ++ event.request?.toList else given) (l.life worker)
      ((l.session.workers.insert holder
        (Session.mail event { w with interrupted })).get? worker) := by
  by_cases this : holder = worker
  · subst this
    rw [found] at books
    have standing := orderly holder
    rw [found] at standing
    simpa using mailBooks books standing.2.1 event interrupted
  · simpa [this] using books

theorem receiveBooks (orderly : l.Orderly)
    (books : Books given (l.life worker) (l.session.workers.get? worker)) (m : Message) :
    Books (l.session.given worker given m) ((l.step (.receive m)).life worker)
      ((l.step (.receive m)).session.workers.get? worker) := by
  obtain ⟨inFlight, side, effect, -⟩ := l.stepReceive m
  rw [effect, life, List.foldl_append, ← life]
  have routed := l.session.routeRouted m
  unfold Session.remarks
  generalize l.session.route m = result at routed
  obtain ⟨said, s⟩ := result
  cases routed with
  | @spawned form package id ref registry allocated =>
    by_cases this : l.session.nextWorker = worker
    · subst this
      have begun : Books [⟨form, package, id⟩] [.said ⟨.message (.workerAssigned id ref), []⟩]
          (some (.start ref ⟨form, package, id⟩)) := Docket.start ref ⟨form, package, id⟩ none
      simpa [Session.given, Session.author?, Entry.extend, Deed.assigns] using begun
    · simpa [Session.given, Session.author?, Entry.extend, this] using books
  | @queued form package ref id holder w live found attached =>
    have known : l.session.worker? ref = some holder := by
      simp [Session.worker?, live, found, attached]
    have more := postBooks orderly books found (.request ⟨form, package, id⟩) w.interrupted
    have arrived : l.session.given worker given (.request form package (.worker ref) id) =
        if holder = worker then given ++ [⟨form, package, id⟩] else given := by
      by_cases this : holder = worker <;>
        simp [Session.given, Session.arrival?, Message.addressee?, Message.event?, known, this,
          Event.request?]
    rw [arrived]
    exact more
  | unknown absent =>
    simpa [Session.given, Session.arrival?, Message.addressee?, absent, Session.author?,
      Entry.extend] using books
  | noted text other =>
    rw [l.session.givenSame worker given other]
    simpa [Session.author?, Entry.extend] using books
  | @posted m event holder w interrupted found other news attached =>
    rw [l.session.givenSame worker given other]
    have more := postBooks orderly books found event interrupted
    simpa [news] using more

theorem workBooks (orderly : l.Orderly)
    (books : Books given (l.life worker) (l.session.workers.get? worker)) (id : WorkerId)
    (pace : Pace) (globals : Globals) :
    Books given ((l.step (.work id pace globals)).life worker)
      ((l.step (.work id pace globals)).session.workers.get? worker) := by
  rcases l.stepWork id pace globals with same | ⟨w, t, inFlight, side, found, moved, effect, -⟩
  · rw [same]
    exact books
  have standing := orderly id
  rw [found] at standing
  obtain ⟨asked, awaits⟩ := w.awaitsSome
  obtain ⟨asked', conducts, -, still, me, -⟩ := Worker.stepConduct standing.1 awaits moved
  rw [effect, life, List.foldl_append, ← life, extendDeeds worker id w.me conducts.noAssignment]
  by_cases this : worker = id
  · subst this
    rw [found] at books
    have before : Docket w.me given (l.life worker) (w.stance none) := books
    have docket := (before.asking asked).run conducts
    simp only [Session.resumeGet, if_true]
    cases finished : t.worker.isFinished with
    | true =>
      obtain ⟨levels, mailbox, backlog⟩ := still.finished (Worker.finishedIff.mp finished)
      have gone : t.worker.stance none = ⟨.gone, [], [], none⟩ := by
        simp [Worker.stance, Worker.goneFinished.mpr finished, levels, Worker.queue, mailbox,
          backlog]
      exact .inr ⟨w.me, gone ▸ docket.asking none⟩
    | false =>
      have after := docket.asking none
      rw [← me] at after
      exact after
  · rw [if_neg this]
    exact booksAlike books ((l.session.paced pace).resumeInward t.worker this)

theorem runBooks (orderly : l.Orderly)
    (books : Books given (l.life worker) (l.session.workers.get? worker)) (moves : List Move) :
    Books (l.given worker given moves) ((l.run moves).life worker)
      ((l.run moves).session.workers.get? worker) := by
  induction moves generalizing l given with
  | nil => exact books
  | cons move rest ih =>
    have next := stepOrderly orderly move
    cases move with
    | receive m => exact ih next (receiveBooks orderly books m)
    | work id pace globals => exact ih next (workBooks orderly books id pace globals)
    | loseSide | cancel | closeWriter => exact ih next books
    | cutOff => exact ih next (booksAlike books (l.session.cutOffInward worker))

theorem openingBooks (service : Service) (port : UInt16) (worker : WorkerId) :
    Books [] ((opening service port).life worker)
      ((opening service port).session.workers.get? worker) := by
  obtain ⟨side, session⟩ := openingSession service port
  rw [openingSilent, session]
  exact .inl ⟨rfl, rfl⟩

/- Requests are taken up in the order in which they were routed, and one only when each before it is
answered or suspended under a level that it opened and that is open. What a worker at work has not
taken up waits for it. Once it is gone it has answered what it had taken up, each once, and then
refused the rest in that order. -/
theorem requestsInTurn (service : Service) (port : UInt16) (moves : List Move)
    (worker : WorkerId) :
    let l := (opening service port).run moves
    let given := (opening service port).given worker [] moves
    let life := l.life worker
    startedIn life <+: given ∧ InTurn life ∧
    (∀ w, l.session.workers.get? worker = some w →
      given = startedIn life ++ (w.stance none).waiting) ∧
    (l.session.workers.get? worker = none → given = [] ∨
      ∃ me id levels main words unstarted,
        life.head? = some (.said ⟨.message (.workerAssigned id me), levels⟩) ∧
        given = startedIn life ++ unstarted ∧ life = main ++ words ∧
        Accounted main [] ∧ Refuses me unstarted words) := by
  intro l given life
  have books := runBooks (openingOrderly service port) (openingBooks service port worker) moves
  change Books given life (l.session.workers.get? worker) at books
  have orderly := runOrderly (openingOrderly service port) moves worker
  change Follows life (l.session.workers.get? worker) at orderly
  cases found : l.session.workers.get? worker with
  | some w =>
    rw [found] at books orderly
    have docket : Docket w.me given life (w.stance none) := books
    obtain ⟨order, -⟩ := docket.there (Worker.awakeThere orderly.2.1)
    refine ⟨⟨_, order.symm⟩, docket.inTurn, ?_, nofun⟩
    rintro _ ⟨⟩
    exact order
  | none =>
    rw [found] at books
    rcases books with ⟨none, silent⟩ | ⟨me, docket⟩
    · rw [none, silent]
      exact ⟨List.nil_prefix, InTurn.nil, nofun, fun _ => .inl rfl⟩
    · obtain ⟨id, levels, main, words, unstarted, head, order, rest⟩ := docket.ended
      exact ⟨⟨unstarted, order.symm⟩, docket.inTurn, nofun, fun _ =>
        .inr ⟨me, id, levels, main, words, unstarted, head, order, rest⟩⟩

def putOff : List Move := [
  .receive (.request "x" "U" .new 1), .work 0 .throughRests [],
  .receive (.request "(read-line)" "U" (.worker 1) 2), .work 0 .throughRests [],
  .receive (.request "y" "U" (.worker 1) 3), .work 0 .throughRests [],
  .receive (.readStringReply 1 1 "line"), .receive (.request "z" "U" (.worker 1) 4),
  .work 0 .throughRests [], .work 0 .throughRests [], .work 0 .throughRests []]

example : (startedIn (((opening { language := Calc.language } 0).run putOff).life 0)).map
    Request.id = [1, 2, 3, 4] := by decide +kernel

end Log
end RemoteEval
