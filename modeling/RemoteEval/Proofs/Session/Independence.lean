import RemoteEval.Proofs.Session.Settling
import RemoteEval.Proofs.Session.Teardown

/-! Messages for two workers, processed one after the other in either order. A message changes the
worker that it is for, that worker's reference when the worker ends, and what is on record of the
requests that it carries or that the worker answers. What the workers have in common is the language
with its global variables, and nothing is said of evaluations that change those. -/
namespace RemoteEval

namespace Session

/- A reference that is live stands for a worker that goes by it. -/
structure Seated (s : Session) : Prop where
  registry : s.registry.Mirrored
  holders : ∀ {ref id}, s.registry.live.get? ref = some id →
    ∃ w, s.workers.get? id = some w ∧ w.me = ref

theorem Seated.insert {s : Session} (seated : s.Seated) {id : WorkerId} {w v : Worker}
    (found : s.workers.get? id = some w) (me : v.me = w.me) :
    ({ s with workers := s.workers.insert id v } : Session).Seated := by
  refine ⟨seated.registry, fun {ref holder} live => ?_⟩
  obtain ⟨u, there, known⟩ := seated.holders live
  by_cases same : id = holder
  · subst same
    rw [found] at there
    cases there
    exact ⟨v, by simp, me.trans known⟩
  · exact ⟨u, by simpa [same] using there, known⟩

theorem Seated.routed {s s' : Session} (seated : s.Seated) {m : Message} {said : List Message}
    (routed : Routed s m said s') : s'.Seated := by
  cases routed with
  | @spawned form package id own registry allocated =>
    refine ⟨seated.registry.allocate allocated, fun {ref holder} live => ?_⟩
    obtain ⟨known, rfl⟩ | ⟨unknown, free, fresh, rfl⟩ := Registry.allocateCases allocated
    · by_cases same : s.nextWorker = holder
      · subst same
        exact ⟨.start own ⟨form, package, id⟩, by simp,
          Option.some.inj (known.symm.trans (seated.registry _ _ live))⟩
      · obtain ⟨w, found, me⟩ := seated.holders live
        exact ⟨w, by simpa [same] using found, me⟩
    · by_cases mine : own = ref
      · subst mine
        obtain rfl : s.nextWorker = holder := by simpa using live
        exact ⟨.start own ⟨form, package, id⟩, by simp, rfl⟩
      · have before : s.registry.live.get? ref = some holder := by simpa [mine] using live
        have different : s.nextWorker ≠ holder := by
          rintro rfl
          exact absurd ((seated.registry _ _ before).symm.trans unknown) (Option.some_ne_none ref)
        obtain ⟨w, found, me⟩ := seated.holders before
        exact ⟨w, by simpa [different] using found, me⟩
  | @queued form package ref id worker w known found =>
    have posted := seated.insert found (v := mail (.request ⟨form, package, id⟩) w) rfl
    exact ⟨posted.registry, posted.holders⟩
  | posted interrupted found => exact seated.insert found rfl
  | unknown | noted => exact seated

theorem Seated.resume {s : Session} (seated : s.Seated) {id : WorkerId} {w v : Worker}
    (found : s.workers.get? id = some w) (me : v.me = w.me) : (s.resume id v).Seated := by
  refine ⟨?_, fun {ref holder} live => ?_⟩
  · rw [resumeRegistry]
    split
    · exact seated.registry.release v.me
    · exact seated.registry
  rw [resumeLive] at live
  obtain ⟨kept, live⟩ := Option.ite_none_left_eq_some.mp live
  obtain ⟨u, there, known⟩ := seated.holders live
  rw [resumeGet]
  by_cases same : holder = id
  · subst same
    rw [found] at there
    cases there
    have awake : ¬ v.isFinished = true := fun finished =>
      kept ⟨finished, known.symm.trans me.symm⟩
    exact ⟨v, by rw [if_pos rfl, if_neg awake], me.trans known⟩
  · rw [if_neg same, there]
    refine ⟨_, rfl, ?_⟩
    split <;> exact known

end Session

namespace Log

theorem stepSeated {l : Log} (orderly : l.Orderly) (seated : l.session.Seated) (move : Move) :
    (l.step move).session.Seated := by
  cases move with
  | receive m =>
    obtain ⟨inFlight, side, effect, -⟩ := l.stepReceive m
    have routed := seated.routed (l.session.routeRouted m)
    rw [effect]
    exact ⟨routed.registry, routed.holders⟩
  | work worker pace globals =>
    rcases l.stepWork worker pace globals with
      same | ⟨w, t, inFlight, side, found, moved, effect, -⟩
    · rw [same]
      exact seated
    · rw [effect]
      obtain ⟨-, me, -⟩ := Worker.stepKeeps (orderly.sound found) moved
      have paced : (l.session.paced pace).Seated := ⟨seated.registry, seated.holders⟩
      have resumed := paced.resume found me
      exact ⟨resumed.registry, resumed.holders⟩
  | loseSide | cancel | closeWriter => exact ⟨seated.registry, seated.holders⟩
  | cutOff =>
    obtain ⟨workers, effect⟩ := l.session.cutOffRest
    rw [show (l.step .cutOff).session = _ from effect]
    exact ⟨nofun, nofun⟩

theorem runSeated {l : Log} (orderly : l.Orderly) (seated : l.session.Seated) (moves : List Move) :
    (l.run moves).session.Seated := by
  induction moves generalizing l with
  | nil => exact seated
  | cons move rest ih => exact ih (stepOrderly orderly move) (stepSeated orderly seated move)

theorem openingSeated (service : Service) (port : UInt16) :
    (opening service port).session.Seated := by
  obtain ⟨side, session⟩ := openingSession service port
  rw [session]
  exact ⟨nofun, nofun⟩

end Log

namespace Message
variable (m : Message) {w : Worker}

theorem postedSound (sound : w.Sound) (awake : w.isFinished = false) : (m.posted w).Sound := by
  cases m with
  | interrupt ref =>
    exact Session.mailSound ⟨sound.grounded, sound.prompt, sound.starting, sound.finished⟩ awake
  | request | readStringReply => exact Session.mailSound sound awake
  | _ => exact sound

theorem postedKeeps (w : Worker) : (m.posted w).me = w.me ∧ (m.posted w).attached = w.attached ∧
    (m.posted w).isFinished = w.isFinished := by
  cases m <;> exact ⟨rfl, rfl, rfl⟩

theorem postedHeld (w : Worker) : (m.posted w).held = w.held ++ m.requested?.toList := by
  cases m with
  | request | readStringReply => exact Session.mailHeld _ w
  | interrupt => exact Session.mailHeld .wake { w with interrupted := true }
  | _ => simp [posted, requested?]

end Message

namespace Session

structure Works (s : Session) (globals : Globals) (m : Message) (id : WorkerId) (w w' : Worker)
    (said : List Utterance) (globals' : Globals) : Prop where
  addressed : m.addressee? = some w'.me
  live : s.worker? w'.me = some id
  found : s.workers.get? id = some w
  sound : w.Sound
  awake : w.isFinished = false
  settles : Worker.Settles s.service globals (m.posted w) said globals' w'

inductive Touches (s : Session) (m : Message) (id : RequestId) : Prop where
  | carried (requested : m.requested? = some id)
  | held {ref worker w} (addressed : m.addressee? = some ref) (live : s.worker? ref = some worker)
      (found : s.workers.get? worker = some w) (holds : w.Holds id)

/- Only the worker that the message is for has changed, only its reference may have been given back,
and only requests that the message touches are on record in another way. -/
def Spares (s : Session) (m : Message) (s' : Session) : Prop :=
  ∃ ref id, m.addressee? = some ref ∧ s.worker? ref = some id ∧
    (∀ other, other ≠ id → s'.workers.get? other = s.workers.get? other) ∧
    (∀ other, other ≠ ref → s'.registry.live.get? other = s.registry.live.get? other) ∧
    ∀ request, ¬ s.Touches m request → s'.inFlight.get? request = s.inFlight.get? request

section
variable {s : Session} {m : Message} {id : WorkerId} {w w' : Worker} {said : List Utterance}
  {globals globals' : Globals}

theorem afterGet (s : Session) (m : Message) (id other : WorkerId) (w : Worker)
    (said : List Utterance) : (s.after m id w said).workers.get? other =
      if other = id then (if w.isFinished then none else some w) else s.workers.get? other := by
  unfold after
  dsimp only
  by_cases same : other = id
  · cases w.isFinished <;> simp [same]
  · cases w.isFinished <;> simp [same, Ne.symm same]

theorem afterOthers {other : WorkerId} (apart : other ≠ id) :
    (s.after m id w said).workers.get? other = s.workers.get? other := by
  rw [afterGet, if_neg apart]

theorem afterLive {other : WorkerRef} (apart : other ≠ w.me) :
    (s.after m id w said).registry.live.get? other = s.registry.live.get? other := by
  unfold after
  dsimp only
  split
  · simp [Registry.releaseLive, apart]
  · rfl

theorem eraseAllGet (ids : List RequestId) (t : Table RequestId WorkerRef) (k : RequestId) :
    (ids.foldl Table.erase t).get? k = if k ∈ ids then none else t.get? k := by
  induction ids generalizing t with
  | nil => simp
  | cons first rest ih =>
    rw [List.foldl_cons, ih, Table.getErase]
    by_cases same : k = first <;> simp [same]

theorem afterInFlight (k : RequestId) : (s.after m id w said).inFlight.get? k =
    if k ∈ said.filterMap Utterance.answered? then none
    else if m.requested? = some k then some w.me else s.inFlight.get? k := by
  simp only [after, eraseAllGet]
  cases m.requested? <;> simp

theorem afterAlike {t : Session} {k : RequestId} (alike : t.inFlight.get? k = s.inFlight.get? k) :
    (t.after m id w said).inFlight.get? k = (s.after m id w said).inFlight.get? k := by
  rw [afterInFlight, afterInFlight, alike]

theorem afterSent (s : Session) (m : Message) (id : WorkerId) (w : Worker)
    (said words : List Utterance) :
    ((s.after m id w said).deliverAll words).1 = (s.deliverAll words).1 := by
  have side : (s.after m id w said).side.isNone = s.side.isNone := by simp [after]
  exact deliverAllSent (by exact rfl) side words

theorem sameApart {a b : Session} (service : a.service = b.service)
    (registry : a.registry = b.registry) (workers : a.workers = b.workers)
    (nextWorker : a.nextWorker = b.nextWorker) (state : a.state = b.state)
    (writable : a.writable = b.writable) :
    a = { b with inFlight := a.inFlight, side := a.side } := by
  cases a
  cases b
  simp_all

theorem afterSwap {m₁ m₂ : Message} {id₁ id₂ : WorkerId} {w₁ w₂ : Worker}
    {said₁ said₂ : List Utterance} (apart : id₁ ≠ id₂) :
    (s.after m₂ id₂ w₂ said₂).after m₁ id₁ w₁ said₁ =
      { (s.after m₁ id₁ w₁ said₁).after m₂ id₂ w₂ said₂ with
        inFlight := ((s.after m₂ id₂ w₂ said₂).after m₁ id₁ w₁ said₁).inFlight
        side := ((s.after m₂ id₂ w₂ said₂).after m₁ id₁ w₁ said₁).side } := by
  have registry : ((s.after m₂ id₂ w₂ said₂).after m₁ id₁ w₁ said₁).registry =
      ((s.after m₁ id₁ w₁ said₁).after m₂ id₂ w₂ said₂).registry := by
    unfold after
    dsimp only
    split <;> split <;> first | rfl | exact Registry.releaseSwap ..
  have workers : ((s.after m₂ id₂ w₂ said₂).after m₁ id₁ w₁ said₁).workers =
      ((s.after m₁ id₁ w₁ said₁).after m₂ id₂ w₂ said₂).workers := by
    refine Table.ext fun k => ?_
    rw [afterGet, afterGet, afterGet, afterGet]
    by_cases first : k = id₁
    · rw [if_pos first, if_neg fun second => apart (first.symm.trans second), if_pos first]
    · rw [if_neg first, if_neg first]
  exact sameApart rfl registry workers rfl rfl rfl

namespace Works

theorem me (works : s.Works globals m id w w' said globals') : w'.me = w.me :=
  (works.settles.keeps (m.postedSound works.sound works.awake)).2.1.trans (m.postedKeeps w).1

theorem processes (works : s.Works globals m id w w' said globals') :
    s.Processes globals m (s.deliverAll said).1 globals' (s.after m id w' said) :=
  processesAfter works.addressed works.live works.found rfl
    ((m.postedKeeps w).2.2.trans works.awake) works.settles

theorem answers (works : s.Works globals m id w w' said globals') {k : RequestId}
    (answered : k ∈ said.filterMap Utterance.answered?) : s.Touches m k := by
  obtain ⟨-, -, -, owed⟩ := works.settles.keeps (m.postedSound works.sound works.awake)
  have among := owed.mem_iff.mpr (List.mem_append_left w'.held answered)
  rw [m.postedHeld, List.mem_append, Option.mem_toList] at among
  rcases among with before | carried
  · exact .held works.addressed works.live works.found (Worker.memHeld.mp before)
  · exact .carried carried

theorem untouched (works : s.Works globals m id w w' said globals') {k : RequestId}
    (free : ¬ s.Touches m k) (t : Session) :
    (t.after m id w' said).inFlight.get? k = t.inFlight.get? k := by
  rw [afterInFlight, if_neg fun answered => free (works.answers answered),
    if_neg fun carried => free (.carried carried)]

theorem spares (works : s.Works globals m id w w' said globals') :
    s.Spares m (s.after m id w' said) :=
  ⟨w'.me, id, works.addressed, works.live, fun _ apart => afterOthers apart,
    fun _ apart => afterLive apart, fun _ free => works.untouched free s⟩

theorem later {one : WorkerId} {v : Worker} (works : s.Works globals m id w w' said globals')
    (apart : id ≠ one) (refs : w'.me ≠ v.me) (other : Message) (words : List Utterance) :
    (s.after other one v words).Works globals m id w w' said globals' := by
  refine ⟨works.addressed, ?_, (afterOthers apart).trans works.found, works.sound, works.awake,
    works.settles⟩
  have live := works.live
  unfold worker? at live ⊢
  rw [afterLive refs]
  split at live
  next holder known =>
    obtain ⟨attached, rfl⟩ := Option.ite_none_right_eq_some.mp live |>.imp_right Option.some.inj
    simp only [afterOthers apart, attached, if_true]
  · contradiction

end Works
end

def BothOrders (s : Session) (globals : Globals) (m₁ m₂ : Message) (one other : Session) : Prop :=
  ∃ sent₁ sent₂ s₁ s₂, s.Processes globals m₁ sent₁ globals s₁ ∧
    s₁.Processes globals m₂ sent₂ globals one ∧ s.Processes globals m₂ sent₂ globals s₂ ∧
    s₂.Processes globals m₁ sent₁ globals other

def Clash (s : Session) (m₁ m₂ : Message) (request : RequestId) : Prop :=
  m₁.requested? = some request ∧ s.Touches m₂ request ∨
    m₂.requested? = some request ∧ s.Touches m₁ request

/- The sessions differ at most in what went through the separate connection for output, and in what
is on record of requests on which the messages clash. -/
structure Agree (s : Session) (m₁ m₂ : Message) (one other : Session) : Prop where
  same : other = { one with inFlight := other.inFlight, side := other.side }
  inFlight : ∀ request, ¬ s.Clash m₁ m₂ request →
    other.inFlight.get? request = one.inFlight.get? request
  side : ∃ text₁ text₂, one.side = s.side.map (· ++ text₁ ++ text₂) ∧
    other.side = s.side.map (· ++ text₂ ++ text₁)

theorem worksAgree {s : Session} {globals : Globals} {m₁ m₂ : Message} {id₁ id₂ : WorkerId}
    {w₁ w₂ w₁' w₂' : Worker} {said₁ said₂ : List Utterance}
    (first : s.Works globals m₁ id₁ w₁ w₁' said₁ globals)
    (second : s.Works globals m₂ id₂ w₂ w₂' said₂ globals) (apart : id₁ ≠ id₂) :
    s.Agree m₁ m₂ ((s.after m₁ id₁ w₁' said₁).after m₂ id₂ w₂' said₂)
      ((s.after m₂ id₂ w₂' said₂).after m₁ id₁ w₁' said₁) := by
  refine ⟨afterSwap apart, fun request free => ?_, printed s.writable said₁,
    printed s.writable said₂, ?_, ?_⟩
  · by_cases carried₁ : m₁.requested? = some request
    · have other : ¬ s.Touches m₂ request := fun also => free (.inl ⟨carried₁, also⟩)
      exact (afterAlike (second.untouched other s)).trans (second.untouched other _).symm
    by_cases carried₂ : m₂.requested? = some request
    · have other : ¬ s.Touches m₁ request := fun also => free (.inr ⟨carried₂, also⟩)
      exact (first.untouched other _).trans (afterAlike (first.untouched other s)).symm
    · simp only [afterInFlight, carried₁, carried₂, if_false]
      by_cases one : request ∈ said₁.filterMap Utterance.answered? <;> simp [one]
  · simp [after, Function.comp_def]
  · simp [after, Function.comp_def]

theorem worksAlways {l : Log} (orderly : l.Orderly) (seated : l.session.Seated) (globals : Globals)
    {m : Message} {ref : WorkerRef} (addressed : m.addressee? = some ref)
    (live : (l.session.worker? ref).isSome = true) : ∃ id w said globals' w',
      w'.me = ref ∧ (l.session.paced .throughRests).Works globals m id w w' said globals' := by
  obtain ⟨id, known⟩ := Option.isSome_iff_exists.mp live
  obtain ⟨holds, w, found, attached⟩ := workerLive known
  obtain ⟨w', again, me⟩ := seated.holders holds
  rw [found] at again
  cases again
  have standing := orderly id
  rw [found] at standing
  obtain ⟨sound, awake, -⟩ := standing
  obtain ⟨sameMe, sameAttached, -⟩ := m.postedKeeps w
  obtain ⟨said, globals', w', settles⟩ := Worker.settlesAlways
    (s := (l.session.paced .throughRests).service) rfl (m.postedSound sound awake)
    (sameAttached.trans attached) globals
  have last : w'.me = ref :=
    (settles.keeps (m.postedSound sound awake)).2.1.trans (sameMe.trans me)
  exact ⟨id, w, said, globals', w', last, by rw [last]; exact addressed, by rw [last]; exact known,
    found, sound, awake, settles⟩

def bothOrders? (s : Session) (globals : Globals) (m₁ m₂ : Message) :
    Option (Session × Session) := do
  let (sent₁, one₁, s₁) ← s.process? globals m₁
  let (sent₂, one₂, one) ← s₁.process? globals m₂
  let (again₂, other₂, s₂) ← s.process? globals m₂
  let (again₁, other₁, other) ← s₂.process? globals m₁
  if again₁ = sent₁ ∧ again₂ = sent₂ ∧ [one₁, one₂, other₂, other₁] = List.replicate 4 globals then
    some (one, other)
  else none

theorem orderedBoth? {s one other : Session} {globals : Globals} {m₁ m₂ : Message}
    (found : s.bothOrders? globals m₁ m₂ = some (one, other)) :
    s.BothOrders globals m₁ m₂ one other := by
  simp only [bothOrders?, Option.bind_eq_bind, Option.bind_eq_some_iff] at found
  obtain ⟨⟨sent₁, one₁, s₁⟩, first, ⟨sent₂, one₂, last⟩, second, ⟨again₂, other₂, s₂⟩, third,
    ⟨again₁, other₁, also⟩, fourth, same⟩ := found
  obtain ⟨⟨rfl, rfl, calm⟩, ends⟩ := Option.ite_none_right_eq_some.mp same
  cases calm
  cases ends
  exact ⟨again₁, again₂, s₁, s₂, processed? first, processed? second, processed? third,
    processed? fourth⟩

end Session

namespace Log

/- Two messages for two workers, each processed until its worker has to wait or is gone. If global
variables are left as they are, the order does not matter to what each worker says, nor to what
becomes of the workers and their references. -/
theorem ordersAgree (service : Service) (port : UInt16) (moves : List Move) (globals : Globals)
    (m₁ m₂ : Message) (ref₁ ref₂ : WorkerRef)
    (addressed₁ : m₁.addressee? = some ref₁) (addressed₂ : m₂.addressee? = some ref₂)
    (live₁ : (((opening service port).run moves).session.worker? ref₁).isSome = true)
    (live₂ : (((opening service port).run moves).session.worker? ref₂).isSome = true)
    (apart : ref₁ ≠ ref₂) :
    let s := ((opening service port).run moves).session.paced .throughRests
    ∃ sent₁ sent₂ globals₁ globals₂ s₁ s₂,
      s.Processes globals m₁ sent₁ globals₁ s₁ ∧ s₁.Processes globals₁ m₂ sent₂ globals₂ s₂ ∧
      s.Spares m₁ s₁ ∧ s₁.Spares m₂ s₂ ∧
      (globals₁ = globals → globals₂ = globals → ∃ other,
        s.BothOrders globals m₁ m₂ s₂ other ∧ s.Agree m₁ m₂ s₂ other) := by
  intro s
  have orderly := runOrderly (openingOrderly service port) moves
  have seated := runSeated (openingOrderly service port) (openingSeated service port) moves
  obtain ⟨id₁, w₁, said₁, globals₁, w₁', rfl, first⟩ :=
    Session.worksAlways orderly seated globals addressed₁ live₁
  obtain ⟨id₂, w₂, said₂, globals₂, w₂', rfl, second⟩ :=
    Session.worksAlways orderly seated globals₁ addressed₂ live₂
  have workers : id₁ ≠ id₂ := by
    rintro rfl
    have found := first.found.symm.trans second.found
    cases found
    exact apart (first.me.trans second.me.symm)
  have then₂ := second.later workers.symm apart.symm m₁ said₁
  have processed₂ := then₂.processes
  rw [Session.afterSent] at processed₂
  refine ⟨_, _, globals₁, globals₂, _, _, first.processes, processed₂, first.spares,
    then₂.spares, ?_⟩
  intro calm₁ calm₂
  subst calm₁ calm₂
  have then₁ := first.later workers apart m₂ said₂
  have processed₁ := then₁.processes
  rw [Session.afterSent] at processed₁
  exact ⟨_, ⟨_, _, _, _, first.processes, processed₂, second.processes, processed₁⟩,
    Session.worksAgree first second workers⟩

def bothPrompts : List Move := [
  .receive (.request "x" "U" .new 1), .work 0 .throughRests [],
  .receive (.request "y" "U" .new 2), .work 1 .throughRests []]

def promptsSession : Session :=
  ((opening { language := Calc.language } 0).run bothPrompts).session.paced .throughRests

def readLine (ref : WorkerRef) (id : RequestId) : Message :=
  .request "(read-line)" "U" (.worker ref) id

theorem promptsAgree : ∃ one other,
    promptsSession.BothOrders [] (.interrupt 1) (readLine 2 3) one other ∧
      promptsSession.Agree (.interrupt 1) (readLine 2 3) one other := by
  have both : (promptsSession.bothOrders? [] (.interrupt 1) (readLine 2 3)).isSome = true := by
    decide +kernel
  obtain ⟨⟨one, other⟩, found⟩ := Option.isSome_iff_exists.mp both
  obtain ⟨_, _, _, _, first, second, -, -⟩ := Session.orderedBoth? found
  obtain ⟨_, _, globals₁, globals₂, s₁, s₂, processed, then', -, -, agree⟩ :=
    ordersAgree { language := Calc.language } 0 bothPrompts [] (.interrupt 1) (readLine 2 3) 1 2
      rfl rfl (by decide +kernel) (by decide +kernel) (by decide)
  obtain ⟨-, calm₁, rfl⟩ := Session.Processes.unique processed first
  subst calm₁
  obtain ⟨-, calm₂, -⟩ := Session.Processes.unique then' second
  obtain ⟨last, orders, alike⟩ := agree rfl calm₂
  exact ⟨s₂, last, orders, alike⟩

theorem lastAskedRecorded : ∃ one other,
    promptsSession.BothOrders [] (readLine 1 3) (readLine 2 3) one other ∧
      one.inFlight.get? 3 = some 2 ∧ other.inFlight.get? 3 = some 1 := by
  have both : (promptsSession.bothOrders? [] (readLine 1 3) (readLine 2 3)).any (fun ends =>
      ends.1.inFlight.get? 3 = some 2 ∧ ends.2.inFlight.get? 3 = some 1) = true := by decide +kernel
  obtain ⟨⟨one, other⟩, found, recorded⟩ := (Option.any_eq_true _ _).mp both
  exact ⟨one, other, Session.orderedBoth? found, of_decide_eq_true recorded⟩

end Log
end RemoteEval