import RemoteEval.Proofs.Session.Origin
import RemoteEval.Proofs.Exchange.Desync
import RemoteEval.Proofs.Wire.RoundTrip

/-! Where a message arrives that the client sends to a worker. A reference is given out again as
soon as its worker has ended, and a message says nothing of the worker that was meant. So it can
arrive at a later worker, and then that worker was started for a request that the client had
already sent, and of whose worker it had not heard when it sent the message. Otherwise the message
arrives at the worker whose outermost request lies at the bottom of the client's stack, or at
none. What the worker does with the message is not the question here. -/
namespace RemoteEval

open Client (Machine StackFrame)
open Client.Machine (requestIds)

variable {γ : Type}

def Message.addressee? : Message → Option WorkerRef
  | .request _ _ (.worker ref) _ | .interrupt ref | .readStringReply ref _ _ => some ref
  | _ => none

namespace Session
variable {s : Session} {ref : WorkerRef} {worker : WorkerId} {w w' : Worker}

theorem routePosts {m : Message} (addressed : m.addressee? = some ref) :
    ∃ f, (∃ u, s.post ref f = .ok u ∧ (s.route m).2.workers = u.workers) ∨
      (∃ e, s.post ref f = .error e ∧ (s.route m).2.workers = s.workers) := by
  cases m with
  | request form package target id =>
    cases target with
    | new => contradiction
    | worker own =>
      cases addressed
      refine ⟨mail (.request ⟨form, package, id⟩), ?_⟩
      cases effect : s.post ref (mail (.request ⟨form, package, id⟩)) with
      | ok u => exact .inl ⟨u, rfl, by simp [route, effect]⟩
      | error e => exact .inr ⟨e, rfl, by simp [route, effect]⟩
  | interrupt own =>
    cases addressed
    refine ⟨fun w => mail .wake { w with interrupted := true }, ?_⟩
    cases effect : s.post ref fun w => mail .wake { w with interrupted := true } with
    | ok u => exact .inl ⟨u, rfl, by simp [route, report, effect]⟩
    | error e => exact .inr ⟨e, rfl, by simp [route, report, effect]⟩
  | readStringReply own tag text =>
    cases addressed
    refine ⟨mail (.readReply tag text), ?_⟩
    cases effect : s.post ref (mail (.readReply tag text)) with
    | ok u => exact .inl ⟨u, rfl, by simp [route, report, effect]⟩
    | error e => exact .inr ⟨e, rfl, by simp [route, report, effect]⟩
  | _ => contradiction

theorem routeAddressee {m : Message} (addressed : m.addressee? = some ref)
    (before : s.workers.get? worker = some w) (after : (s.route m).2.workers.get? worker = some w')
    (changed : w'.mailbox ≠ w.mailbox) : s.registry.live.get? ref = some worker := by
  have still : s.workers.get? worker ≠ some w' := by
    intro same
    rw [before] at same
    cases same
    exact changed rfl
  obtain ⟨f, ⟨u, posted, workers⟩ | ⟨e, _, workers⟩⟩ := routePosts (s := s) addressed
  · rcases postEq s ref f with ⟨holder, v, live, _, _, effect⟩ | ⟨_, refused⟩
    · rw [effect] at posted
      cases posted
      by_cases this : holder = worker
      · exact this ▸ live
      · exact absurd (by simpa [workers, this] using after) still
    · rw [refused] at posted
      contradiction
  · rw [workers] at after
    exact absurd after still

end Session

theorem Based.last {outermost : RequestId} {stack : List (StackFrame γ)}
    (based : Based outermost stack) : (requestIds stack).getLast? = some outermost := by
  induction based with
  | bottom => rfl
  | level _ ih => exact ih
  | @request id k view stack rest ih =>
    have ids : requestIds (.evaluating id k :: .debugging view :: stack) =
        id :: requestIds (.debugging view :: stack) := rfl
    rw [ids, List.getLast?_cons_of_ne_nil (List.ne_nil_of_mem rest.outermostMem)]
    exact ih

theorem assignedOutermost {received : List Message} {heard : List Parcel}
    (flows : Flows received (fun _ => none) heard) (read : AllRead heard) :
    ∀ p ∈ heard, ∀ id ref, p.message = .workerAssigned id ref →
      id ∉ heard.filterMap (·.message.answered?) → (bonds heard).outer ref = some id := by
  induction heard using List.reverseRecOn with
  | nil => simp
  | append_singleton heard q ih =>
    obtain ⟨before, now⟩ := List.forall_mem_append.mp read
    obtain ⟨flowed, flows⟩ := flowsAppend.mp flows
    have legal : Legal received (bonds heard) q := (flows before (now q (by simp))).1
    intro p member id ref assigned owed
    rw [filterMapSnoc, List.mem_append, not_or] at owed
    rw [bondsSnoc]
    rcases List.mem_append.mp member with older | new
    · have known := ih flowed before p older id ref assigned owed.1
      cases legal with
      | features | channel | notice | unknown => exact known
      | reported text gone | refused value gone =>
        rw [hearGone (by simp) gone]
        exact known
      | @assigned worker own other free =>
        have different : ref ≠ own := by
          rintro rfl
          rw [outerFree free] at known
          contradiction
        simpa [Bonds.outer, Bonds.hear, different] using known
      | @spoken a b m levels bound worker speech =>
        rw [outerHear bound worker speech.plain]
        by_cases here : ref = a.ref
        · subst here
          rw [outerOf bound] at known
          cases next : b.hear levels m with
          | none => simp [Bond.hearNone next, Option.some.inj known] at owed
          | some b' => simpa [(Bond.hearKeeps next).2.1] using known
        · simpa [here] using known
    · cases List.mem_singleton.mp new
      cases legal with
      | features | channel | notice | unknown | reported | refused => contradiction
      | assigned free => cases assigned; simp [Bonds.outer, Bonds.hear]
      | spoken _ _ speech => exact absurd assigned (speech.plain id ref)

theorem Log.entriesGrow (l : Log) (move : Move) :
    ∃ new, (l.step move).entries = l.entries ++ new := by
  cases move with
  | receive m => exact ⟨_, rfl⟩
  | work worker pace globals =>
    rcases l.stepWork worker pace globals with same | ⟨_, _, _, _, _, _, effect, _⟩
    · exact ⟨[], by rw [same, List.append_nil]⟩
    · exact ⟨_, by rw [effect]⟩
  | loseSide | cancel | cutOff | closeWriter => exact ⟨[], (List.append_nil _).symm⟩

theorem parcelSaid {entries : List Entry} {e : Entry} (among : e ∈ entries) {m : Message} {levels}
    (said : e.deed = .said ⟨.message m, levels⟩) (dedicated : Bool) :
    ∃ p ∈ entries.filterMap (Entry.parcel? dedicated), p.message = m :=
  ⟨⟨e.author, m, levels⟩, List.mem_filterMap.mpr ⟨e, among, by simp [Entry.parcel?, said,
    Spoken.carried, Spoken.message]⟩, rfl⟩

namespace Exchange

def Carries (x : Exchange γ) : Prop :=
  ∀ e ∈ x.log.entries, ∀ m levels, e.deed = .said ⟨.message m, levels⟩ →
    ∃ p ∈ x.heard ++ x.down, p.message = m

theorem serveCarries {x : Exchange γ} (carries : x.Carries) (move : Move) {up : List Message} :
    ({ x with up }.serve move).Carries := by
  obtain ⟨new, entries⟩ := x.log.entriesGrow move
  intro e among m levels said
  have carried : ({ x with up }.serve move).heard ++ ({ x with up }.serve move).down =
      (x.heard ++ x.down) ++ new.filterMap (Entry.parcel? x.log.session.side.isSome) := by
    simp only [serve, entries, List.drop_left, List.append_assoc]
    rfl
  rw [carried]
  rcases List.mem_append.mp (entries ▸ among) with older | added
  · obtain ⟨p, member, same⟩ := carries e older m levels said
    exact ⟨p, List.mem_append_left _ member, same⟩
  · obtain ⟨p, member, same⟩ := parcelSaid added said x.log.session.side.isSome
    exact ⟨p, List.mem_append_right _ member, same⟩

theorem Advances.carries {x y : Exchange γ} (advances : x.Advances y) (carries : x.Carries) :
    y.Carries := by
  cases advances with
  | stay => exact carries
  | call =>
    intro e among m levels said
    rw [heardSend]
    exact carries e among m levels said
  | dispatch => exact serveCarries carries _
  | work | loseSide => exact serveCarries carries _
  | handle down =>
    intro e among m levels said
    rw [heardHandle, List.append_assoc, List.singleton_append, ← down]
    exact carries e among m levels said

theorem runCarries (service : Service) (port : UInt16) (steps : List (Step γ)) :
    ((opening service port).run steps : Exchange γ).Carries := by
  refine runKeeps Advances.carries (fun e among m levels said => ?_) steps
  exact parcelSaid among said false

theorem storyGrows (x : Exchange γ) (steps : List (Step γ)) :
    x.heard <+: (x.run steps).heard ∧ x.sent <+: (x.run steps).sent := by
  refine runKeeps (P := fun y => x.heard <+: y.heard ∧ x.sent <+: y.sent) ?_
    ⟨List.prefix_refl _, List.prefix_refl _⟩ steps
  rintro y z advances ⟨heard, sent⟩
  cases advances with
  | stay | dispatch | work | loseSide => exact ⟨heard, sent⟩
  | call =>
    rw [heardSend, sentSend]
    exact ⟨heard, sent.trans (List.prefix_append ..)⟩
  | handle =>
    refine ⟨?_, by simpa [Exchange.sent] using sent⟩
    rw [heardHandle]
    exact heard.trans (List.prefix_append ..)

theorem runOrderly (service : Service) (port : UInt16) (steps : List (Step γ)) :
    ((opening service port).run steps : Exchange γ).log.Orderly := by
  refine runKeeps (P := fun x : Exchange γ => x.log.Orderly) ?_
    (Log.openingOrderly service port) steps
  intro x y advances orderly
  cases advances with
  | stay | call | handle => exact orderly
  | dispatch => exact Log.stepOrderly orderly _
  | work | loseSide => exact Log.stepOrderly orderly _

def Delivers (x : Exchange γ) (worker : WorkerId) : Prop :=
  ∃ w w', x.log.session.workers.get? worker = some w ∧
    (x.step .dispatch).log.session.workers.get? worker = some w' ∧ w'.mailbox ≠ w.mailbox

theorem Delivers.live {x : Exchange γ} {worker : WorkerId} (delivers : x.Delivers worker)
    {m : Message} {later : List Message} (up : x.up = m :: later) {ref : WorkerRef}
    (addressed : m.addressee? = some ref) : x.log.session.registry.live.get? ref = some worker := by
  obtain ⟨w, w', before, after, changed⟩ := delivers
  unfold Exchange.step at after
  split at after
  · obtain ⟨inFlight, side, effect, _⟩ := x.log.stepReceive m
    have workers : (x.act .dispatch).log.session.workers = (x.log.session.route m).2.workers := by
      simp only [act, up, serve, effect]
    rw [workers] at after
    exact Session.routeAddressee addressed before after changed
  · rw [before] at after
    cases after
    exact absurd rfl changed

/- A message for a worker arrives at the worker that was started for the request at the bottom of
the client's stack, or for one whose assignment the client had not heard. -/
theorem deliveredToAddressee (service : Service) (port : UInt16) (before : List (Step γ))
    (call : Step γ) (between : List (Step γ)) :
    let x : Exchange γ := (opening service port).run before
    let y := x.step call
    let z := y.run between
    ∀ m ref, y.sent = x.sent ++ [m] → m.addressee? = some ref → x.client.stack ref ≠ [] →
      z.log.received = x.sent → ∀ worker, z.Delivers worker →
        ∃ id, z.log.startedFor? worker = some id ∧
          ((requestIds (x.client.stack ref)).getLast? = some id ∨
            (x.client.unbound.get? id).isSome = true) := by
  intro x y z m ref sent addressed busy received worker delivers
  have whole : z = (opening service port).run (before ++ call :: between) := by
    simp only [z, y, x, run, List.foldl_append, List.foldl_cons]
  have regular : x.Regular := runRegular service port before
  have later : z.Regular := whole ▸ runRegular service port (before ++ call :: between)
  -- what came before the message has been dispatched, so it could be read
  have clear : ∀ n ∈ x.sent, n.readable = true := received ▸ later.dispatched
  have places : Places x.sent x.assigned x.answered (bonds x.heard).outer x.client :=
    (runTracked service port before clear).places
  have books : z.log.Balanced := later.conveys.balanced
  have grown : x.heard <+: z.heard := (x.storyGrows (call :: between)).1
  obtain ⟨rest, up⟩ : ∃ rest, z.up = m :: rest := by
    obtain ⟨rest, more⟩ := (y.storyGrows between).2
    refine ⟨rest, ?_⟩
    have passed := later.passed
    rw [← show y.sent ++ rest = z.sent from more, sent, received, List.append_assoc] at passed
    exact (List.append_cancel_left passed).symm
  obtain ⟨w, found, rfl, -⟩ := books.live (delivers.live up addressed)
  have orderly : z.log.Orderly := whole ▸ runOrderly service port (before ++ call :: between)
  obtain ⟨id, levels, started, held, e, among, said⟩ := orderly.started found
  have carries : z.Carries := whole ▸ runCarries service port (before ++ call :: between)
  obtain ⟨q, inside, told⟩ := carries e among _ _ said
  have announced : q.message.assigned? = some id := by rw [told]; rfl
  refine ⟨id, started, or_iff_not_imp_right.mpr fun waits => ?_⟩
  have fresh : Fresh x.sent id := by
    have member : id ∈ (z.heard ++ z.down).filterMap (·.message.assigned?) :=
      List.mem_filterMap.mpr ⟨q, inside, announced⟩
    rw [later.conveys.assigned, received] at member
    obtain ⟨n, among, asks⟩ := List.mem_filterMap.mp member
    cases n with
    | request form package target own =>
      cases target with
      | new =>
        cases asks
        exact ⟨form, package, among⟩
      | worker => contradiction
    | _ => contradiction
  -- the client has heard of the worker, and the request is still owed
  have assigned : id ∈ x.assigned := by
    by_contra missing
    exact waits (places.unbound.mpr ⟨fresh, missing⟩)
  obtain ⟨p, heard, gives⟩ := List.mem_filterMap.mp assigned
  have once : ((z.heard ++ z.down).filterMap (·.message.assigned?)).Nodup := by
    rw [later.conveys.assigned]
    exact later.distinct.sublist (freshRequested _)
  cases sourceOnce once (List.mem_append_left _ (grown.subset heard)) inside gives announced
  have owed : id ∉ x.heard.filterMap (·.message.answered?) := by
    intro answered
    have replied : id ∈ z.log.answered := by
      rw [← later.conveys.answered, List.filterMap_append]
      exact List.mem_append_left _ ((grown.filterMap _).subset answered)
    exact (List.nodup_append.mp (books.balance.nodup_iff.mp later.distinct)).2.2 id replied id
      (Session.memSessionHeld.mpr ⟨worker, w, found, held⟩) rfl
  have flows := (flowsAppend.mp regular.conveys.flows).1
  have known := assignedOutermost flows regular.heard q heard id w.me told owed
  exact (places.based known).1.last

def ask (form : String) (worker : Option WorkerRef) : Step Unit := .evaluate form "U" worker none

def move (worker : WorkerId) : Step Unit := .work worker .throughRests []

def mailed (x : Exchange Unit) (worker : WorkerId) : Option Nat :=
  (x.log.session.workers.get? worker).map fun w => w.mailbox.length

theorem deliversMore {x : Exchange Unit} {worker : WorkerId} {n : Nat}
    (before : x.mailed worker = some n) (after : (x.step .dispatch).mailed worker = some (n + 1)) :
    x.Delivers worker := by
  obtain ⟨w, found, length⟩ := Option.map_eq_some_iff.mp before
  obtain ⟨w', there, more⟩ := Option.map_eq_some_iff.mp after
  refine ⟨w, w', found, there, fun same => ?_⟩
  rw [same] at more
  omega

def quick (x : Exchange γ) (s : Step γ) : Exchange γ :=
  if (x.next? s).all fun m => decide (m.print.utf8ByteSize ≤ 16777215) && m.transmissible then
    x.act s
  else x

theorem quickStep (x : Exchange γ) (s : Step γ) : x.quick s = x.step s := by
  have same : (fun m : Message => decide (m.print.utf8ByteSize ≤ 16777215) && m.transmissible) =
      Message.readable := by
    funext m
    rw [Bool.eq_iff_iff, m.readableIff]
    simp
  rw [quick, same]
  rfl

theorem quickRun (x : Exchange γ) (steps : List (Step γ)) : steps.foldl quick x = x.run steps := by
  rw [run, show (quick : Exchange γ → _) = step from funext fun x => funext x.quickStep]

def early (before : List (Step Unit)) : Exchange Unit :=
  (opening { language := Calc.language } 0).run before

def late (before : List (Step Unit)) (call : Step Unit) (between : List (Step Unit)) :
    Exchange Unit :=
  ((early before).step call).run between

def reaches (before : List (Step Unit)) (call : Step Unit) (between : List (Step Unit))
    (m : Message) (worker : WorkerId) (origin : RequestId) : Bool :=
  let x := before.foldl quick (opening { language := Calc.language } 0)
  let y := x.quick call
  let z := between.foldl quick y
  y.sent == x.sent ++ [m] && m.addressee? == some 1 &&
    (requestIds (x.client.stack 1)).getLast? == some 1 && z.log.received == x.sent &&
    z.mailed worker == some 0 && (z.quick .dispatch).mailed worker == some 1 &&
    z.log.startedFor? worker == some origin

structure Reaches (before : List (Step Unit)) (call : Step Unit) (between : List (Step Unit))
    (m : Message) (worker : WorkerId) (origin : RequestId) : Prop where
  sent : ((early before).step call).sent = (early before).sent ++ [m]
  addressed : m.addressee? = some 1
  bottom : (requestIds ((early before).client.stack 1)).getLast? = some 1
  received : (late before call between).log.received = (early before).sent
  delivers : (late before call between).Delivers worker
  started : (late before call between).log.startedFor? worker = some origin

section
variable {before between : List (Step Unit)} {call : Step Unit} {m : Message} {worker : WorkerId}
  {origin : RequestId}

theorem reached (found : reaches before call between m worker origin = true) :
    Reaches before call between m worker origin := by
  simp only [reaches, quickRun, quickStep, Bool.and_eq_true, beq_iff_eq] at found
  obtain ⟨⟨⟨⟨⟨⟨sent, addressed⟩, bottom⟩, received⟩, first⟩, more⟩, started⟩ := found
  exact ⟨sent, addressed, bottom, received, deliversMore first more, started⟩

theorem Reaches.busy (reaches : Reaches before call between m worker origin) :
    (early before).client.stack 1 ≠ [] := by
  intro empty
  have bottom := reaches.bottom
  rw [empty] at bottom
  contradiction

end

def waitingSteps : List (Step Unit) :=
  [ask "(read-line)" none, .dispatch, move 0, .handle, .handle]

theorem interruptArrives :
    Reaches waitingSteps (.interrupt 1) [move 0] (.interrupt 1) 0 1 ∧
    ∃ id, (late waitingSteps (.interrupt 1) [move 0]).log.startedFor? 0 = some id ∧
      ((requestIds ((early waitingSteps).client.stack 1)).getLast? = some id ∨
        ((early waitingSteps).client.unbound.get? id).isSome = true) := by
  have reaches : Reaches waitingSteps (.interrupt 1) [move 0] (.interrupt 1) 0 1 :=
    reached (by decide +kernel)
  refine ⟨reaches, ?_⟩
  -- stated of any steps, so that nothing is evaluated here
  generalize waitingSteps = before at reaches
  exact deliveredToAddressee { language := Calc.language } 0 before (.interrupt 1) [move 0]
    (.interrupt 1) 1 reaches.sent rfl reaches.busy reaches.received 0 reaches.delivers

/- Messages of this kind arrive only at the worker that was started for the request at the bottom
of the stack. -/
def Faithful (head : String) : Prop :=
  ∀ (before : List (Step Unit)) (call : Step Unit) (between : List (Step Unit)) m ref,
    m.head = head → ((early before).step call).sent = (early before).sent ++ [m] →
      m.addressee? = some ref → (early before).client.stack ref ≠ [] →
      (late before call between).log.received = (early before).sent →
      ∀ worker, (late before call between).Delivers worker →
        (late before call between).log.startedFor? worker =
          (requestIds ((early before).client.stack ref)).getLast?

theorem strayed {before between : List (Step Unit)} {call : Step Unit} {m : Message}
    {worker : WorkerId} {origin : RequestId} (later : origin ≠ 1)
    (found : reaches before call between m worker origin = true) : ¬ Faithful m.head := by
  intro always
  have reaches := reached found
  have same := always before call between m 1 rfl reaches.sent reaches.addressed reaches.busy
    reaches.received worker reaches.delivers
  rw [reaches.started, reaches.bottom] at same
  exact later (Option.some.inj same)

/- The first worker ends while the client still counts on it, and the second gets its reference:
then an interrupt, a request or a line for the first arrives at the second. -/
theorem laterWorkerReached :
    ¬ Faithful "interrupt" ∧ ¬ Faithful "rex" ∧ ¬ Faithful "return-string" := by
  have interrupt : reaches
      [ask "1" none, .dispatch, .handle, .handle, ask "(read-line)" none]
      (.interrupt 1) [move 0, .dispatch] (.interrupt 1) 1 2 = true := by
    decide +kernel
  have request : reaches
      [ask "(error)" none, .dispatch, move 0, .handle, .handle, .handle,
        ask "(slink:abort)" (some 1), .dispatch, move 0, .handle, ask "1" none]
      (ask "2" (some 1)) [.dispatch] (.request "2" "U" (.worker 1) 4) 1 3 = true := by
    decide +kernel
  have line : reaches
      [ask "(error)" none, .dispatch, move 0, .handle, .handle, .handle,
        .interrupt 1, ask "(read-line)" (some 1), .dispatch, move 0, .dispatch, move 0, .handle,
        ask "(slink:throw-to-toplevel)" (some 1), .dispatch, move 0, .handle,
        .interrupt 1, ask "(read-line)" none]
      (.returnString 1 1 "a") [.dispatch, move 0, move 0, .dispatch]
      (.readStringReply 1 1 "a") 1 4 = true := by
    decide +kernel
  exact ⟨strayed (by decide) interrupt, strayed (by decide) request, strayed (by decide) line⟩

end Exchange
end RemoteEval
