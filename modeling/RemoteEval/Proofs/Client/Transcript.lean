import RemoteEval.Proofs.Client.Callbacks
import RemoteEval.Proofs.Client.Ledger
import RemoteEval.Proofs.Wire.RoundTrip

/-! What the user of a client is told, whatever bytes the server sends and wherever they end. The
callbacks are those of the books of the machine, and after the connection has ended just one more,
which says so. A request is missing from them if the message that ended the connection had taken it
away already. -/
namespace RemoteEval.Client
variable {γ : Type}

inductive Failure where
  | desync (d : Desync)
  | wire (e : WireError)

namespace Failure

def toError : Failure → Error
  | .desync d => d.toError
  | .wire e => .wire e

def dropped : Failure → List RequestId
  | .desync d => d.dropped
  | .wire _ => []

end Failure

inductive Move (γ : Type) where
  | evaluate (form package : String) (worker : Option WorkerRef) (continuation : Option γ)
  | interrupt (worker : WorkerRef)
  | returnString (worker : WorkerRef) (tag : Tag) (text : String)
  | receive (bytes : List UInt8)
  | finish

def Move.isEvaluate : Move γ → Bool
  | .evaluate .. => true
  | _ => false

structure Transcript (γ : Type) where
  connection : Connection γ := {}
  accepted : List (Request γ) := []
  callbacks : List (Callback γ) := []

namespace Transcript

def step (t : Transcript γ) : Move γ → Transcript γ
  | .evaluate form package worker k =>
    match t.connection.evaluate form package worker k with
    | (.ok (id, _), connection) => { t with connection, accepted := t.accepted ++ [(id, k)] }
    | (.error _, connection) => { t with connection }
  | .interrupt _ => t
  | .returnString worker tag text =>
    { t with connection := (t.connection.returnString worker tag text).2 }
  | .receive bytes =>
    let (callbacks, connection) := t.connection.receive bytes
    { t with connection, callbacks := t.callbacks ++ callbacks }
  | .finish =>
    let (callbacks, connection) := t.connection.receiveEnd
    { t with connection, callbacks := t.callbacks ++ callbacks }

def run (moves : List (Move γ)) : Transcript γ := moves.foldl step {}

theorem runSnoc (moves : List (Move γ)) (move : Move γ) :
    run (moves ++ [move]) = (run moves).step move := List.foldl_append ..

end Transcript

inductive Cause : List Error → Option Error → Prop where
  | clean : Cause [] none
  | wire (e : WireError) : Cause [] (some (.wire e))
  | refused (e : Error) : Cause [e] (some e)

/- A connection keeps books, with `issued` in them: it has said what they say, and that it has
ended if it has. -/
inductive Follows (issued : List (Request γ)) : Connection γ → List (Callback γ) → Prop where
  | standing {c : Connection γ} {l : Ledger γ} (reached : l.Reached)
      (machine : c.machine = l.machine) (numbers : l.issued = issued)
      (connected : c.connected = true) (accepted : l.refused = []) :
      Follows issued c (l.effects.flatMap Effect.callbacks)
  | ended {c : Connection γ} {l : Ledger γ} {error : Option Error} (reached : l.Reached)
      (machine : c.machine = l.machine) (numbers : l.issued = issued)
      (gone : c.connected = false) (because : Cause l.refused error)
      (settled : l.outstanding = []) :
      Follows issued c (l.effects.flatMap Effect.callbacks ++ [.disconnected error])

namespace Follows
variable {issued : List (Request γ)} {c : Connection γ} {said : List (Callback γ)}

theorem received (follows : Follows issued c said) (bytes : List UInt8) :
    Follows issued { c with received := bytes } said := by
  cases follows with
  | standing reached machine numbers connected accepted =>
    exact .standing reached machine numbers connected accepted
  | ended reached machine numbers gone because settled =>
    exact .ended reached machine numbers gone because settled

theorem disconnect {l : Ledger γ} {error : Option Error} (reached : l.Reached)
    (machine : c.machine = l.machine) (numbers : l.issued = issued)
    (because : Cause l.refused error) :
    Follows issued (c.disconnect error).2
      (l.effects.flatMap Effect.callbacks ++ (c.disconnect error).1) := by
  have last := ended (c := (c.disconnect error).2) (reached.step (.abortAll "connection closed"))
    (by rw [Connection.disconnect, machine]; rfl) numbers rfl because rfl
  simpa [Ledger.step, Connection.disconnect, machine] using last

theorem handle (follows : Follows issued c said) (connected : c.connected = true) (m : Message) :
    Follows issued (c.handle m).2 (said ++ (c.handle m).1) := by
  cases follows with
  | ended _ _ _ gone => simp [connected] at gone
  | @standing l reached machine numbers _ accepted =>
    have reached := reached.step (.handle m)
    rcases result : c.machine.handle m with ⟨e | effects, after⟩ <;>
      simp only [Ledger.step, ← machine, result] at reached <;>
      simp only [Connection.handle, result]
    · have refused : l.refused ++ [e] = [e] := by rw [accepted, List.nil_append]
      exact disconnect (l := ⟨after, _, _, _⟩) reached rfl numbers (refused.symm ▸ .refused e)
    · rw [← List.flatMap_append]
      exact standing reached rfl numbers connected accepted

theorem stop (follows : Follows issued c said) (connected : c.connected = true)
    {error : Option Error} (because : Cause [] error) :
    Follows issued (c.disconnect error).2 (said ++ (c.disconnect error).1) := by
  cases follows with
  | ended _ _ _ gone => simp [connected] at gone
  | standing reached machine numbers _ accepted =>
    exact disconnect reached machine numbers (accepted.symm ▸ because)

theorem frames (follows : Follows issued c said) (bytes : List UInt8) :
    Follows issued (c.handleFrames bytes).2 (said ++ (c.handleFrames bytes).1) := by
  fun_induction Connection.handleFrames c bytes generalizing said with
  | case1 c bytes =>
    rw [List.append_nil]
    exact follows.received bytes
  | case2 c bytes connected payload rest first e unread =>
    exact follows.stop connected (.wire e)
  | case3 c bytes connected payload rest first m decoded heard next handled more last later ih =>
    have one := follows.handle connected m
    rw [handled] at one
    have all := ih one
    rwa [later, List.append_assoc] at all
  | case4 c bytes gone => rwa [List.append_nil]

theorem receive (follows : Follows issued c said) (bytes : List UInt8) :
    Follows issued (c.receive bytes).2 (said ++ (c.receive bytes).1) :=
  (follows.received []).frames _

theorem finish (follows : Follows issued c said) :
    Follows issued c.receiveEnd.2 (said ++ c.receiveEnd.1) := by
  unfold Connection.receiveEnd
  split
  next connected =>
    split
    · exact follows.stop connected .clean
    · exact follows.stop connected (.wire _)
  · rwa [List.append_nil]

theorem reply (follows : Follows issued c said) (worker : WorkerRef) (tag : Tag) (text : String) :
    Follows issued (c.returnString worker tag text).2 said := by
  have same : (c.returnString worker tag text).2 =
      { c with machine := (c.machine.returnString worker tag text).2 } := by
    unfold Connection.returnString
    split <;> simp [*]
  rw [same]
  cases follows with
  | @standing l reached machine numbers connected accepted =>
    exact standing (l := l.step (.returnString worker tag text)) (reached.step _)
      (by rw [machine]; rfl) numbers connected accepted
  | @ended l _ reached machine numbers gone because settled =>
    exact ended (l := l.step (.returnString worker tag text)) (reached.step _)
      (by rw [machine]; rfl) numbers gone because
      ((congrArg (List.map Prod.snd) (Machine.replyOutstanding ..)).trans settled)

theorem evaluate (follows : Follows issued c said) (form package : String)
    (worker : Option WorkerRef) (k : Option γ) :
    ∃ added, Follows (issued ++ added) (c.evaluate form package worker k).2 said ∧
      added.length ≤ 1 ∧ ∀ id m, (c.evaluate form package worker k).1 = .ok (id, m) →
        (id, k) ∈ added := by
  unfold Connection.evaluate
  split
  next connected =>
    rcases result : c.machine.evaluate form package worker k with ⟨e | ⟨id, m⟩, after⟩
    · rw [Machine.evaluateRefused result]
      exact ⟨[], by rwa [List.append_nil], Nat.zero_le 1, by simp⟩
    · refine ⟨[(id, k)], ?_, Nat.le_refl 1, fun own sent accepted => ?_⟩
      · cases follows with
        | ended _ _ _ gone => simp [connected] at gone
        | @standing l reached machine numbers _ accepted =>
          have reached := reached.step (.evaluate form package worker k)
          simp only [Ledger.step, ← machine, result] at reached
          exact standing (l := ⟨after, _, l.effects, _⟩) reached rfl (by rw [numbers]) connected
            accepted
      · cases out : c.send m <;> simp [out, Except.map] at accepted
        simp [accepted]
  · exact ⟨[], by rwa [List.append_nil], Nat.zero_le 1, by simp⟩

end Follows

theorem endDisconnects (c : Connection γ) : c.receiveEnd.2.connected = false := by
  unfold Connection.receiveEnd
  split
  · split <;> rfl
  next gone => simpa using gone

namespace Connection

def framesOf (messages : List Message) : List UInt8 :=
  messages.flatMap fun m => match m.encode with
    | .ok frame => frame
    | .error _ => []

def handleAll (c : Connection γ) : List Message → List (Callback γ) × Connection γ
  | [] => ([], c)
  | m :: later =>
    if c.connected then
      let (callbacks, c) := c.handle m
      let (more, c) := handleAll c later
      (callbacks ++ more, c)
    else ([], c)

theorem handleReceived {c : Connection γ} (nothing : c.received = []) (m : Message) :
    (c.handle m).2.received = [] := by
  unfold handle
  split
  · exact nothing
  · rfl

theorem receiveFrames {messages : List Message} (read : ∀ m ∈ messages, m.readable = true)
    {c : Connection γ} (nothing : c.received = []) :
    c.receive (framesOf messages) = handleAll c messages := by
  have whole : c.receive (framesOf messages) = c.handleFrames (framesOf messages) := by
    rw [receive, nothing, List.nil_append, ← nothing]
  rw [whole]
  clear whole
  induction messages generalizing c with
  | nil =>
    obtain ⟨machine, connected, features, received⟩ := c
    obtain rfl : received = [] := nothing
    rw [framesOf, List.flatMap_nil, handleFrames]
    cases connected <;> rfl
  | cons m later ih =>
    obtain ⟨readable, others⟩ := List.forall_mem_cons.mp read
    have rest := ih others (handleReceived nothing m)
    obtain ⟨frame, encoded, decoded⟩ := Message.readableFrame readable
    have parts : framesOf (m :: later) = frame ++ framesOf later := by
      simp [framesOf, encoded]
    obtain ⟨payload, found, sent⟩ := Message.encodedFirst encoded decoded (framesOf later)
    rw [parts, handleFrames, handleAll]
    split
    · split
      next none => simp [found] at none
      next first =>
        cases found.symm.trans first
        simp [sent, rest]
    · rfl

end Connection

section Told
variable {l : Ledger γ} {settled lost : Multiset (Request γ)}

theorem reportsLength (l : Ledger γ) (id : RequestId) :
    (reportsOf (l.effects.flatMap Effect.callbacks) id).length = l.answered.count id := by
  rw [reportsOf, ← List.countP_eq_length_filter, ← List.count_filterMap, callbacksAnswered]
  rfl

theorem reportedOnce (books : l.Accounts settled lost) (distinct : l.ids.Nodup) (id : RequestId) :
    (reportsOf (l.effects.flatMap Effect.callbacks) id).length ≤ 1 := by
  rw [reportsLength]
  exact List.nodup_iff_count_le_one.mp (List.nodup_append.mp (books.partition distinct).1).2.1 id

theorem continuedOwn (books : l.Accounts settled lost) (distinct : l.ids.Nodup) {id : RequestId}
    {k : Option γ} (issued : (id, k) ∈ l.issued) {before after : List (Callback γ)}
    {ref : Option WorkerRef} {value : Outcome}
    (said : l.effects.flatMap Effect.callbacks = before ++ .returned ref id value :: after)
    (f : γ) (v : Sexp) :
    before.getLast? = some (.continued f v) ↔ k = some f ∧ value = .ok v := by
  obtain ⟨carried, told, last⟩ := returnedSource said
  obtain ⟨own, settled, rfl⟩ := books.settles.carried told
  cases List.inj_on_of_nodup_map distinct issued (books.settledIssued settled) rfl
  rw [last f v]
  cases value <;> simp [Machine.continuationFor]

theorem reportedUnlessDropped (books : l.Accounts settled lost) (distinct : l.ids.Nodup)
    (idle : l.outstanding = []) {error : Option Error} (because : Cause l.refused error) :
    ∃ failure : Option Failure, error = failure.map Failure.toError ∧ ∀ id ∈ l.ids,
      (reportsOf (l.effects.flatMap Effect.callbacks) id).length =
        if id ∈ failure.elim [] Failure.dropped then 0 else 1 := by
  obtain ⟨ds, same, gone⟩ := books.failures
  obtain ⟨once, apart, whole⟩ := books.partition distinct
  rw [idle, List.nil_append] at once apart whole
  have counted {failure : Option Failure}
      (drops : ∀ id, id ∈ lost.map Prod.fst ↔ id ∈ failure.elim [] Failure.dropped) :
      ∀ id ∈ l.ids, (reportsOf (l.effects.flatMap Effect.callbacks) id).length =
        if id ∈ failure.elim [] Failure.dropped then 0 else 1 := by
    intro id issued
    rw [reportsLength, once.count]
    split
    next answered => rw [if_neg fun dropped => apart id ((drops id).mpr dropped) answered]
    next silent =>
      rw [if_pos ((drops id).mp (((whole id).mp issued).resolve_left silent))]
  generalize l.refused = refused at same because
  cases because with
  | clean =>
    rw [List.map_eq_nil_iff.mp same.symm] at gone
    exact ⟨none, rfl, counted (by simp [gone])⟩
  | wire e =>
    rw [List.map_eq_nil_iff.mp same.symm] at gone
    exact ⟨some (.wire e), rfl, counted (by simp [gone, Failure.dropped])⟩
  | refused e =>
    obtain ⟨d, rfl, rfl⟩ := List.map_eq_singleton_iff.mp same.symm
    exact ⟨some (.desync d), rfl, counted (by simp [gone, Failure.dropped])⟩

end Told

namespace Transcript

theorem stepFollows {t : Transcript γ} {issued : List (Request γ)}
    (follows : Follows issued t.connection t.callbacks) (accepted : t.accepted ⊆ issued)
    (move : Move γ) : ∃ added, Follows (issued ++ added) (t.step move).connection
      (t.step move).callbacks ∧ (t.step move).accepted ⊆ issued ++ added ∧
      added.length ≤ [move].countP Move.isEvaluate := by
  have same {t : Transcript γ} {n : Nat} (follows : Follows issued t.connection t.callbacks)
      (accepted : t.accepted ⊆ issued) :
      ∃ added, Follows (issued ++ added) t.connection t.callbacks ∧
        t.accepted ⊆ issued ++ added ∧ added.length ≤ n :=
    ⟨[], by rw [List.append_nil]; exact ⟨follows, accepted, Nat.zero_le n⟩⟩
  cases move with
  | evaluate form package worker k =>
    obtain ⟨added, kept, few, asked⟩ := follows.evaluate form package worker k
    rcases result : t.connection.evaluate form package worker k with ⟨_ | ⟨id, m⟩, after⟩ <;>
      rw [result] at kept asked <;> simp only [step, result]
    · exact ⟨added, kept, List.subset_append_of_subset_left _ accepted, few⟩
    · refine ⟨added, kept, List.append_subset.mpr ⟨?_, ?_⟩, few⟩
      · exact List.subset_append_of_subset_left _ accepted
      · simpa using Or.inr (asked id m rfl)
  | interrupt => exact same follows accepted
  | returnString worker tag text => exact same (follows.reply worker tag text) accepted
  | receive bytes => exact same (follows.receive bytes) accepted
  | finish => exact same follows.finish accepted

theorem stepFrames {messages : List Message} (read : ∀ m ∈ messages, m.readable = true)
    {t : Transcript γ} (nothing : t.connection.received = []) :
    t.step (.receive (Connection.framesOf messages)) =
      { t with
        connection := (t.connection.handleAll messages).2
        callbacks := t.callbacks ++ (t.connection.handleAll messages).1 } := by
  rw [step, Connection.receiveFrames read nothing]

theorem runFollows (moves : List (Move γ)) :
    ∃ issued, Follows issued (run moves).connection (run moves).callbacks ∧
      (run moves).accepted ⊆ issued ∧ issued.length ≤ moves.countP Move.isEvaluate := by
  induction moves using List.reverseRecOn with
  | nil =>
    exact ⟨[], .standing (l := {}) ⟨[], rfl⟩ rfl rfl rfl rfl, List.nil_subset _, Nat.zero_le _⟩
  | append_singleton before move ih =>
    obtain ⟨issued, follows, accepted, few⟩ := ih
    obtain ⟨added, kept, more, one⟩ := stepFollows follows accepted move
    rw [runSnoc, List.countP_append]
    exact ⟨issued ++ added, kept, more, by rw [List.length_append]; omega⟩

/- What the user is told, for any bytes from the server and any calls. No request is reported twice;
a continuation runs right before the report of its own request, and only with the value of it; the
end of the connection is told once, last of all. By then every request has been reported, save one
that the failing message took from its table: an assignment of a busy worker, or the return of a
request by a worker that it was not sent to. -/
theorem reportedThenDisconnected {moves : List (Move γ)} {t : Transcript γ} (ran : run moves = t)
    (few : moves.countP Move.isEvaluate < 2 ^ 64) :
    ∃ said ending, t.callbacks = said ++ ending ∧
      (∀ error, .disconnected error ∉ said) ∧ (∀ id, (reportsOf said id).length ≤ 1) ∧
      (∀ before k v after, said = before ++ .continued k v :: after →
        ∃ ref id later, after = .returned ref id (.ok v) :: later) ∧
      (∀ id k, (id, k) ∈ t.accepted → ∀ before ref value after,
        said = before ++ .returned ref id value :: after → ∀ f v,
          before.getLast? = some (.continued f v) ↔ k = some f ∧ value = .ok v) ∧
      (t.connection.connected = true → ending = []) ∧
      (t.connection.connected = false → ∃ failure : Option Failure,
        ending = [.disconnected (failure.map Failure.toError)] ∧
        ∀ id k, (id, k) ∈ t.accepted → (reportsOf said id).length =
          if id ∈ failure.elim [] Failure.dropped then 0 else 1) ∧
      (t.step .finish).connection.connected = false := by
  subst ran
  obtain ⟨issued, follows, accepted, numbers⟩ := runFollows moves
  generalize run moves = t at follows accepted ⊢
  obtain ⟨c, asked, callbacks⟩ := t
  have fewer : issued.length < 2 ^ 64 := Nat.lt_of_le_of_lt numbers few
  cases follows with
  | @standing l reached machine same connected _ =>
    obtain ⟨settled, lost, books, distinct⟩ := reached.books (same.symm ▸ fewer)
    refine ⟨_, [], (List.append_nil _).symm, callbacksOpen _, reportedOnce books distinct,
      fun before k v after => continuedNext, fun id k asked before ref value after => ?_,
      fun _ => rfl, fun gone => absurd (gone.symm.trans connected) Bool.false_ne_true,
      endDisconnects c⟩
    exact continuedOwn books distinct (same ▸ accepted asked)
  | @ended l error reached machine same gone because idle =>
    obtain ⟨settled, lost, books, distinct⟩ := reached.books (same.symm ▸ fewer)
    refine ⟨_, [.disconnected error], rfl, callbacksOpen _, reportedOnce books distinct,
      fun before k v after => continuedNext, fun id k asked before ref value after => ?_,
      fun connected => absurd (gone.symm.trans connected) Bool.false_ne_true, fun _ => ?_,
      endDisconnects c⟩
    · exact continuedOwn books distinct (same ▸ accepted asked)
    · obtain ⟨failure, rfl, reported⟩ := reportedUnlessDropped books distinct idle because
      refine ⟨failure, rfl, fun id k asked => reported id ?_⟩
      exact List.mem_map_of_mem (f := Prod.fst) (same ▸ accepted asked)

def busyAssignment : List (Move Unit) :=
  [.evaluate "1" "USER" none none, .evaluate "2" "USER" none none,
    .receive (Connection.framesOf [.workerAssigned 1 1, .workerAssigned 2 1])]

theorem busyAssignmentTold :
    (run busyAssignment).accepted = [(1, none), (2, none)] ∧
    (run busyAssignment).connection.connected = false ∧
    (run busyAssignment).callbacks = [.returned (some 1) 1 (.abort (some "connection closed")),
      .disconnected (some (Desync.busyWorker 1 2).toError)] := by
  have read : ∀ m ∈ [Message.workerAssigned 1 1, .workerAssigned 2 1], m.readable = true := by
    decide +kernel
  have last : run busyAssignment = (run (busyAssignment.take 2)).step
      (.receive (Connection.framesOf [.workerAssigned 1 1, .workerAssigned 2 1])) := rfl
  rw [last, stepFrames read rfl]
  exact ⟨rfl, rfl, rfl⟩

theorem unreportedReached : ¬ ∀ moves : List (Move Unit),
    (run moves).connection.connected = false → ∀ id k, (id, k) ∈ (run moves).accepted →
      (reportsOf (run moves).callbacks id).length = 1 := by
  intro always
  obtain ⟨accepted, ended, told⟩ := busyAssignmentTold
  have once := always busyAssignment ended 2 none (by simp [accepted])
  rw [told] at once
  contradiction

def oneAnswer : List (Move Nat) :=
  [.evaluate "(+ 1 2)" "USER" none (some 7),
    .receive (Connection.framesOf [.workerAssigned 1 1, .returned 1 (.ok (.int 3)) 1]), .finish]

theorem oneAnswerTold : (run oneAnswer).callbacks =
    [.continued 7 (.int 3), .returned (some 1) 1 (.ok (.int 3)), .disconnected none] := by
  have read : ∀ m ∈ [Message.workerAssigned 1 1, .returned 1 (.ok (.int 3)) 1],
      m.readable = true := by decide +kernel
  have last : run oneAnswer = ((run (oneAnswer.take 1)).step (.receive (Connection.framesOf
      [.workerAssigned 1 1, .returned 1 (.ok (.int 3)) 1]))).step .finish := rfl
  rw [last, stepFrames read rfl]
  rfl

theorem oneAnswerReported : oneAnswer.countP Move.isEvaluate < 2 ^ 64 ∧
    (run oneAnswer).connection.connected = false ∧ (1, some 7) ∈ (run oneAnswer).accepted ∧
    ∃ said, ∃ failure : Option Failure,
      said = [.continued 7 (.int 3), .returned (some 1) 1 (.ok (.int 3))] ∧
      (run oneAnswer).callbacks = said ++ [.disconnected (failure.map Failure.toError)] ∧
      (reportsOf said 1).length = (if 1 ∈ failure.elim [] Failure.dropped then 0 else 1) ∧
      ∀ before after, said = before ++ .returned (some 1) 1 (.ok (.int 3)) :: after →
        before.getLast? = some (.continued 7 (.int 3)) := by
  have few : oneAnswer.countP Move.isEvaluate < 2 ^ 64 := by
    show (1 : Nat) < 2 ^ 64
    decide
  have accepted : (1, some 7) ∈ (run oneAnswer).accepted := List.mem_singleton.mpr rfl
  have ended : (run oneAnswer).connection.connected = false := endDisconnects _
  obtain ⟨said, ending, told, _, _, _, own, _, last, _⟩ := reportedThenDisconnected rfl few
  obtain ⟨failure, rfl, reported⟩ := last ended
  have parts : [.continued 7 (.int 3), .returned (some 1) 1 (.ok (.int 3))] ++ [.disconnected none]
      = said ++ [.disconnected (failure.map Failure.toError)] := oneAnswerTold.symm.trans told
  have first : said = [.continued 7 (.int 3), .returned (some 1) 1 (.ok (.int 3))] :=
    (List.append_inj' parts rfl).1.symm
  refine ⟨few, ended, accepted, said, failure, first, told, reported 1 _ accepted, ?_⟩
  intro before after split
  exact (own 1 _ accepted before _ _ after split 7 (.int 3)).mpr ⟨rfl, rfl⟩

end Transcript
end RemoteEval.Client
