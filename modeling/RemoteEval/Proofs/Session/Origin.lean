import RemoteEval.Proofs.Session.Protocol

/-! The request that a worker was started for. It lies at the bottom of all that the worker does:
every level was opened on its account, and with its answer the worker ends. So a worker that is
there still owes the answer to the request of its announcement. Announcements that do not reach
the client count here as well. -/
namespace RemoteEval

namespace Stage

/- The request is the one that the worker was assigned, or its evaluation opened the first of the
levels. -/
def Roots (root : RequestId) : Stage → Prop
  | .unassigned => False
  | .assigned id => id = root
  | .performing id _ openers => (openers = [] ∧ id = root) ∨ openers.getLast? = some (some root)
  | .prompting _ openers => openers.getLast? = some (some root)
  | .released => True

theorem lastOver {root : RequestId} {opener : Option RequestId} {openers : List (Option RequestId)}
    (last : openers.getLast? = some (some root)) :
    (opener :: openers).getLast? = some (some root) := by
  cases openers with
  | nil => contradiction
  | cons next rest => rwa [List.getLast?_cons_cons]

theorem lastUnder {root : RequestId} {opener : Option RequestId} {openers : List (Option RequestId)}
    (last : (opener :: openers).getLast? = some (some root)) :
    (openers = [] ∧ opener = some root) ∨ openers.getLast? = some (some root) := by
  cases openers with
  | nil => exact .inl ⟨rfl, by simpa using last⟩
  | cons next rest => exact .inr (by rwa [List.getLast?_cons_cons] at last)

theorem hearRoots {root : RequestId} {me : WorkerRef} {stage after : Stage} {m : Message}
    (roots : stage.Roots root) (heard : stage.hear me m = some after) : after.Roots root := by
  unfold hear at heard
  repeat' split at heard
  all_goals try contradiction
  all_goals cases heard
  -- a level opens during an evaluation, or at a prompt
  · rcases roots with ⟨rfl, rfl⟩ | last
    · exact rfl
    · exact lastOver last
  · exact lastOver roots
  -- an answer ends the worker or leads back to a prompt
  · trivial
  next nested =>
    exact roots.resolve_left fun bare => nested bare.1
  -- a level closes
  · rcases lastUnder roots with ⟨bare, own⟩ | last
    · exact .inl ⟨bare, Option.some.inj own⟩
    · exact .inr last
  next guard =>
    exact (lastUnder roots).resolve_left fun bare => guard.2.2 bare.1
  all_goals exact roots

theorem nextRoots {root : RequestId} {me : WorkerRef} {stage after : Stage} {deed : Deed}
    (roots : stage.Roots root) (moved : stage.next me deed = some after) : after.Roots root := by
  unfold next at moved
  split at moved
  · obtain ⟨same, made⟩ := Option.ite_none_right_eq_some.mp moved
    cases made
    exact .inl ⟨rfl, show _ = root from roots⟩
  · cases moved
    exact .inr roots
  · exact hearRoots roots moved
  · cases moved
    exact roots
  · cases moved
    exact roots
  · contradiction

theorem runRoots {root : RequestId} {me : WorkerRef} {stage after : Stage} {deeds : List Deed}
    (roots : stage.Roots root) (moved : Stage.run me stage deeds = some after) :
    after.Roots root := by
  induction deeds generalizing stage with
  | nil =>
    cases moved
    exact roots
  | cons deed rest ih =>
    rw [run, List.foldlM_cons] at moved
    obtain ⟨between, first, later⟩ := Option.bind_eq_some_iff.mp moved
    exact ih (nextRoots roots first) later

theorem runBegins {me : WorkerRef} {after : Stage} {deeds : List Deed}
    (moved : Stage.run me .unassigned deeds = some after) (begun : after ≠ .unassigned) :
    ∃ id levels rest, deeds = .said ⟨.message (.workerAssigned id me), levels⟩ :: rest ∧
      after.Roots id := by
  cases deeds with
  | nil =>
    cases moved
    contradiction
  | cons deed rest =>
    rw [run, List.foldlM_cons] at moved
    obtain ⟨between, first, later⟩ := Option.bind_eq_some_iff.mp moved
    cases deed with
    | started request => contradiction
    | said spoken =>
      obtain ⟨utterance, levels⟩ := spoken
      cases utterance with
      | output text => contradiction
      | message m =>
        cases m with
        | workerAssigned id ref =>
          obtain ⟨same, made⟩ := Option.ite_none_right_eq_some.mp first
          cases made
          have own : (Stage.assigned id).Roots id := rfl
          exact ⟨id, levels, rest, by rw [same], runRoots own later⟩
        | _ => contradiction

end Stage

namespace Worker

theorem rootHeld {w : Worker} {root : RequestId} (awake : w.isFinished = false)
    (roots : w.stage.Roots root) : root ∈ w.held := by
  have last {levels : DebugStack Request}
      (last : (levels.map fun level => level.origin.opener?).getLast? = some (some root)) :
      root ∈ DebugStack.openers levels := by
    have member := List.mem_of_getLast? last
    exact List.mem_filterMap.mpr (by simpa using member)
  have inChain (member : root ∈ (w.stance none).chain) : root ∈ w.held :=
    List.mem_append_left _ member
  cases about : w.activity with
  | starting request =>
    have own : Stage.Roots root (.assigned request.id) := by
      simpa [stage, stance, task, about, Stance.stage] using roots
    have own : request.id = root := own
    exact inChain (by simp [stance, Stance.chain, task, about, Task.request?, own])
  | running request | reading request =>
    have roots : Stage.Roots root (.performing request.id w.returnedToPrompt
        (w.levels.map fun level => level.origin.opener?)) := by
      simpa [stage, stance, task, about, Stance.stage] using roots
    rcases roots with ⟨_, own⟩ | outer
    · exact inChain (by simp [stance, Stance.chain, task, about, Task.request?, own])
    · exact inChain (List.mem_append_right _ (last outer))
  | prompt =>
    have outer : Stage.Roots root (.prompting false
        (w.levels.map fun level => level.origin.opener?)) := by
      simpa [stage, stance, task, about, Stance.stage] using roots
    exact inChain (List.mem_append_right _ (last outer))
  | finished => simp [isFinished, about] at awake

end Worker

namespace Log

def startedFor? (l : Log) (worker : WorkerId) : Option RequestId :=
  match l.life worker with
  | .said ⟨.message (.workerAssigned id _), _⟩ :: _ => some id
  | _ => none

theorem lifeLogged {l : Log} {worker : WorkerId} {deed : Deed} (done : deed ∈ l.life worker) :
    ∃ e ∈ l.entries, e.deed = deed := by
  have each : ∀ {entries : List Entry} {life : List Deed},
      deed ∈ entries.foldl (Entry.extend worker) life →
        deed ∈ life ∨ ∃ e ∈ entries, e.deed = deed := by
    intro entries
    induction entries with
    | nil => exact .inl
    | cons e rest ih =>
      intro life member
      rcases ih member with before | ⟨later, among, same⟩
      · unfold Entry.extend at before
        repeat' split at before
        · exact .inr ⟨e, List.mem_cons_self, (List.mem_singleton.mp before).symm⟩
        · rcases List.mem_append.mp before with older | new
          · exact .inl older
          · exact .inr ⟨e, List.mem_cons_self, (List.mem_singleton.mp new).symm⟩
        · exact .inl before
      · exact .inr ⟨later, List.mem_cons_of_mem _ among, same⟩
  exact (each done).resolve_left List.not_mem_nil

theorem Orderly.started {l : Log} (orderly : l.Orderly) {worker : WorkerId} {w : Worker}
    (found : l.session.workers.get? worker = some w) :
    ∃ id levels, l.startedFor? worker = some id ∧ id ∈ w.held ∧
      ∃ e ∈ l.entries, e.deed = .said ⟨.message (.workerAssigned id w.me), levels⟩ := by
  have follows := orderly worker
  rw [found] at follows
  obtain ⟨_, awake, moved⟩ := follows
  have begun : w.stage ≠ .unassigned := by
    unfold Worker.stage Worker.stance Worker.task Stance.stage
    cases w.activity <;> simp
  obtain ⟨id, levels, rest, life, roots⟩ := Stage.runBegins moved begun
  have first : .said ⟨.message (.workerAssigned id w.me), levels⟩ ∈ l.life worker := by
    rw [life]
    exact List.mem_cons_self
  exact ⟨id, levels, by rw [startedFor?, life], Worker.rootHeld awake roots, lifeLogged first⟩

end Log

end RemoteEval
