import Mathlib.Data.List.Perm.Basic
import RemoteEval.Proofs.Worker.Conduct

/-! The requests that a worker owes an answer: the one it is about, those whose evaluation
is suspended under an open level, and those that wait. A deed answers one of them or none,
and no deed adds one. -/
namespace RemoteEval

def Message.answered? : Message → Option RequestId
  | .returned _ _ id => some id
  | _ => none

def Utterance.answered? : Utterance → Option RequestId
  | .message m => m.answered?
  | .output _ => none

def Deed.answered? : Deed → Option RequestId
  | .said spoken => spoken.utterance.answered?
  | .started _ => none

def Origin.opener? : Origin Request → Option RequestId
  | .evaluation request => some request.id
  | .prompt => none

def DebugStack.openers (levels : DebugStack Request) : List RequestId :=
  levels.filterMap fun level => level.origin.opener?

def Task.request? : Task → Option RequestId
  | .assigned request | .performing request _ => some request.id
  | .prompting _ | .gone => none

namespace Stance

/- The evaluations under way, the innermost first. The last is the outermost request. -/
def chain (a : Stance) : List RequestId := a.task.request?.toList ++ DebugStack.openers a.levels

def held (a : Stance) : List RequestId := a.chain ++ a.queue.map Request.id

end Stance

theorem Aside.unanswered {me utterance} (aside : Aside me utterance) :
    utterance.answered? = none := by
  cases aside <;> rfl

theorem Conduct.held {me a d b} (conduct : Conduct me a d b) :
    a.held.Perm (d.answered?.toList ++ b.held) := by
  cases conduct with
  | start | ask | abortRead | answer | finish | activate | refuse | report =>
    simp [Stance.held, Stance.chain, Task.request?, Deed.answered?, Utterance.answered?,
      Message.answered?]
  | serve =>
    simp only [Stance.held, Stance.chain, Task.request?, Deed.answered?, List.map_cons,
      Option.toList_none, Option.toList_some, List.nil_append, List.cons_append]
    exact List.perm_middle
  | aside engaged aside => simp [Deed.answered?, aside.unanswered]
  | trap opened frames origin | interrupt opened frames origin | close origin | resume origin =>
    simp [Stance.held, Stance.chain, Task.request?, Deed.answered?, Utterance.answered?,
      Message.answered?, DebugStack.openers, origin, Origin.opener?]

theorem Conducts.held {me a deeds b} (conducts : Conducts me a deeds b) :
    a.held.Perm (deeds.filterMap Deed.answered? ++ b.held) := by
  induction conducts with
  | nil => simp
  | @cons before deed between deeds after conduct _ ih =>
    have first := conduct.held.trans (ih.append_left _)
    cases answered : deed.answered? with
    | none => simpa [answered] using first
    | some id => simpa [answered] using first

namespace Worker

def held (w : Worker) : List RequestId := (w.stance none).held

theorem stanceHeld (w : Worker) (asked : Option Tag) : (w.stance asked).held = w.held := rfl

theorem goneFinished {w : Worker} : w.task = .gone ↔ w.isFinished = true := by
  unfold task isFinished
  cases w.activity <;> simp

theorem deedsAnswered (w : Worker) (t : Turn) :
    (w.deeds t).filterMap Deed.answered? = t.said.filterMap Utterance.answered? := by
  have silent : w.startDeeds.filterMap Deed.answered? = [] := by
    unfold startDeeds
    cases w.taken? <;> simp [Deed.answered?]
  rw [deeds, List.filterMap_append, silent, List.nil_append, List.filterMap_map, Turn.said,
    List.filterMap_map]
  rfl

/- The places where a request can be: it is yet to be looked at or being performed, it is
suspended under a level that its evaluation opened, or it waits. -/
inductive Holds (w : Worker) : RequestId → Prop where
  | starting {request} (about : w.activity = .starting request) : Holds w request.id
  | running {request rest} (about : w.activity = .running request rest) : Holds w request.id
  | reading {request tag next} (about : w.activity = .reading request tag next) :
      Holds w request.id
  | suspended {level request} (isOpen : level ∈ w.levels)
      (origin : level.origin = .evaluation request) : Holds w request.id
  | backlog {request} (waits : request ∈ w.backlog) : Holds w request.id
  | mailbox {request} (waits : Event.request request ∈ w.mailbox) : Holds w request.id

theorem memHeld {w : Worker} {id : RequestId} : id ∈ w.held ↔ w.Holds id := by
  simp only [held, Stance.held, Stance.chain, stance, queue, List.mem_append, List.mem_map,
    Option.mem_toList]
  constructor
  · rintro ((about | isOpen) | ⟨request, waits | waits, rfl⟩)
    · cases activity : w.activity with
      | starting r =>
        simp only [task, activity, Task.request?, Option.some.injEq] at about
        exact about ▸ .starting activity
      | running r rest =>
        simp only [task, activity, Task.request?, Option.some.injEq] at about
        exact about ▸ .running activity
      | reading r tag next =>
        simp only [task, activity, Task.request?, Option.some.injEq] at about
        exact about ▸ .reading activity
      | prompt | finished => simp [task, activity, Task.request?] at about
    · obtain ⟨level, member, opener⟩ := List.mem_filterMap.mp isOpen
      cases origin : level.origin with
      | evaluation r =>
        simp only [origin, Origin.opener?, Option.some.injEq] at opener
        exact opener ▸ .suspended member origin
      | prompt => simp [origin, Origin.opener?] at opener
    · exact .backlog waits
    · obtain ⟨event, member, taken⟩ := List.mem_filterMap.mp waits
      cases event with
      | request r =>
        simp only [Event.request?, Option.some.injEq] at taken
        exact .mailbox (taken ▸ member)
      | readReply | wake => simp [Event.request?] at taken
  · intro holds
    cases holds with
    | starting about | running about | reading about =>
      simp [task, about, Task.request?]
    | @suspended level request member origin =>
      refine .inl (.inr (List.mem_filterMap.mpr ⟨level, member, ?_⟩))
      simp [origin, Origin.opener?]
    | backlog waits => exact .inr ⟨_, .inl waits, rfl⟩
    | mailbox waits => exact .inr ⟨_, .inr (List.mem_filterMap.mpr ⟨_, waits, rfl⟩), rfl⟩

def inward (w : Worker) : Worker := { w with attached := true, interrupted := false }

@[simp] theorem heldInward (w : Worker) : w.inward.held = w.held := rfl

theorem inwardMe {v w : Worker} (alike : v.inward = w.inward) : v.me = w.me :=
  show v.inward.me = w.inward.me from congrArg Worker.me alike

theorem inwardHeld {v w : Worker} (alike : v.inward = w.inward) : v.held = w.held :=
  show v.inward.held = w.inward.held from congrArg Worker.held alike

theorem inwardSound {v w : Worker} (alike : v.inward = w.inward) (sound : w.Sound) :
    v.Sound := by
  have same : v.inward.Sound := alike ▸
    ⟨sound.grounded, sound.prompt, sound.starting, sound.finished⟩
  exact ⟨same.grounded, same.prompt, same.starting, same.finished⟩

theorem inwardFinished {v w : Worker} (alike : v.inward = w.inward) :
    v.isFinished = w.isFinished :=
  show v.inward.isFinished = w.inward.isFinished from congrArg Worker.isFinished alike

end Worker
end RemoteEval
