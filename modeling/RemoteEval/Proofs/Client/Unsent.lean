import RemoteEval.Client.Connection
import RemoteEval.Proofs.Client.Requests
import RemoteEval.Proofs.Wire.RoundTrip

/-! What a call of the user leaves behind when it fails. The machine takes note of a call before
the message goes out, and nothing takes the note back. A call that is refused beforehand changes
nothing. One whose message is lost on the way leaves a request that the server never hears of, at
a prompt that it covers if it is a nested one, or has used up the read that it was to answer. -/
namespace RemoteEval.Client
variable {γ : Type}

namespace Machine
variable {c c' : Machine γ} {ref : WorkerRef}

theorem evaluateStack {form package : String} {k : Option γ} {id : RequestId} {m : Message}
    (accepted : c.evaluate form package (some ref) k = (.ok (id, m), c')) :
    c'.stack ref = .evaluating id k :: c.stack ref := by
  simp only [evaluate] at accepted
  split at accepted <;> cases accepted
  rw [stackSetStack, if_pos rfl]

theorem evaluateCovered {id : RequestId} {k : Option γ} {below : List (StackFrame γ)}
    (covered : c.stack ref = .evaluating id k :: below) (form package : String)
    (later : Option γ) : c.evaluate form package (some ref) later =
      (.error (.request s!"worker {ref} is not waiting at a debugger prompt"), c) := by
  have top : c.top ref = .evaluating id := by rw [Machine.top, covered]; rfl
  simp only [evaluate, top]

end Machine

inductive Outgoing (γ : Type) where
  | evaluate (form package : String) (worker : Option WorkerRef) (continuation : Option γ)
  | reply (worker : WorkerRef) (tag : Tag) (text : String)

/- What a call meets on its way out: whether the connection stands when the call looks at it, and
when the message is handed over, and what becomes of the bytes. The thread that reads may end the
connection in between. -/
structure Passage where
  standsFirst : Bool
  standsLast : Bool
  write : Except IoFault Unit := .ok ()

namespace Passage

def send (p : Passage) (m : Message) : Except Error Unit :=
  if p.standsLast then
    match Frame.ofMessage m with
    | .ok _ => p.write.mapError fun fault => .wire (.io fault)
    | .error e => .error (.wire e)
  else .error .connectionClosed

def through (c : Connection γ) : Passage := ⟨c.connected, c.connected, .ok ()⟩

theorem sendThrough (c : Connection γ) (m : Message) : (through c).send m = c.send m := rfl

theorem sendLong {p : Passage} {m : Message} (stands : p.standsLast = true)
    (long : 16777215 < m.print.utf8ByteSize) :
    p.send m = .error (.wire (.tooLarge m.print.utf8ByteSize)) := by
  rw [send, if_pos stands, Frame.ofMessage, Frame.ofText, dif_neg (Nat.not_le.mpr long)]

end Passage

namespace Outgoing

def looks : Outgoing γ → Bool
  | .evaluate .. => true
  | .reply .. => false

def note : Outgoing γ → Machine γ → Except Error Message × Machine γ
  | .evaluate form package worker k, c =>
    let (result, after) := c.evaluate form package worker k
    (result.map Prod.snd, after)
  | .reply worker tag text, c => c.returnString worker tag text

def run (call : Outgoing γ) (p : Passage) (c : Machine γ) : Except Error Message × Machine γ :=
  if call.looks && !p.standsFirst then (.error .connectionClosed, c)
  else
    match call.note c with
    | (.error e, after) => (.error e, after)
    | (.ok m, after) => ((p.send m).map fun _ => m, after)

theorem evaluateRun (c : Connection γ) (form package : String) (worker : Option WorkerRef)
    (k : Option γ) :
    (Outgoing.evaluate form package worker k).run (.through c) c.machine =
      ((c.evaluate form package worker k).1.map Prod.snd,
        (c.evaluate form package worker k).2.machine) := by
  rw [run, Connection.evaluate]
  by_cases stands : c.connected = true
  · rw [if_neg (by simp [Passage.through, stands]), if_pos stands]
    rcases noted : c.machine.evaluate form package worker k with ⟨e | ⟨id, m⟩, after⟩
    · simp [note, noted, Except.map]
    · simp only [note, noted, Except.map, Passage.sendThrough]
      cases c.send m <;> rfl
  · rw [if_pos (by simpa [Passage.through, looks] using stands), if_neg stands]
    rfl

theorem replyRun (c : Connection γ) (worker : WorkerRef) (tag : Tag) (text : String) :
    (Outgoing.reply worker tag text).run (.through c) c.machine =
      ((c.returnString worker tag text).1, (c.returnString worker tag text).2.machine) := by
  rw [run, Connection.returnString, if_neg (by simp [looks])]
  rcases noted : c.machine.returnString worker tag text with ⟨e | m, after⟩ <;>
    simp [note, noted, Passage.sendThrough]

def Refused (call : Outgoing γ) (p : Passage) (c : Machine γ) : Prop :=
  (call.looks = true ∧ p.standsFirst = false) ∨ ∃ e, (call.note c).1 = .error e

/- What is left in the machine of a call that was noted: an outstanding request, behind which no
other is taken at the same prompt, or a read that can no longer be answered. -/
def Leaves (call : Outgoing γ) (c after : Machine γ) : Prop :=
  match call with
  | .evaluate _ _ none k =>
    after.owed = (c.lastId + 1, k) ::ₘ c.owed ∧ after.unbound.get? (c.lastId + 1) = some k
  | .evaluate _ _ (some ref) k =>
    after.owed = (c.lastId + 1, k) ::ₘ c.owed ∧
      after.stack ref = .evaluating (c.lastId + 1) k :: c.stack ref ∧
      ∀ form package later, after.evaluate form package (some ref) later =
        (.error (.request s!"worker {ref} is not waiting at a debugger prompt"), after)
  | .reply ref tag _ =>
    c.reads.contains (ref, tag) = true ∧ after.reads.contains (ref, tag) = false ∧
      ∀ line, after.returnString ref tag line = (.error (.tagNotFound ref tag), after)

section Note
variable {call : Outgoing γ} {c after : Machine γ}

theorem noteRefused {e : Error} (refused : call.note c = (.error e, after)) : after = c := by
  cases call with
  | evaluate form package worker k =>
    rcases noted : c.evaluate form package worker k with ⟨e | made, c'⟩ <;>
      simp only [note, noted, Except.map, Prod.mk.injEq, reduceCtorEq, false_and] at refused
    rw [← refused.2]
    exact Machine.evaluateRefused noted
  | reply ref tag text =>
    simp only [note, Machine.returnString] at refused
    split at refused <;> cases refused
    rfl

theorem noteLeaves {m : Message} (fresh : c.lastId + 1 ∉ c.owedIds)
    (noted : call.note c = (.ok m, after)) : call.Leaves c after := by
  cases call with
  | evaluate form package worker k =>
    rcases result : c.evaluate form package worker k with ⟨e | ⟨id, sent⟩, c'⟩ <;>
      simp only [note, result, Except.map, Prod.mk.injEq, reduceCtorEq, false_and] at noted
    obtain ⟨-, rfl⟩ := noted
    have owed := Machine.evaluateOwed fresh result
    obtain ⟨rfl, -⟩ := Machine.evaluateNumber result
    cases worker with
    | none =>
      cases result
      exact ⟨owed, by simp⟩
    | some ref =>
      have covered := Machine.evaluateStack result
      exact ⟨owed, covered, Machine.evaluateCovered covered⟩
  | reply ref tag text =>
    simp only [note, Machine.returnString] at noted
    split at noted <;> cases noted
    next waiting =>
      have gone : (c.reads.erase (ref, tag)).contains (ref, tag) = false := by
        simp [Table.contains]
      refine ⟨waiting, gone, fun line => ?_⟩
      rw [Machine.returnString, if_neg (by simp [gone])]

theorem leavesChanged (left : call.Leaves c after) (n : RequestId) :
    after ≠ { c with lastId := n } := by
  rintro rfl
  cases call with
  | evaluate form package worker k =>
    have owed : c.owed = (c.lastId + 1, k) ::ₘ c.owed := by cases worker <;> exact left.1
    have sizes := congrArg Multiset.card owed
    rw [Multiset.card_cons] at sizes
    omega
  | reply ref tag text => exact Bool.noConfusion (left.1.symm.trans left.2.1)

theorem runLost {p : Passage} {m : Message} {e : Error} (stands : p.standsFirst = true)
    (noted : call.note c = (.ok m, after)) (lost : p.send m = .error e) :
    call.run p c = (.error e, after) := by
  simp only [run, stands, Bool.not_true, Bool.and_false, Bool.false_eq_true, if_false, noted, lost]
  rfl

end Note

section Connected
variable {c : Connection γ} {after : Machine γ} {m : Message} {e : Error}

theorem evaluateLost {form package : String} {worker : Option WorkerRef} {k : Option γ}
    (stands : c.connected = true) (lost : (Passage.through c).send m = .error e)
    (noted : (Outgoing.evaluate form package worker k).note c.machine = (.ok m, after)) :
    (c.evaluate form package worker k).1 = .error e ∧
      (c.evaluate form package worker k).2.machine = after := by
  have same := (evaluateRun c form package worker k).symm.trans (runLost stands noted lost)
  obtain ⟨failed, machine⟩ := Prod.mk.inj same
  refine ⟨?_, machine⟩
  cases result : (c.evaluate form package worker k).1 <;> rw [result] at failed <;> cases failed
  rfl

theorem replyLost {worker : WorkerRef} {tag : Tag} {text : String} (stands : c.connected = true)
    (lost : (Passage.through c).send m = .error e)
    (noted : (Outgoing.reply worker tag text).note c.machine = (.ok m, after)) :
    (c.returnString worker tag text).1 = .error e ∧
      (c.returnString worker tag text).2.machine = after :=
  Prod.mk.inj ((replyRun c worker tag text).symm.trans (runLost stands noted lost))

end Connected

/- Of the calls that fail, just those that are refused beforehand leave the machine as it was. The
others leave what they noted, whether the connection has gone, the message is too large or a write
breaks off. -/
theorem failureKeepsIff (call : Outgoing γ) (p : Passage) (c : Machine γ) {e : Error}
    (fresh : c.lastId + 1 ∉ c.owedIds) (failed : (call.run p c).1 = .error e) :
    ((∃ n, (call.run p c).2 = { c with lastId := n }) ↔ call.Refused p c) ∧
    (call.Refused p c → (call.run p c).2 = c) ∧
    (¬ call.Refused p c → call.Leaves c (call.run p c).2 ∧
      ∃ m, call.note c = (.ok m, (call.run p c).2) ∧ p.send m = .error e) := by
  have kept : call.Refused p c → (call.run p c).2 = c := by
    intro refused
    unfold run
    split
    · rfl
    next looked =>
      rcases refused with ⟨looks, gone⟩ | ⟨e, refused⟩
      · simp [looks, gone] at looked
      · rcases noted : call.note c with ⟨e | m, after⟩
        · exact noteRefused noted
        · simp [noted] at refused
  have noted (passed : ¬ call.Refused p c) :
      ∃ m, call.note c = (.ok m, (call.run p c).2) ∧ p.send m = .error e := by
    obtain ⟨unseen, accepted⟩ := not_or.mp passed
    have looked : (call.looks && !p.standsFirst) = false := by simpa using unseen
    rcases result : call.note c with ⟨e | m, after⟩
    · exact absurd ⟨e, by rw [result]⟩ accepted
    · simp only [run, looked, result, Bool.false_eq_true, if_false] at failed ⊢
      refine ⟨m, rfl, ?_⟩
      cases sent : p.send m <;> simp_all [Except.map]
  have left (passed : ¬ call.Refused p c) : call.Leaves c (call.run p c).2 := by
    obtain ⟨m, took, -⟩ := noted passed
    exact noteLeaves fresh took
  refine ⟨⟨fun ⟨n, same⟩ => ?_, fun refused => ⟨c.lastId, kept refused⟩⟩, kept,
    fun passed => ⟨left passed, noted passed⟩⟩
  by_contra passed
  exact leavesChanged (left passed) n same

def heard (messages : List Message) : Machine Unit :=
  messages.foldl (fun c m => (c.handle m).2) (Machine.start.evaluate "x" "USER" none none).2

def prompted : Machine Unit :=
  heard [.workerAssigned 1 1,
    .debugEnter 1 1 "UNBOUND-VARIABLE" [⟨"ABORT", "Return to top level."⟩] []]

def asked : Machine Unit := heard [.workerAssigned 1 1, .readStringRequest 1 1]

theorem promptLost :
    let call : Outgoing Unit := .evaluate "1" "USER" (some 1) none
    let closed : Passage := { standsFirst := true, standsLast := false }
    let after := (call.run closed prompted).2
    prompted.lastId + 1 ∉ prompted.owedIds ∧
    (call.run closed prompted).1 = .error .connectionClosed ∧
    call.Leaves prompted after ∧ after.outstanding = [(some 1, 2), (some 1, 1)] := by
  intro call closed after
  have fresh : prompted.lastId + 1 ∉ prompted.owedIds := by decide +kernel
  have failed : (call.run closed prompted).1 = .error .connectionClosed := by decide +kernel
  have passed : ¬ call.Refused closed prompted := by
    rintro (⟨-, gone⟩ | ⟨e, refused⟩)
    · cases gone
    · cases refused
  have left := ((failureKeepsIff call closed prompted fresh failed).2.2 passed).1
  exact ⟨fresh, failed, left, by decide +kernel⟩

theorem unsentNotUndone :
    ¬ (∀ (c : Connection Unit) form package worker k e,
      (c.evaluate form package worker k).1 = .error e →
        ∃ n, (c.evaluate form package worker k).2.machine = { c.machine with lastId := n }) ∧
    ¬ (∀ (c : Connection Unit) worker tag text e,
      (c.returnString worker tag text).1 = .error e →
        ∃ n, (c.returnString worker tag text).2.machine = { c.machine with lastId := n }) ∧
    ¬ (∀ (call : Outgoing Unit) p c e, (call.run p c).1 = .error e →
      ∃ n, (call.run p c).2 = { c with lastId := n }) := by
  have long : (String.ofList (List.replicate 16777216 'a')).length = 16777216 := by
    rw [String.length_ofList, List.length_replicate]
  generalize String.ofList (List.replicate 16777216 'a') = text at long
  refine ⟨fun undone => ?_, fun undone => ?_, fun undone => ?_⟩
  · have large : 16777215 < (Message.request text "USER" .new 1).print.utf8ByteSize :=
      Nat.lt_of_lt_of_le (by omega) (Message.textLong List.mem_cons_self)
    have noted : (Outgoing.evaluate text "USER" none none).note (.start : Machine Unit) =
      (.ok (.request text "USER" .new 1), (Machine.start.evaluate text "USER" none none).2) := rfl
    obtain ⟨failed, machine⟩ := evaluateLost (c := {}) rfl (Passage.sendLong rfl large) noted
    obtain ⟨n, kept⟩ := undone {} text "USER" none none _ failed
    exact leavesChanged (noteLeaves (by decide) noted) n (machine.symm.trans kept)
  · have inside : .str text ∈ (Message.readStringReply 1 1 text).arguments := by
      simp [Message.arguments]
    have large : 16777215 < (Message.readStringReply 1 1 text).print.utf8ByteSize :=
      Nat.lt_of_lt_of_le (by omega) (Message.textLong inside)
    have noted : (Outgoing.reply 1 1 text).note asked =
      (.ok (.readStringReply 1 1 text), (asked.returnString 1 1 text).2) := rfl
    obtain ⟨failed, machine⟩ :=
      replyLost (c := { machine := asked }) rfl (Passage.sendLong rfl large) noted
    obtain ⟨n, kept⟩ := undone { machine := asked } 1 1 text _ failed
    exact leavesChanged (noteLeaves (by decide) noted) n (machine.symm.trans kept)
  · have noted : (Outgoing.evaluate "1" "USER" none none).note (.start : Machine Unit) =
      (.ok (.request "1" "USER" .new 1), (Machine.start.evaluate "1" "USER" none none).2) := rfl
    have lost := runLost (p := ⟨true, false, .ok ()⟩) rfl noted rfl
    obtain ⟨n, kept⟩ := undone _ _ .start _ (congrArg Prod.fst lost)
    exact leavesChanged (noteLeaves (by decide) noted) n ((congrArg Prod.snd lost).symm.trans kept)

end Outgoing
end RemoteEval.Client
