import Mathlib.Data.List.Induction
import RemoteEval.Proofs.Client.Requests

/-! The books of a client over any sequence of calls, with any messages of a server. Whatever was
asked for is still owed, or was answered, or was lost with a message that was refused. Numbers are
given out in turn, so no two requests share one as long as they do not run over. -/
namespace RemoteEval.Client
variable {γ : Type}

inductive Call (γ : Type) where
  | evaluate (form package : String) (worker : Option WorkerRef) (continuation : Option γ)
  | interrupt (worker : WorkerRef)
  | returnString (worker : WorkerRef) (tag : Tag) (text : String)
  | handle (message : Message)
  | abortAll (reason : String)

structure Ledger (γ : Type) where
  machine : Machine γ := .start
  issued : List (Request γ) := []
  effects : List (Effect γ) := []
  refused : List Error := []

namespace Ledger

def step (l : Ledger γ) : Call γ → Ledger γ
  | .evaluate form package worker k =>
    match l.machine.evaluate form package worker k with
    | (.ok (id, _), machine) => { l with machine, issued := l.issued ++ [(id, k)] }
    | (.error _, machine) => { l with machine }
  | .interrupt _ => l
  | .returnString worker tag text =>
    { l with machine := (l.machine.returnString worker tag text).2 }
  | .handle m =>
    match l.machine.handle m with
    | (.ok effects, machine) => { l with machine, effects := l.effects ++ effects }
    | (.error e, machine) => { l with machine, refused := l.refused ++ [e] }
  | .abortAll reason =>
    let (effects, machine) := l.machine.abortAll reason
    { l with machine, effects := l.effects ++ effects }

def run (calls : List (Call γ)) : Ledger γ := calls.foldl step {}

def ids (l : Ledger γ) : List RequestId := l.issued.map Prod.fst

def outstanding (l : Ledger γ) : List RequestId := l.machine.outstanding.map Prod.snd

def answered (l : Ledger γ) : List RequestId := l.effects.filterMap Effect.answered?

def answersTo (l : Ledger γ) (id : RequestId) : List (Effect γ) :=
  l.effects.filter fun e => e.answered? == some id

theorem runSnoc (calls : List (Call γ)) (call : Call γ) :
    run (calls ++ [call]) = (run calls).step call := List.foldl_append ..

def Reached (l : Ledger γ) : Prop := ∃ calls, run calls = l

theorem Reached.step {l : Ledger γ} (reached : l.Reached) (call : Call γ) :
    (l.step call).Reached := by
  obtain ⟨calls, rfl⟩ := reached
  exact ⟨calls ++ [call], runSnoc calls call⟩

/- The numbers that were given out. They run over, but that is not looked at. -/
structure Numbered (l : Ledger γ) : Prop where
  ids : l.ids = (List.range l.issued.length).map fun i => (i + 1).toUInt64
  last : l.machine.lastId = l.issued.length.toUInt64

theorem stepNumbered {l : Ledger γ} (numbered : l.Numbered) (call : Call γ) :
    (l.step call).Numbered := by
  obtain ⟨ids, last⟩ := numbered
  unfold Ledger.ids at ids
  cases call with
  | evaluate form package worker k =>
    rcases result : l.machine.evaluate form package worker k with ⟨_ | ⟨id, m⟩, after⟩ <;>
      simp only [step, result]
    · rw [Machine.evaluateRefused result]
      exact ⟨ids, last⟩
    · obtain ⟨rfl, next⟩ := Machine.evaluateNumber result
      refine ⟨?_, ?_⟩
      · rw [last, Machine.nextNumber]
        simp only [Ledger.ids, List.map_append, ids, List.length_append, List.range_succ,
          List.length_singleton, List.map_cons, List.map_nil]
      · rw [next, last, Machine.nextNumber, List.length_append, List.length_singleton]
  | interrupt | abortAll => exact ⟨ids, last⟩
  | returnString worker tag text =>
    exact ⟨ids, (Machine.replyReleases ..).lastId.trans last⟩
  | handle m =>
    have same := l.machine.handleLastId m
    rcases result : l.machine.handle m with ⟨_ | effects, after⟩ <;> rw [result] at same <;>
      simp only [step, result] <;> exact ⟨ids, same.trans last⟩

theorem runNumbered (calls : List (Call γ)) : (run calls).Numbered := by
  induction calls using List.reverseRecOn with
  | nil => exact ⟨rfl, rfl⟩
  | append_singleton before call ih => exact runSnoc before call ▸ stepNumbered ih call

theorem runDistinct {calls : List (Call γ)} (few : (run calls).issued.length < 2 ^ 64) :
    (run calls).ids.Nodup := by
  rw [(runNumbered calls).ids]
  exact Machine.numbersDistinct few

/- `settled` has been answered, and `lost` has gone with messages that were refused. -/
structure Accounts (l : Ledger γ) (settled lost : Multiset (Request γ)) : Prop where
  balance : (l.issued : Multiset (Request γ)) = l.machine.owed + settled + lost
  settles : Settles l.effects settled
  failures : ∃ ds : List Desync, l.refused = ds.map Desync.toError ∧
    lost.map Prod.fst = ds.flatMap Desync.dropped

theorem Accounts.parts {l : Ledger γ} {settled lost : Multiset (Request γ)}
    (books : l.Accounts settled lost) :
    (l.ids : Multiset RequestId) = l.machine.owedIds + l.answered + lost.map Prod.fst := by
  rw [ids, ← Multiset.map_coe, books.balance, Multiset.map_add, Multiset.map_add, books.settles.ids]
  rfl

theorem Accounts.owedBelow {l : Ledger γ} {settled lost : Multiset (Request γ)}
    (books : l.Accounts settled lost) : l.machine.owedIds ≤ (l.ids : Multiset RequestId) := by
  rw [books.parts, add_assoc]
  exact Multiset.le_add_right _ _

theorem issuedGrows (l : Ledger γ) (call : Call γ) : l.issued <+: (l.step call).issued := by
  cases call <;> simp only [step]
  case evaluate => split <;> simp
  case handle => split <;> exact List.prefix_rfl
  all_goals exact List.prefix_rfl

theorem stepAccounts {l : Ledger γ} {settled lost : Multiset (Request γ)}
    (books : l.Accounts settled lost) (call : Call γ) (distinct : (l.step call).ids.Nodup) :
    ∃ settled lost, (l.step call).Accounts settled lost := by
  have before : l.ids.Nodup := distinct.sublist ((issuedGrows l call).sublist.map Prod.fst)
  have apart := Multiset.nodup_of_le books.owedBelow (Multiset.coe_nodup.mpr before)
  have below := Multiset.subset_of_le books.owedBelow
  obtain ⟨balance, settles, failures⟩ := books
  cases call with
  | evaluate form package worker k =>
    rcases result : l.machine.evaluate form package worker k with ⟨_ | ⟨id, m⟩, after⟩ <;>
      simp only [step, result] at distinct ⊢
    · rw [Machine.evaluateRefused result]
      exact ⟨settled, lost, balance, settles, failures⟩
    · obtain ⟨rfl, _⟩ := Machine.evaluateNumber result
      have fresh : l.machine.lastId + 1 ∉ l.ids := by
        rw [ids, List.map_append] at distinct
        exact fun member => (List.nodup_append.mp distinct).2.2 _ member _ (by simp) rfl
      have more := Machine.evaluateOwed
        (fun owing => fresh (Multiset.mem_coe.mp (below owing))) result
      refine ⟨settled, lost, ?_, settles, failures⟩
      rw [more, ← Multiset.coe_add, balance, ← Multiset.singleton_add, Multiset.coe_singleton]
      abel
  | interrupt => exact ⟨settled, lost, balance, settles, failures⟩
  | returnString ref tag text =>
    have kept := (l.machine.replyReleases ref tag text).owed
    rw [zero_add] at kept
    exact ⟨settled, lost, kept ▸ balance, settles, failures⟩
  | handle m =>
    rcases result : l.machine.handle m with ⟨e | effects, after⟩ <;> simp only [step, result]
    · obtain ⟨d, rfl, gone, drops, released⟩ := Machine.handleDrops result
      obtain ⟨ds, same, counted⟩ := failures
      refine ⟨settled, lost + gone, ?_, settles, ds ++ [d], by simp [same], ?_⟩
      · rw [balance, released.owed]
        abel
      · simp [counted, drops]
    · obtain ⟨gone, answers, released⟩ := Machine.handleReleases apart result
      refine ⟨settled + gone, lost, ?_, settles.append answers, failures⟩
      rw [balance, released.owed]
      abel
  | abortAll reason =>
    refine ⟨settled + l.machine.owed, lost, ?_, settles.append (Machine.abortSettles ..), failures⟩
    refine balance.trans ?_
    simp only [step, Machine.abortOwed]
    abel

theorem runAccounts {calls : List (Call γ)} (few : (run calls).issued.length < 2 ^ 64) :
    ∃ settled lost, (run calls).Accounts settled lost := by
  have distinct := runDistinct few
  clear few
  induction calls using List.reverseRecOn with
  | nil =>
    have silent := settlesNone fun (e : Effect γ) member => absurd member List.not_mem_nil
    exact ⟨0, 0, rfl, silent, [], rfl, rfl⟩
  | append_singleton before call ih =>
    rw [runSnoc] at distinct ⊢
    have earlier := distinct.sublist ((issuedGrows (run before) call).sublist.map Prod.fst)
    obtain ⟨settled, lost, books⟩ := ih earlier
    exact stepAccounts books call distinct

theorem Reached.books {l : Ledger γ} (reached : l.Reached) (few : l.issued.length < 2 ^ 64) :
    ∃ settled lost, l.Accounts settled lost ∧ l.ids.Nodup := by
  obtain ⟨calls, rfl⟩ := reached
  obtain ⟨settled, lost, books⟩ := runAccounts few
  exact ⟨settled, lost, books, runDistinct few⟩

namespace Accounts
variable {l : Ledger γ} {settled lost : Multiset (Request γ)}

theorem outstandingIds (l : Ledger γ) : l.machine.owedIds = l.outstanding :=
  Machine.owedOutstanding l.machine

theorem partition (books : l.Accounts settled lost) (distinct : l.ids.Nodup) :
    (l.outstanding ++ l.answered).Nodup ∧
      (∀ id ∈ lost.map Prod.fst, id ∉ l.outstanding ++ l.answered) ∧
      ∀ id, id ∈ l.ids ↔ id ∈ l.outstanding ++ l.answered ∨ id ∈ lost.map Prod.fst := by
  have parts := books.parts
  rw [outstandingIds, Multiset.coe_add] at parts
  rw [← Multiset.coe_nodup, parts, Multiset.nodup_add] at distinct
  refine ⟨distinct.1, fun id gone => Multiset.disjoint_right.mp distinct.2.2 gone, fun id => ?_⟩
  rw [← Multiset.mem_coe, parts, Multiset.mem_add, Multiset.mem_coe]

theorem settledIssued (books : l.Accounts settled lost) {r : Request γ} (member : r ∈ settled) :
    r ∈ l.issued := by
  rw [← Multiset.mem_coe, books.balance]
  exact Multiset.mem_add.mpr (.inl (Multiset.mem_add.mpr (.inr member)))

theorem settledIds (books : l.Accounts settled lost) {id : RequestId} {k : Option γ}
    (member : (id, k) ∈ settled) : id ∈ l.answered := by
  rw [← Multiset.mem_coe, answered, ← books.settles.ids]
  exact Multiset.mem_map_of_mem Prod.fst member

theorem settledAnswer (books : l.Accounts settled lost) (distinct : l.ids.Nodup) {id : RequestId}
    {k : Option γ} (member : (id, k) ∈ settled) :
    ∃ ref value, l.answersTo id = [.returned ref id value (Machine.continuationFor value k)] := by
  have answered := books.settledIds member
  have once : (l.answersTo id).length = 1 := by
    rw [answersTo, answersLength]
    exact List.count_eq_one_of_mem (List.nodup_append.mp (books.partition distinct).1).2.1 answered
  obtain ⟨e, only⟩ := List.length_eq_one_iff.mp once
  have inside : e ∈ l.answersTo id := by simp [only]
  obtain ⟨said, answers⟩ := List.mem_filter.mp inside
  cases e with
  | returned ref own value carried =>
    obtain rfl : own = id := by simpa [Effect.answered?] using answers
    obtain ⟨k', other, rfl⟩ := books.settles.carried said
    cases List.inj_on_of_nodup_map distinct (books.settledIssued member)
      (books.settledIssued other) rfl
    exact ⟨ref, value, only⟩
  | _ => simp [Effect.answered?] at answers

theorem owedOrAnswered (books : l.Accounts settled lost) (distinct : l.ids.Nodup)
    (kept : lost = 0) {id : RequestId} {k : Option γ} (asked : (id, k) ∈ l.issued) :
    (id ∈ l.outstanding ∧ l.answersTo id = []) ∨
      (id ∉ l.outstanding ∧ ∃ ref value,
        l.answersTo id = [.returned ref id value (Machine.continuationFor value k)]) := by
  have apart := List.nodup_append.mp (books.partition distinct).1
  rw [← Multiset.mem_coe, books.balance, kept, add_zero, Multiset.mem_add] at asked
  rcases asked with owing | answered
  · have here : id ∈ l.outstanding := by
      rw [← Multiset.mem_coe, ← outstandingIds]
      exact Multiset.mem_map_of_mem Prod.fst owing
    refine .inl ⟨here, List.eq_nil_of_length_eq_zero ?_⟩
    rw [answersTo, answersLength, List.count_eq_zero]
    exact fun member => apart.2.2 id here id member rfl
  · have member := books.settledIds answered
    exact .inr
      ⟨fun here => apart.2.2 id here id member rfl, books.settledAnswer distinct answered⟩

end Accounts

theorem Accounts.lostNone {l : Ledger γ} {settled lost : Multiset (Request γ)}
    (books : l.Accounts settled lost) (accepted : l.refused = []) : lost = 0 := by
  obtain ⟨ds, same, gone⟩ := books.failures
  rw [accepted] at same
  rw [List.map_eq_nil_iff.mp same.symm] at gone
  exact Multiset.map_eq_zero.mp gone

/- The requests of any sequence of calls. No number is outstanding in two places or answered
twice; unless a message was refused, each is outstanding or has its one answer, which carries the
continuation of that request if it is a value and none if it is an abort. The abort of all answers
exactly those that are outstanding, and then none is. -/
theorem requestsAccounted {calls : List (Call γ)} {l : Ledger γ} (ran : run calls = l)
    (few : l.issued.length < 2 ^ 64) :
    l.outstanding.Nodup ∧ l.outstanding ⊆ l.ids ∧ (∀ id, (l.answersTo id).length ≤ 1) ∧
    (l.refused = [] → ∀ id k, (id, k) ∈ l.issued →
      (id ∈ l.outstanding ∧ l.answersTo id = []) ∨
      (id ∉ l.outstanding ∧ ∃ ref, (∃ v, l.answersTo id = [.returned ref id (.ok v) k]) ∨
        ∃ reason, l.answersTo id = [.returned ref id (.abort reason) none])) ∧
    ∀ reason,
      (∀ e ∈ (l.machine.abortAll reason).1, ∃ place ∈ l.machine.outstanding,
        e = .returned place.1 place.2 (.abort (some reason)) none) ∧
      (∀ id, ((l.machine.abortAll reason).1.filter fun e => e.answered? == some id).length =
        if id ∈ l.outstanding then 1 else 0) ∧
      (l.machine.abortAll reason).2.isIdle = true ∧
      (l.machine.abortAll reason).2.outstanding = [] := by
  obtain ⟨settled, lost, books, distinct⟩ := Reached.books ⟨calls, ran⟩ few
  obtain ⟨apart, _, whole⟩ := books.partition distinct
  obtain ⟨once, answeredOnce, _⟩ := List.nodup_append.mp apart
  refine ⟨once, fun id here => (whole id).mpr (.inl (List.mem_append_left _ here)), fun id => ?_,
    fun accepted id k asked => ?_, fun reason => ⟨fun e member => ?_, fun id => ?_, rfl, rfl⟩⟩
  · rw [answersTo, answersLength]
    exact List.nodup_iff_count_le_one.mp answeredOnce id
  · refine (books.owedOrAnswered distinct (books.lostNone accepted) asked).imp_right ?_
    rintro ⟨gone, ref, value, only⟩
    refine ⟨gone, ref, ?_⟩
    cases value with
    | ok v => exact .inl ⟨v, only⟩
    | abort why => exact .inr ⟨why, only⟩
  · obtain ⟨place, inside, rfl⟩ := List.mem_map.mp member
    exact ⟨place, inside, rfl⟩
  · exact Machine.abortOnce _ reason (by rw [Accounts.outstandingIds]; exact once) id

def nestedCalls : List (Call Nat) :=
  [.evaluate "(foo)" "USER" none (some 10), .handle (.workerAssigned 1 1),
    .handle (.debugEnter 1 1 "Undefined function foo." [] []),
    .evaluate "(+ 1 2)" "USER" (some 1) (some 20), .handle (.debugReturn 1 1),
    .handle (.returned 1 (.ok (.int 3)) 2)]

theorem nestedAccounted :
    (run nestedCalls).issued.length < 2 ^ 64 ∧ (run nestedCalls).refused = [] ∧
    (run nestedCalls).outstanding = [1] ∧ (run nestedCalls).answersTo 1 = [] ∧
    ∃ ref, (∃ v, (run nestedCalls).answersTo 2 = [.returned ref 2 (.ok v) (some 20)]) ∨
      ∃ reason, (run nestedCalls).answersTo 2 = [.returned ref 2 (.abort reason) none] := by
  have few : (run nestedCalls).issued.length < 2 ^ 64 := by decide
  have accepted : (run nestedCalls).refused = [] := by rfl
  have outstanding : (run nestedCalls).outstanding = [1] := by decide
  have ran : run nestedCalls = run nestedCalls := rfl
  obtain ⟨_, _, _, each, _⟩ := requestsAccounted ran few
  refine ⟨few, accepted, outstanding, ?_, ?_⟩
  · rcases each accepted 1 (some 10) (by decide) with ⟨_, none⟩ | ⟨gone, _⟩
    · exact none
    · exact absurd (by simp [outstanding]) gone
  · rcases each accepted 2 (some 20) (by decide) with ⟨here, _⟩ | ⟨_, answer⟩
    · simp [outstanding] at here
    · exact answer

end Ledger
end RemoteEval.Client
