import Mathlib.Data.List.Nodup
import RemoteEval.Proofs.Client.Messages
import RemoteEval.Proofs.Exchange.Channel

/-! Runs of the two parties. Requests are numbered as they are sent, and the server gets
them in that order, so those that it got have different numbers: a number that is too big
cannot be read. With that, all that the server has put into its channel fits. -/
namespace RemoteEval

open Client (Machine)

namespace Exchange
variable {γ : Type}

inductive Advances (x : Exchange γ) : Exchange γ → Prop where
  | stay : Advances x x
  | call {m client} (sends : Machine.Sends x.client m client) : Advances x (x.send client m)
  | dispatch {m later} (up : x.up = m :: later) (read : m.readable = true) :
      Advances x ({ x with up := later }.serve (.receive m))
  | work (worker : WorkerId) (pace : Pace) (globals : Globals) :
      Advances x (x.serve (.work worker pace globals))
  | loseSide : Advances x (x.serve .loseSide)
  | handle {p later client} (down : x.down = p :: later) (read : p.message.readable = true)
      (takes : Machine.Takes x.client p.message client) :
      Advances x { x with client, down := later, story := x.story ++ [.heard p] }

theorem actAdvances (x : Exchange γ) (step : Step γ)
    (read : (x.next? step).all Message.readable = true) : x.Advances (x.act step) := by
  cases step with
  | evaluate form package worker continuation =>
    simp only [act]
    split
    next accepted => exact .call (Machine.evaluateSends accepted)
    · exact .stay
  | interrupt worker => exact .call .interrupt
  | returnString worker tag text =>
    simp only [act]
    split
    next accepted => exact .call (Machine.returnStringSends accepted)
    · exact .stay
  | dispatch =>
    simp only [act]
    split
    · exact .stay
    next up => exact .dispatch up (by simpa [next?, up] using read)
  | work worker pace globals => exact .work worker pace globals
  | loseSide => exact .loseSide
  | handle =>
    simp only [act]
    split
    · exact .stay
    next down =>
      split
      next taken =>
        exact .handle down (by simpa [next?, down] using read) (Machine.handleTakes.mp ⟨_, taken⟩)
      · exact .stay

theorem stepAdvances (x : Exchange γ) (step : Step γ) : x.Advances (x.step step) := by
  unfold Exchange.step
  split
  next read => exact x.actAdvances step read
  · exact .stay

theorem runKeeps {P : Exchange γ → Prop} (kept : ∀ {x y : Exchange γ}, x.Advances y → P x → P y)
    {x : Exchange γ} (start : P x) (steps : List (Step γ)) : P (x.run steps) := by
  induction steps generalizing x with
  | nil => exact start
  | cons step later ih => exact ih (kept (x.stepAdvances step) start)

@[simp] theorem heardSend (x : Exchange γ) (client : Machine γ) (m : Message) :
    (x.send client m).heard = x.heard := by
  simp [heard, send]

@[simp] theorem sentSend (x : Exchange γ) (client : Machine γ) (m : Message) :
    (x.send client m).sent = x.sent ++ [m] := by
  simp [sent, send]

end Exchange

/- The first request is number one. The numbers run over, but that is not looked at. -/
structure Numbered (sent : List Message) (last : RequestId) : Prop where
  ids : sent.filterMap Message.requested? =
    (List.range (sent.countP (·.requested?.isSome))).map fun n => (n + 1).toUInt64
  last : last = (sent.countP (·.requested?.isSome)).toUInt64

theorem Numbered.distinct {sent : List Message} {last : RequestId} (numbered : Numbered sent last)
    {first later : List Message} (parts : sent = first ++ later)
    (read : ∀ m ∈ first, m.readable = true) : (first.filterMap Message.requested?).Nodup := by
  have small : ∀ id ∈ first.filterMap Message.requested?, id.toNat < 2 ^ 63 := by
    intro id member
    obtain ⟨m, inside, asked⟩ := List.mem_filterMap.mp member
    have range := Message.readableInRange (read m inside)
    cases m with
    | request form package target own =>
      cases asked
      exact range
    | _ => contradiction
  have ids := numbered.ids
  rw [parts, List.filterMap_append] at ids
  have taken := congrArg (List.take (first.filterMap Message.requested?).length) ids
  rw [List.take_left, ← List.map_take, List.take_range] at taken
  rw [taken] at small ⊢
  generalize min (first.filterMap Message.requested?).length _ = k at small
  -- Number 2 ^ 63 is the first that is too big, so there are fewer.
  have few : k < 2 ^ 63 := by
    by_contra many
    have big := small (2 ^ 63 : Nat).toUInt64 (List.mem_map.mpr ⟨2 ^ 63 - 1, by simp; omega, rfl⟩)
    simp [Nat.toUInt64] at big
  exact Machine.numbersDistinct (by omega)

theorem Numbered.call {γ : Type} {c c' : Machine γ} {sent : List Message} {m : Message}
    (numbered : Numbered sent c.lastId) (sends : c.Sends m c') :
    Numbered (sent ++ [m]) c'.lastId := by
  obtain ⟨ids, last⟩ := numbered
  have next : c.lastId + 1 = (sent.countP (·.requested?.isSome) + 1).toUInt64 := by
    rw [last, Machine.nextNumber]
  have silent : m.requested? = none → Numbered (sent ++ [m]) c.lastId := fun none =>
    ⟨by simpa [none] using ids, by simpa [none] using last⟩
  cases sends with
  | fresh | nested =>
    refine ⟨?_, ?_⟩
    · simp [Message.requested?, ids, next, List.range_succ]
    · simp [Message.requested?, next]
  | interrupt | reply => exact silent rfl

namespace Exchange
variable {γ : Type}

/- Nothing is lost on either channel, only what can be read is taken from it, and what is
put into the second one fits. -/
structure Regular (x : Exchange γ) : Prop where
  tidy : x.client.Tidy
  numbered : Numbered x.sent x.client.lastId
  passed : x.sent = x.log.received ++ x.up
  dispatched : ∀ m ∈ x.log.received, m.readable = true
  heard : AllRead x.heard
  conveys : Conveys x.log (x.heard ++ x.down)

theorem Regular.distinct {x : Exchange γ} (regular : x.Regular) : x.log.requested.Nodup :=
  regular.numbered.distinct regular.passed regular.dispatched

theorem Regular.dispatchedSent {x : Exchange γ} (regular : x.Regular) :
    x.log.received ⊆ x.sent := by
  rw [regular.passed]
  exact List.subset_append_left ..

theorem openingRegular (service : Service) (port : UInt16) :
    (opening service port : Exchange γ).Regular where
  tidy := by simp [opening, Machine.start, Machine.Tidy]
  numbered := ⟨rfl, rfl⟩
  passed := rfl
  dispatched := by simp [opening, Log.opening]
  heard := by simp [opening, Exchange.heard, AllRead]
  conveys := openingConveys service port

theorem Advances.regular {x y : Exchange γ} (advances : x.Advances y) (regular : x.Regular) :
    y.Regular := by
  cases advances with
  | stay => exact regular
  | @call m client sends =>
    exact {
      tidy := sends.tidy regular.tidy
      numbered := by
        rw [sentSend]
        exact regular.numbered.call sends
      passed := by
        rw [sentSend, regular.passed, List.append_assoc]
        rfl
      dispatched := regular.dispatched
      heard := by
        rw [heardSend]
        exact regular.heard
      conveys := by
        rw [heardSend]
        exact regular.conveys }
  | @dispatch m later up read =>
    have received : (x.log.step (.receive m)).received = x.log.received ++ [m] := rfl
    have passed : x.sent = (x.log.step (.receive m)).received ++ later := by
      rw [regular.passed, up, received, List.append_assoc]
      rfl
    have dispatched : ∀ n ∈ (x.log.step (.receive m)).received, n.readable = true := by
      rw [received]
      exact List.forall_mem_append.mpr ⟨regular.dispatched, by simpa using read⟩
    have distinct := regular.numbered.distinct passed dispatched
    have new : (x.log.step (.receive m)).entries.drop x.log.entries.length =
        x.log.session.remarks m := List.drop_left ..
    refine ⟨regular.tidy, regular.numbered, passed, dispatched, regular.heard, ?_⟩
    simp only [serve, new]
    rw [← List.append_assoc]
    exact regular.conveys.received m _ distinct
  | work worker pace globals =>
    have received : (x.log.step (.work worker pace globals)).received = x.log.received := by
      rcases x.log.stepWork worker pace globals with same | ⟨_, _, _, _, _, _, effect, _⟩
      · rw [same]
      · rw [effect]
    have distinct : (x.log.step (.work worker pace globals)).requested.Nodup := by
      rw [Log.requested, received]
      exact regular.distinct
    refine ⟨regular.tidy, regular.numbered, ?_, ?_, regular.heard, ?_⟩
    · exact regular.passed.trans (by rw [← received]; rfl)
    · simp only [serve, received]
      exact regular.dispatched
    · simp only [serve]
      rw [← List.append_assoc]
      exact regular.conveys.worked worker pace globals _ distinct
  | loseSide =>
    have balanced : (x.log.step .loseSide).Balanced :=
      Log.stepBalanced regular.conveys.balanced rfl regular.distinct
    refine ⟨regular.tidy, regular.numbered, regular.passed, regular.dispatched, regular.heard, ?_⟩
    have same : (x.serve .loseSide).heard ++ (x.serve .loseSide).down = x.heard ++ x.down ++ [] := by
      simp [serve, Log.step, Exchange.heard]
    rw [same]
    refine regular.conveys.extended balanced (List.Subset.refl _) ?_ ?_ fun all => ⟨trivial, fun _ => ?_⟩
    · exact (List.append_nil _).symm
    · exact (List.append_nil _).symm
    · exact (regular.conveys.agrees all).later (List.Subset.refl _)
  | @handle p later client down read takes =>
    have heard : Exchange.heard { x with client, down := later, story := x.story ++ [.heard p] } =
        x.heard ++ [p] := by simp [Exchange.heard]
    have sent : Exchange.sent { x with client, down := later, story := x.story ++ [.heard p] } =
        x.sent := by simp [Exchange.sent]
    refine ⟨takes.tidy regular.tidy, ?_, ?_, regular.dispatched, ?_, ?_⟩
    · rw [sent, takes.lastId]
      exact regular.numbered
    · rw [sent]
      exact regular.passed
    · rw [heard]
      exact List.forall_mem_append.mpr ⟨regular.heard, by simpa using read⟩
    · have conveys := regular.conveys
      rw [down] at conveys
      rw [heard, List.append_assoc]
      exact conveys

theorem runRegular (service : Service) (port : UInt16) (steps : List (Step γ)) :
    ((opening service port).run steps).Regular :=
  runKeeps Advances.regular (openingRegular service port) steps

theorem Regular.legal {x : Exchange γ} (regular : x.Regular) {p : Parcel} {later : List Parcel}
    (down : x.down = p :: later) (read : p.message.readable = true) :
    Legal x.log.received (bonds x.heard) p := by
  have flows := regular.conveys.flows
  rw [down, flowsAppend] at flows
  exact ((flows.2 regular.heard) read).1

end Exchange
end RemoteEval
