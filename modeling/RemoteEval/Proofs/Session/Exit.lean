import RemoteEval.Proofs.Session.Run
import RemoteEval.Proofs.Worker.Exit

/-! The exit of a worker, in its three parts. The answer to the outermost request is handed over, then
the reference is given back, and what waits for the worker by then is turned away. With nothing else
between the parts they come to one turn with its exit. -/
namespace RemoteEval

open Turn (lastWords)

namespace Session
variable {s u : Session} {id : WorkerId} {w v : Worker}

theorem deliverKeeps (s : Session) (u : Utterance) :
    (s.deliver u).2.writable = s.writable ∧ (s.deliver u).2.side.isNone = s.side.isNone := by
  cases u with
  | message m => cases m <;> exact ⟨rfl, rfl⟩
  | output text =>
    cases side : s.side with
    | none => simp [deliver, side, send, settled]
    | some before =>
      simp only [deliver, side]
      split <;> simp [side]

theorem deliverAlike (writable : u.writable = s.writable) (inFlight : u.inFlight = s.inFlight)
    (side : u.side = s.side) (what : Utterance) : u.deliver what = ((s.deliver what).1,
      { u with inFlight := (s.deliver what).2.inFlight, side := (s.deliver what).2.side }) := by
  cases s
  cases u
  dsimp only at writable inFlight side
  subst writable inFlight side
  cases what with
  | message m => cases m <;> rfl
  | output text =>
    unfold deliver
    dsimp only
    split
    · split <;> rfl
    · rfl

theorem deliverAllAlike (writable : u.writable = s.writable) (inFlight : u.inFlight = s.inFlight)
    (side : u.side = s.side) (said : List Utterance) : u.deliverAll said = ((s.deliverAll said).1,
      { u with inFlight := (s.deliverAll said).2.inFlight, side := (s.deliverAll said).2.side }) := by
  induction said generalizing s u with
  | nil => simp only [deliverAll, ← inFlight, ← side]
  | cons what rest ih =>
    obtain ⟨kept, -⟩ := s.deliverKeeps what
    let after : Session := { u with
      inFlight := (s.deliver what).2.inFlight, side := (s.deliver what).2.side }
    have later := ih (s := (s.deliver what).2) (u := after) (writable.trans kept.symm) rfl rfl
    simp only [deliverAll, deliverAlike writable inFlight side what]
    rw [later]

theorem deliverAllAppend (s : Session) (said more : List Utterance) :
    s.deliverAll (said ++ more) = ((s.deliverAll said).1 ++ ((s.deliverAll said).2.deliverAll more).1,
      ((s.deliverAll said).2.deliverAll more).2) := by
  induction said generalizing s with
  | nil => rfl
  | cons what rest ih => simp only [List.cons_append, deliverAll, ih, List.append_assoc]

theorem releaseEq (s : Session) (ref : WorkerRef) : s.release ref = { s with
    registry := (s.registry.release ref).2, workers := (s.release ref).workers } := by
  unfold release modifyWorker
  dsimp only
  repeat' split
  all_goals rfl

def without (s : Session) (id : WorkerId) (ref : WorkerRef) : Session :=
  { s.release ref with workers := (s.release ref).workers.erase id }

theorem withoutInsert (s : Session) (id : WorkerId) (w : Worker) (ref : WorkerRef) :
    ({ s with workers := s.workers.insert id w } : Session).without id ref = s.without id ref := by
  have same : (({ s with workers := s.workers.insert id w } : Session).release ref).workers.erase id =
      (s.release ref).workers.erase id := by
    refine Table.ext fun other => ?_
    by_cases this : id = other
    · simp [this]
    · simp [this, releaseGet]
  rw [without, same, without, releaseEq, releaseEq s]

theorem resumeGone (finished : w.isFinished = true) : s.resume id w = s.without id w.me := by
  simp only [resume, finished, if_true]
  exact withoutInsert s id w w.me

theorem withoutWith (s : Session) (id : WorkerId) (ref : WorkerRef)
    (inFlight : Table RequestId WorkerRef) (side : Option String) :
    ({ s with inFlight, side } : Session).without id ref = { s.without id ref with inFlight, side } := by
  have workers : (({ s with inFlight, side } : Session).release ref).workers =
      (s.release ref).workers := Table.ext fun other => by simp only [releaseGet]
  rw [without, without, releaseEq, workers, releaseEq s]

theorem drainFound (found : s.workers.get? id = some w) : s.drain id =
    ({ s with workers := s.workers.erase id } : Session).deliverAll (lastWords w) := by
  have said : (Turn.retire { worker := w, globals := [] }).said = lastWords w := Turn.saidRetire
  simp only [drain, found, said]

theorem drainEq {ref : WorkerRef} (found : s.workers.get? id = some w) :
    (s.release ref).drain id = (s.without id ref).deliverAll (lastWords w) := by
  obtain ⟨v, there, words⟩ : ∃ v, (s.release ref).workers.get? id = some v ∧
      lastWords v = lastWords w := by
    rw [releaseGet, found]
    refine ⟨_, rfl, ?_⟩
    split <;> rfl
  rw [drainFound there, words]
  rfl

/- With nothing between its parts an exit is part of the turn. -/
theorem advanceWhole (s : Session) (globals : Globals) (id : WorkerId) : s.advance globals id =
    (s.workers.get? id).bind fun w =>
      (w.step s.service globals).map fun t => (t.globals, s.complete id t) := by
  unfold advance
  cases found : s.workers.get? id with
  | none => rfl
  | some w =>
    simp only [Option.bind_eq_bind, Option.bind_some, Worker.stepWhole]
    cases acted : w.act s.service globals with
    | none => rfl
    | some t =>
      simp only [Option.bind_some, Option.map_some, absorb]
      let after : Session := { s with workers := s.workers.insert id t.worker }
      obtain ⟨inFlight, side, effect, -⟩ := after.deliverAllEq t.said
      cases finished : t.worker.isFinished with
      | false =>
        have stays : t.leave = t := Turn.leaveAwake finished
        simp [stays, complete, resume, finished]
      | true =>
        have leaves : t.leave = t.retire := if_pos finished
        have ended : t.retire.worker.isFinished = true ∧ t.retire.worker.me = t.worker.me ∧
            t.retire.globals = t.globals := by
          rw [Turn.retireEq]
          exact ⟨rfl, rfl, rfl⟩
        have there : ({ after with inFlight, side } : Session).workers.get? id = some t.worker := by
          simp [after]
        have gone : s.without id t.worker.me = after.without id t.worker.me :=
          (withoutInsert ..).symm
        -- what is said goes out alike before and after the reference is given back
        have alike := deliverAllAlike (s := after) (u := s.without id t.worker.me)
          (by rw [without, releaseEq]) (by rw [without, releaseEq]) (by rw [without, releaseEq]) t.said
        rw [effect] at alike
        simp only [if_true, leaves, complete, Turn.saidRetire, resumeGone ended.1, ended.2.1,
          ended.2.2, deliverAllAppend, alike]
        change some (t.globals, (after.deliverAll t.said).1 ++
          (((after.deliverAll t.said).2.release t.worker.me).drain id).1,
          (((after.deliverAll t.said).2.release t.worker.me).drain id).2) = _
        rw [effect, drainEq there, withoutWith, gone]

theorem completeParts {globals : Globals} {t : Turn} (found : s.workers.get? id = some w)
    (acted : w.act s.service globals = some t) : (s.complete id t.leave).2 =
      if t.worker.isFinished then (((s.absorb id t).2.release t.worker.me).drain id).2
      else (s.absorb id t).2 := by
  have whole := s.advanceWhole globals id
  simp only [advance, found, acted, Worker.stepWhole, Option.bind_eq_bind, Option.bind_some,
    Option.map_some] at whole
  split
  next finished =>
    rw [if_pos finished] at whole
    exact (congrArg (·.2.2) (Option.some.inj whole)).symm
  next awake =>
    rw [if_neg awake] at whole
    exact (congrArg (·.2.2) (Option.some.inj whole)).symm

end Session
end RemoteEval
