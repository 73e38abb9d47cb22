import RemoteEval.Calc.Basic
import RemoteEval.Proofs.Session.Protocol
import RemoteEval.Proofs.Worker.Activation

/-! The protocol that the life of a worker keeps to. A life is made of the turns of its worker: a
prompt that is made active is one at which the worker then waits, and once active it is not left
unless it is asked for something or the worker is cut off. -/
namespace RemoteEval.Log

theorem workLife {l : Log} (orderly : l.Orderly) {worker : WorkerId} {w : Worker} {pace : Pace}
    {globals : Globals} {t : Turn} (found : l.session.workers.get? worker = some w)
    (moved : w.step (l.session.paced pace).service globals = some t) :
    (l.step (.work worker pace globals)).life worker = l.life worker ++ w.deeds t := by
  have there : (l.session.paced pace).workers.get? worker = some w := found
  obtain ⟨asked, awaits⟩ := w.awaitsSome
  obtain ⟨_, conducts, -⟩ := Worker.stepConduct (orderly.sound found) awaits moved
  simp only [step, there, moved]
  rw [life, List.foldl_append, ← life, extendDeeds worker worker w.me conducts.noAssignment,
    if_pos rfl]

/- A teardown may come at any time, and the workers that it cuts off keep to the protocol until
they are gone. -/
theorem livesFollowProtocol (service : Service) (port : UInt16) (moves : List Move)
    (worker : WorkerId) :
    let l := (opening service port).run moves
    match l.session.workers.get? worker with
    | some w => Stage.run w.me .unassigned (l.life worker) = some w.stage ∧
        w.stage.depth = DebugStack.level w.levels ∧
        ∀ pace globals t, w.step (l.session.paced pace).service globals = some t →
          (l.step (.work worker pace globals)).life worker = l.life worker ++ w.deeds t ∧
          t.KeepsPrompts (l.session.service.cancelled = true ∨ w.attached = false)
    | none => l.life worker = [] ∨
        ∃ me, Stage.run me .unassigned (l.life worker) = some .released := by
  intro l
  have orderly : l.Orderly := runOrderly (openingOrderly service port) moves
  have follows := orderly worker
  cases found : l.session.workers.get? worker with
  | none =>
    rw [found] at follows
    exact follows
  | some w =>
    rw [found] at follows
    obtain ⟨sound, awake, run⟩ := follows
    exact ⟨run, Worker.stageDepth sound awake, fun pace globals t moved =>
      ⟨workLife orderly found moved, (Worker.stepEnds sound moved).keepsPrompts⟩⟩

def givenUp : List Move := [
  .receive (.request "x" "USER" .new 1), .work 0 .throughRests [],
  .receive (.request "y" "USER" (.worker 1) 2), .work 0 .throughRests [],
  .receive (.request "(slink:abort)" "USER" (.worker 1) 3)]

theorem givenUpActive :
    let l := (opening { language := Calc.language } 0).run givenUp
    ∃ w t, l.session.workers.get? 0 = some w ∧
      w.step (l.session.paced .throughRests).service [] = some t ∧
      t.said.getLast? = some (.message (.debugActivate 1 1)) ∧ t.worker.activity = .prompt := by
  intro l
  have said : ((l.session.workers.get? 0).bind fun w =>
      (w.step (l.session.paced .throughRests).service []).bind fun t => t.said.getLast?) =
        some (.message (.debugActivate 1 1)) := by decide +kernel
  obtain ⟨w, found, moves⟩ := Option.bind_eq_some_iff.mp said
  obtain ⟨t, moved, last⟩ := Option.bind_eq_some_iff.mp moves
  have lives := livesFollowProtocol { language := Calc.language } 0 givenUp 0
  have there : ((opening { language := Calc.language } 0).run givenUp).session.workers.get? 0 =
      some w := found
  dsimp only at lives
  rw [there] at lives
  obtain ⟨-, keeps⟩ := lives.2.2 .throughRests [] t moved
  obtain ⟨x, spoken, same⟩ : ∃ x ∈ t.spoken.getLast?, x.utterance =
      .message (.debugActivate 1 1) := by
    simpa [Turn.said] using last
  exact ⟨w, t, found, moved, last, (keeps.last x spoken (by rw [same]; rfl)).1⟩

end RemoteEval.Log
