import RemoteEval.Proofs.Session.Independence

/-! Sessions in which every worker is the one that its reference stands for. Until a teardown that
is so as long as there are references for all workers, and then each worker can be sent events for
as long as it is there. -/
namespace RemoteEval

namespace Session
variable {s s' : Session} {id : WorkerId} {w v : Worker}

structure Housed (s : Session) : Prop where
  registry : s.registry.Consistent
  homes : ∀ {id w}, s.workers.get? id = some w →
    w.attached = true ∧ s.registry.live.get? w.me = some id

theorem Housed.insert (housed : s.Housed) (found : s.workers.get? id = some w)
    (me : v.me = w.me) (attached : v.attached = w.attached) :
    ({ s with workers := s.workers.insert id v } : Session).Housed := by
  refine ⟨housed.registry, fun {other u} there => ?_⟩
  by_cases same : id = other
  · subst same
    obtain rfl : v = u := by simpa using there
    rw [me, attached]
    exact housed.homes found
  · exact housed.homes (by simpa [same] using there)

theorem Housed.spawn (housed : s.Housed) {ref : WorkerRef} {registry : Registry WorkerId}
    (allocated : s.registry.allocate s.nextWorker = (ref, registry))
    (room : registry.size ≤ 4294967294) (request : Request) (inFlight : Table RequestId WorkerRef) :
    ({ s with
      nextWorker := s.nextWorker + 1
      registry
      workers := s.workers.insert s.nextWorker (.start ref request)
      inFlight } : Session).Housed := by
  have consistent := (housed.registry.allocate (by rw [allocated]; exact room)).1
  rw [allocated] at consistent
  refine ⟨consistent, fun {other u} there => ?_⟩
  by_cases same : s.nextWorker = other
  · subst same
    obtain rfl : Worker.start ref request = u := by simpa using there
    refine ⟨rfl, ?_⟩
    obtain ⟨known, rfl⟩ | ⟨-, free, fresh, rfl⟩ := Registry.allocateCases allocated
    · exact housed.registry.inverse.mp known
    · simp [Worker.start]
  · obtain ⟨attached, home⟩ := housed.homes (by simpa [same] using there)
    refine ⟨attached, ?_⟩
    obtain ⟨-, rfl⟩ | ⟨unknown, free, fresh, rfl⟩ := Registry.allocateCases allocated
    · exact home
    · have vacant := (housed.registry.least unknown).2.1
      rw [allocated] at vacant
      have elsewhere : ref ≠ u.me := by
        rintro rfl
        rw [home] at vacant
        contradiction
      simpa [elsewhere] using home

theorem Housed.resume (housed : s.Housed) (found : s.workers.get? id = some w)
    (me : v.me = w.me) (attached : v.attached = w.attached) : (s.resume id v).Housed := by
  obtain ⟨still, home⟩ := housed.homes found
  have alone {other : WorkerId} (live : s.registry.live.get? v.me = some other) : other = id := by
    rw [me, home] at live
    exact (Option.some.inj live).symm
  refine ⟨?_, fun {other u} there => ?_⟩
  · rw [resumeRegistry]
    split
    · exact housed.registry.release v.me
    · exact housed.registry
  · rw [resumeGet] at there
    rw [resumeLive]
    by_cases same : other = id
    · subst same
      rw [if_pos rfl] at there
      obtain ⟨awake, rfl⟩ := Option.ite_none_left_eq_some.mp there |>.imp_right Option.some.inj
      simp only [awake]
      rw [me, attached]
      exact ⟨still, home⟩
    · rw [if_neg same] at there
      obtain ⟨old, before, rfl⟩ := Option.map_eq_some_iff.mp there
      have kept : ¬ (v.isFinished = true ∧ s.registry.live.get? v.me = some other) := fun taken =>
        same (alone taken.2)
      obtain ⟨attached', home'⟩ := housed.homes before
      rw [if_neg kept]
      refine ⟨attached', ?_⟩
      refine (if_neg ?_).trans home'
      rintro ⟨-, mine⟩
      exact same (alone (mine ▸ home'))

end Session

namespace Log
variable {l : Log}

theorem stepHoused (orderly : l.Orderly) (housed : l.session.Housed) {move : Move}
    (before : move.isTeardown = false)
    (room : (l.step move).session.registry.size ≤ 4294967294) :
    (l.step move).session.Housed := by
  cases move with
  | receive m =>
    obtain ⟨inFlight, side, effect, -⟩ := l.stepReceive m
    rw [effect] at room ⊢
    have routed := l.session.routeRouted m
    generalize l.session.route m = result at routed room
    obtain ⟨said, after⟩ := result
    cases routed with
    | @spawned form package id ref registry allocated =>
      have spawned := housed.spawn allocated room ⟨form, package, id⟩ inFlight
      exact ⟨spawned.registry, spawned.homes⟩
    | @queued form package ref id holder w live found =>
      have queued :=
        housed.insert found (v := Session.mail (.request ⟨form, package, id⟩) w) rfl rfl
      exact ⟨queued.registry, queued.homes⟩
    | @posted _ event holder w interrupted found =>
      have posted := housed.insert found (v := Session.mail event { w with interrupted }) rfl rfl
      exact ⟨posted.registry, posted.homes⟩
    | unknown | noted => exact ⟨housed.registry, housed.homes⟩
  | work id pace globals =>
    rcases l.stepWork id pace globals with same | ⟨w, t, inFlight, side, found, moved, effect, -⟩
    · rw [same]
      exact housed
    · obtain ⟨-, me, attached⟩ := Worker.stepKeeps (orderly.sound found) moved
      have paced : (l.session.paced pace).Housed := ⟨housed.registry, housed.homes⟩
      have resumed := paced.resume found me attached
      rw [effect]
      exact ⟨resumed.registry, resumed.homes⟩
  | loseSide => exact ⟨housed.registry, housed.homes⟩
  | cancel | cutOff | closeWriter => contradiction

theorem openingHoused (service : Service) (port : UInt16) :
    (opening service port).session.Housed := by
  obtain ⟨side, session⟩ := openingSession service port
  rw [session]
  exact ⟨Registry.newConsistent, fun found => by cases found⟩

end Log
end RemoteEval
