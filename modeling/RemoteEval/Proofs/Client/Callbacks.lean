import RemoteEval.Client.Connection
import RemoteEval.Proofs.Client.Requests

/-! The callbacks of effects. Each effect is told by one callback, and a return with a value by the
run of its continuation just before; so what stands next to a callback says where it comes from. -/
namespace RemoteEval.Client
variable {γ : Type}

def Callback.answered? : Callback γ → Option RequestId
  | .returned _ id _ => some id
  | _ => none

def reportsOf (said : List (Callback γ)) (id : RequestId) : List (Callback γ) :=
  said.filter fun c => c.answered? == some id

theorem callbacksAnswered (effects : List (Effect γ)) :
    (effects.flatMap Effect.callbacks).filterMap Callback.answered? =
      effects.filterMap Effect.answered? := by
  induction effects with
  | nil => rfl
  | cons e rest ih =>
    have own : e.callbacks.filterMap Callback.answered? = [e].filterMap Effect.answered? := by
      cases e with
      | returned ref id value k => cases k <;> cases value <;> rfl
      | _ => rfl
    rw [List.flatMap_cons, List.filterMap_append, own, ih, ← List.filterMap_append]
    rfl

theorem callbacksOpen (effects : List (Effect γ)) (error : Option Error) :
    .disconnected error ∉ effects.flatMap Effect.callbacks := by
  intro member
  obtain ⟨e, _, inside⟩ := List.mem_flatMap.mp member
  cases e with
  | returned ref id value k => cases k <;> cases value <;> simp [Effect.callbacks] at inside
  | _ => simp [Effect.callbacks] at inside

theorem callbackSource {effects : List (Effect γ)} {before after : List (Callback γ)}
    {c : Callback γ} (said : effects.flatMap Effect.callbacks = before ++ c :: after) :
    ∃ first e later start rest, effects = first ++ e :: later ∧ e.callbacks = start ++ c :: rest ∧
      before = first.flatMap Effect.callbacks ++ start ∧
      after = rest ++ later.flatMap Effect.callbacks := by
  induction effects generalizing before with
  | nil => simp at said
  | cons e effects ih =>
    have within {before : List (Callback γ)}
        (inner : effects.flatMap Effect.callbacks = before ++ c :: after) :
        ∃ first d later start rest, e :: effects = first ++ d :: later ∧
          d.callbacks = start ++ c :: rest ∧
          e.callbacks ++ before = first.flatMap Effect.callbacks ++ start ∧
          after = rest ++ later.flatMap Effect.callbacks := by
      obtain ⟨first, d, later, start, rest, rfl, own, rfl, rfl⟩ := ih inner
      exact ⟨e :: first, d, later, start, rest, rfl, own, by simp, rfl⟩
    rw [List.flatMap_cons, List.append_eq_append_iff] at said
    rcases said with ⟨more, rfl, inner⟩ | ⟨rest, own, tail⟩
    · exact within inner
    · cases rest with
      | nil => simpa [own] using @within [] tail.symm
      | cons d rest =>
        cases tail
        exact ⟨[], e, effects, before, rest, rfl, own, rfl, rfl⟩

/- A return is reported right after its continuation has run, if there is one to run. -/
theorem returnedCallbacks {e : Effect γ} {start rest : List (Callback γ)} {ref : Option WorkerRef}
    {id : RequestId} {value : Outcome}
    (own : e.callbacks = start ++ .returned ref id value :: rest) :
    ∃ k, e = .returned ref id value k ∧ ∀ f v,
      start.getLast? = some (.continued f v) ↔ k = some f ∧ value = .ok v := by
  cases e with
  | returned ref id value k =>
    rcases k with _ | f <;> rcases value with v | why <;>
      simp [Effect.callbacks, List.cons_eq_append_iff] at own <;>
      obtain ⟨rfl, ⟨rfl, rfl, rfl⟩, -⟩ := own <;> exact ⟨_, rfl, by simp⟩
  | _ => simp [Effect.callbacks, List.singleton_eq_append_iff] at own

theorem continuedCallbacks {e : Effect γ} {start rest : List (Callback γ)} {k : γ} {v : Sexp}
    (own : e.callbacks = start ++ .continued k v :: rest) :
    ∃ ref id, e = .returned ref id (.ok v) (some k) ∧ rest = [.returned ref id (.ok v)] := by
  cases e with
  | returned ref id value k =>
    rcases k with _ | f <;> rcases value with v | why <;>
      simp [Effect.callbacks, List.cons_eq_append_iff] at own
    obtain ⟨-, ⟨rfl, rfl⟩, rfl⟩ := own
    exact ⟨ref, id, rfl, rfl⟩
  | _ => simp [Effect.callbacks, List.singleton_eq_append_iff] at own

theorem continuedNext {effects : List (Effect γ)} {before after : List (Callback γ)} {k : γ}
    {v : Sexp} (said : effects.flatMap Effect.callbacks = before ++ .continued k v :: after) :
    ∃ ref id later, after = .returned ref id (.ok v) :: later := by
  obtain ⟨first, e, later, start, rest, -, own, -, rfl⟩ := callbackSource said
  obtain ⟨ref, id, -, rfl⟩ := continuedCallbacks own
  exact ⟨ref, id, _, rfl⟩

theorem callbacksLast {effects : List (Effect γ)} {k : γ} {v : Sexp} :
    (effects.flatMap Effect.callbacks).getLast? ≠ some (.continued k v) := by
  intro last
  obtain ⟨before, said⟩ := List.getLast?_eq_some_iff.mp last
  obtain ⟨_, _, _, more⟩ := continuedNext said
  contradiction

theorem returnedSource {effects : List (Effect γ)} {before after : List (Callback γ)}
    {ref : Option WorkerRef} {id : RequestId} {value : Outcome}
    (said : effects.flatMap Effect.callbacks = before ++ .returned ref id value :: after) :
    ∃ k, .returned ref id value k ∈ effects ∧ ∀ f v,
      before.getLast? = some (.continued f v) ↔ k = some f ∧ value = .ok v := by
  obtain ⟨first, e, later, start, rest, rfl, own, rfl, -⟩ := callbackSource said
  obtain ⟨k, rfl, last⟩ := returnedCallbacks own
  refine ⟨k, by simp, fun f v => ?_⟩
  rw [← last f v]
  cases start with
  | nil => simp [callbacksLast]
  | cons c start => rw [List.getLast?_append_of_ne_nil _ (List.cons_ne_nil c start)]

end RemoteEval.Client
