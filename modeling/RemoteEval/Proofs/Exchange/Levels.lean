import Mathlib.Data.List.Induction
import RemoteEval.Proofs.Exchange.Run

/-! The debug levels as the client sees them. For each reference the client shows the
levels that its worker had open when it sent the last message that was heard of it, each
as the message that opened it described it; when nothing is under way, these are the
levels that are open. Nothing is said of a client after a message that it did not take. -/
namespace RemoteEval

open Client (Machine DebuggerView StackFrame)

variable {γ : Type}

def viewsOf (stack : List (StackFrame γ)) : List DebuggerView := stack.filterMap StackFrame.view?

theorem debugLevelViews (c : Machine γ) (ref : WorkerRef) :
    c.debugLevel ref = (viewsOf (c.stack ref)).length := by
  rw [viewsOf, List.length_filterMap_eq_countP]
  rfl

theorem debuggerViews (c : Machine γ) (ref : WorkerRef) :
    c.debugger ref = (viewsOf (c.stack ref)).head? :=
  (List.head?_filterMap ..).symm

/- Views of levels, the innermost first. Each has the number of its level; the backtrace
was taken when the level opened, and is in no other place. -/
inductive Shown : List DebuggerView → DebugStack Request → Prop where
  | nil : Shown [] []
  | cons {view : DebuggerView} {level : DebugLevel Request} {views levels}
      (number : view.level.toNat = levels.length + 1)
      (description : view.description = level.description)
      (restarts : view.restarts = level.restartViews) (rest : Shown views levels) :
      Shown (view :: views) (level :: levels)

theorem Shown.length {views levels} (shown : Shown views levels) :
    views.length = levels.length := by
  induction shown with
  | nil => rfl
  | cons _ _ _ _ ih => simp [ih]

def Mirrored (stack : List (StackFrame γ)) : Option Bond → Prop
  | none => viewsOf stack = []
  | some b => viewsOf stack = b.openings ∧ Shown b.openings b.levels

def Mirrors (c : Machine γ) (β : Bonds) : Prop := ∀ ref, Mirrored (c.stack ref) (β ref)

theorem Mirrored.bare {stack : List (StackFrame γ)} {b : Bond} (mirrored : Mirrored stack (some b))
    (empty : b.levels = []) : viewsOf stack = [] := by
  obtain ⟨views, shown⟩ := mirrored
  rw [empty] at shown
  rw [views]
  exact List.eq_nil_of_length_eq_zero shown.length

theorem viewsDebugging {levels : List (StackFrame γ)} {id k} (below : List (StackFrame γ)) :
    viewsOf (levels ++ .evaluating id k :: below) = viewsOf (levels ++ below) := by
  rw [viewsOf, viewsOf, List.filterMap_append, List.filterMap_append]
  rfl

theorem viewsRequests {requests : List (StackFrame γ)} {view} {below : List (StackFrame γ)}
    (above : ∀ f ∈ requests, Machine.isRequest f = true) :
    viewsOf (requests ++ .debugging view :: below) = view :: viewsOf below := by
  have none : requests.filterMap StackFrame.view? = [] := by
    refine List.filterMap_eq_nil_iff.mpr fun f member => ?_
    simpa [Machine.isRequest, StackFrame.isDebugging] using above f member
  simp [viewsOf, none, StackFrame.view?]

theorem returnedViews {c c' : Machine γ} {ref value id}
    (takes : c.Takes (.returned ref value id) c') (other : WorkerRef) :
    viewsOf (c'.stack other) = viewsOf (c.stack other) := by
  cases takes with
  | unreached | orphaned => rfl
  | told plain => contradiction
  | @uncovered _ _ _ k levels below _ _ stack =>
    rw [Machine.stackSetStack]
    split
    next same => rw [same, stack, viewsDebugging]
    · rfl

theorem plainTakes {c c' : Machine γ} {m : Message} (plain : m.isPlain = true)
    (takes : c.Takes m c') : c' = c := by
  cases takes with
  | told => rfl
  | _ => contradiction

theorem spokenMirrors {received : List Message} {ref : WorkerRef} {b : Bond} {m : Message} {levels}
    {c c' : Machine γ} (speech : Speech received ref b m levels) (takes : c.Takes m c')
    (mirrored : Mirrored (c.stack ref) (some b)) :
    Mirrored (c'.stack ref) (b.hear levels m) ∧
    ∀ other, other ≠ ref → viewsOf (c'.stack other) = viewsOf (c.stack other) := by
  obtain ⟨views, shown⟩ := mirrored
  cases speech with
  | output | text | background =>
    cases plainTakes rfl takes
    exact ⟨⟨views, shown⟩, fun _ _ => rfl⟩
  | ask =>
    cases takes with
    | asked => exact ⟨⟨views, shown⟩, fun _ _ => rfl⟩
    | told => contradiction
  | abortRead =>
    cases takes with
    | aborted => exact ⟨⟨views, shown⟩, fun _ _ => rfl⟩
    | told => contradiction
  | activate =>
    cases takes with
    | activated => exact ⟨⟨views, shown⟩, fun _ _ => rfl⟩
    | told => contradiction
  | enter level frames =>
    cases takes with
    | told => contradiction
    | @opened _ _ _ _ _ stack next busy =>
      have before : c.stack ref = stack := by simp [Machine.stack, busy]
      refine ⟨⟨?_, .cons ?_ rfl rfl shown⟩, fun other different => by simp [different]⟩
      · rw [Machine.stackSetStack, if_pos rfl, ← views, before]
        rfl
      · rw [next, debugLevelViews, views, shown.length]
  | @leave closing below opened =>
    rw [opened] at shown
    cases takes with
    | told => contradiction
    | @closed _ _ requests view under stack above =>
      rw [stack, viewsRequests above] at views
      rw [← views] at shown
      cases shown with
      | cons _ _ _ rest =>
        refine ⟨⟨?_, ?_⟩, fun other different => ?_⟩
        · simp [← views]
        · simpa [← views] using rest
        · rw [Machine.stackSetStack, if_neg different, Machine.stackOrphan]
  | answer value asked different =>
    simp only [Bond.hear, if_neg different]
    exact ⟨⟨(returnedViews takes ref).trans views, shown⟩, fun other _ => returnedViews takes other⟩
  | finish value none =>
    rw [none] at shown
    simp only [Bond.hear, if_true]
    refine ⟨?_, fun other _ => returnedViews takes other⟩
    rw [Mirrored, returnedViews takes, views]
    exact List.eq_nil_of_length_eq_zero shown.length

theorem mirroredViews {stack stack' : List (StackFrame γ)} {bond : Option Bond}
    (same : viewsOf stack' = viewsOf stack) (mirrored : Mirrored stack bond) :
    Mirrored stack' bond := by
  cases bond with
  | none => exact same.trans mirrored
  | some b => exact ⟨same.trans mirrored.1, mirrored.2⟩

theorem Mirrors.takes {received : List Message} {β : Bonds} {p : Parcel} {c c' : Machine γ}
    (mirrors : Mirrors c β) (legal : Legal received β p) (takes : c.Takes p.message c') :
    Mirrors c' (β.hear p) := by
  cases legal with
  | features | channel | notice =>
    cases plainTakes rfl takes
    exact mirrors
  | unknown => exact fun ref => mirroredViews (returnedViews takes ref) (mirrors ref)
  | reported text gone =>
    rw [hearGone (by simp) gone]
    cases plainTakes rfl takes
    exact mirrors
  | refused value gone =>
    rw [hearGone (by simp) gone]
    exact fun ref => mirroredViews (returnedViews takes ref) (mirrors ref)
  | @assigned worker ref id free =>
    cases takes with
    | told => contradiction
    | bound waiting idle =>
      intro other
      by_cases this : other = ref
      · simp only [Bonds.hear, Machine.stackSetStack, this, if_true]
        exact ⟨rfl, .nil⟩
      · simp only [Bonds.hear, Machine.stackSetStack, this, if_false]
        exact mirrors other
  | @spoken a b m levels bound worker speech =>
    have own := mirrors a.ref
    rw [bound] at own
    obtain ⟨after, others⟩ := spokenMirrors speech takes own
    intro ref
    rw [hearAuthor speech.plain]
    by_cases this : ref = a.ref
    · simpa [this, bound, worker] using after
    · simpa [this] using mirroredViews (others ref this) (mirrors ref)

theorem Mirrors.sends {β : Bonds} {m : Message} {c c' : Machine γ} (mirrors : Mirrors c β)
    (sends : c.Sends m c') : Mirrors c' β := by
  intro ref
  refine mirroredViews ?_ (mirrors ref)
  cases sends with
  | fresh | interrupt | reply => rfl
  | @nested _ _ own view below k prompt =>
    rw [Machine.stackSetStack]
    split
    next same =>
      rw [same, prompt]
      rfl
    · rfl

namespace Exchange

theorem heardHandle (x : Exchange γ) (client : Machine γ) (down : List Parcel) (p : Parcel) :
    heard { x with client, down, story := x.story ++ [.heard p] } = x.heard ++ [p] := by
  simp [heard]

theorem Advances.mirrors {x y : Exchange γ} (advances : x.Advances y) (regular : x.Regular)
    (mirrors : Mirrors x.client (bonds x.heard)) : Mirrors y.client (bonds y.heard) := by
  cases advances with
  | stay | dispatch | work | loseSide => exact mirrors
  | call sends =>
    rw [heardSend]
    exact mirrors.sends sends
  | handle down read takes =>
    rw [heardHandle, bondsSnoc]
    exact mirrors.takes (regular.legal down read) takes

theorem runMirrors (service : Service) (port : UInt16) (steps : List (Step γ)) :
    let x := (opening service port).run steps
    Mirrors x.client (bonds x.heard) := by
  have start : Mirrors (opening service port : Exchange γ).client
      (bonds (opening service port : Exchange γ).heard) := fun ref => rfl
  exact (runKeeps (P := fun x => x.Regular ∧ Mirrors x.client (bonds x.heard))
    (fun advances ⟨regular, mirrors⟩ =>
      ⟨advances.regular regular, advances.mirrors regular mirrors⟩)
    ⟨openingRegular service port, start⟩ steps).2

end Exchange

theorem hearBond {β : Bonds} {p : Parcel} {ref : WorkerRef} {b : Bond}
    (bond : β.hear p ref = some b) :
    (p.author = some ⟨b.worker, ref⟩ ∧ p.levels = b.levels) ∨
    (p.author ≠ some ⟨b.worker, ref⟩ ∧ β ref = some b) := by
  obtain ⟨author, m, levels⟩ := p
  cases author with
  | none => exact .inr ⟨by simp, bond⟩
  | some a =>
    by_cases here : ref = a.ref
    · subst here
      by_cases assigned : ∃ id own, m = .workerAssigned id own
      · obtain ⟨id, own, rfl⟩ := assigned
        simp only [Bonds.hear, if_true, Option.some.injEq] at bond
        subst bond
        exact .inl ⟨rfl, rfl⟩
      · rw [hearAuthor fun id own same => assigned ⟨id, own, same⟩] at bond
        obtain ⟨before, known, after⟩ := Option.bind_eq_some_iff.mp ((if_pos rfl).symm.trans bond)
        by_cases worker : before.worker = a.id
        · rw [if_pos worker] at after
          obtain ⟨same, _, kept⟩ := Bond.hearKeeps after
          exact .inl ⟨by simp [same, worker], kept.symm⟩
        · rw [if_neg worker] at after
          cases after
          refine .inr ⟨fun same => worker ?_, known⟩
          cases a
          cases same
          rfl
    · refine .inr ⟨fun same => here ?_, ?_⟩
      · cases a
        cases same
        rfl
      · cases m <;> simpa [Bonds.hear, here] using bond

theorem bondsLast (heard : List Parcel) {ref : WorkerRef} {b : Bond}
    (bond : bonds heard ref = some b) :
    ∃ before p after, heard = before ++ p :: after ∧ p.author = some ⟨b.worker, ref⟩ ∧
      p.levels = b.levels ∧ ∀ q ∈ after, q.author ≠ some ⟨b.worker, ref⟩ := by
  induction heard using List.reverseRecOn with
  | nil => contradiction
  | append_singleton heard p ih =>
    rw [bondsSnoc] at bond
    rcases hearBond bond with ⟨author, levels⟩ | ⟨other, known⟩
    · exact ⟨heard, p, [], rfl, author, levels, by simp⟩
    · obtain ⟨before, q, after, parts, author, levels, last⟩ := ih known
      refine ⟨before, q, after ++ [p], by simp [parts], author, levels, ?_⟩
      exact List.forall_mem_append.mpr ⟨last, by simpa using other⟩

namespace Exchange

/- The client's levels are those of the worker that the reference is bound to, as that
worker left them with the last message that was heard of it. With nothing under way they
are the levels that are open. -/
def InStep (x : Exchange γ) : Prop :=
  (∀ ref, match bonds x.heard ref with
    | none => x.client.debugLevel ref = 0 ∧ x.client.debugger ref = none
    | some b =>
      (∃ before p after, x.heard = before ++ p :: after ∧ p.author = some ⟨b.worker, ref⟩ ∧
        p.levels = b.levels ∧ ∀ q ∈ after, q.author ≠ some ⟨b.worker, ref⟩) ∧
      x.client.debugLevel ref = b.levels.length ∧
      x.client.debugger ref = b.openings.head? ∧ Shown b.openings b.levels) ∧
  (x.down = [] →
    (∀ worker w, x.log.session.workers.get? worker = some w →
      x.client.debugLevel w.me = w.levels.length) ∧
    ∀ ref, (∀ worker w, x.log.session.workers.get? worker = some w → w.me ≠ ref) →
      x.client.debugLevel ref = 0)

theorem runInStep (service : Service) (port : UInt16) (steps : List (Step γ)) :
    ((opening service port).run steps).InStep := by
  let x : Exchange γ := (opening service port).run steps
  have mirrors : Mirrors x.client (bonds x.heard) := runMirrors service port steps
  have regular : x.Regular := runRegular service port steps
  have none : ∀ ref, bonds x.heard ref = none → x.client.debugLevel ref = 0 ∧
      x.client.debugger ref = none := by
    intro ref bond
    have own := mirrors ref
    rw [bond] at own
    rw [debugLevelViews, debuggerViews, show viewsOf _ = _ from own]
    exact ⟨rfl, rfl⟩
  have some : ∀ ref b, bonds x.heard ref = some b → x.client.debugLevel ref = b.levels.length ∧
      x.client.debugger ref = b.openings.head? ∧ Shown b.openings b.levels := by
    intro ref b bond
    have own := mirrors ref
    rw [bond] at own
    rw [debugLevelViews, debuggerViews, own.1]
    exact ⟨own.2.length, rfl, own.2⟩
  refine ⟨fun ref => ?_, fun quiet => ?_⟩
  · cases bond : bonds x.heard ref with
    | none => exact none ref bond
    | some b => exact ⟨bondsLast x.heard bond, some ref b bond⟩
  · have agrees : Agrees x.log.received (bonds x.heard) x.log.session := by
      have all := regular.conveys.agrees
      rw [quiet, List.append_nil] at all
      exact all regular.heard
    refine ⟨fun worker w found => ?_, fun ref vacant => ?_⟩
    · obtain ⟨_, _, standing⟩ := agrees.standing found
      cases standing with
      | bound bond _ tracks => rw [(some _ _ bond).1, tracks.levels]; rfl
      | gone task =>
        have awake := regular.conveys.balanced.orderly.awake found
        rw [Worker.goneFinished.mp task] at awake
        contradiction
    · refine (none ref ?_).1
      cases bond : bonds x.heard ref with
      | none => rfl
      | some b =>
        obtain ⟨w, found, me⟩ := agrees.known bond
        exact absurd me (vacant b.worker w found)

end Exchange
end RemoteEval
