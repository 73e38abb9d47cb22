import RemoteEval.Proofs.Worker.Requests

/-! The requests of a worker, one after the other. The worker takes them up in the order in which
they were given to it. Whenever it takes one up, each that it took up before has its answer or is
suspended under a level that its evaluation opened. A worker that ends refuses the requests that it
has not taken up. Requests may have the same number, so they are counted. -/
namespace RemoteEval

def Deed.started? : Deed → Option Request
  | .started request => some request
  | .said _ => none

def Deed.opens (levels : DebugStack Request) : Deed → DebugStack Request
  | .started _ => levels
  | .said spoken => spoken.levels

section Records
variable (deeds : List Deed) (deed : Deed)

def startedIn : List Request := deeds.filterMap Deed.started?

def answeredIn : List RequestId := deeds.filterMap Deed.answered?

def openAfter : DebugStack Request := deeds.foldl Deed.opens []

theorem startedAppend (more : List Deed) :
    startedIn (deeds ++ more) = startedIn deeds ++ startedIn more := List.filterMap_append

theorem startedSnoc : startedIn (deeds ++ [deed]) = startedIn deeds ++ deed.started?.toList := by
  cases deed <;> simp [startedIn, Deed.started?]

theorem answeredSnoc :
    answeredIn (deeds ++ [deed]) = answeredIn deeds ++ deed.answered?.toList := by
  cases answered : deed.answered? <;> simp [answeredIn, answered]

theorem openSnoc : openAfter (deeds ++ [deed]) = deed.opens (openAfter deeds) := by
  simp [openAfter]

end Records

/- Each request that was taken up is answered, or its evaluation opened one of these levels. -/
def Accounted (deeds : List Deed) (suspended : List RequestId) : Prop :=
  ((startedIn deeds).map Request.id).Perm (answeredIn deeds ++ suspended)

/- Nothing is taken up but when all that was taken up before is answered or suspended under a level
that is open. -/
def InTurn (life : List Deed) : Prop := ∀ before request after,
  life = before ++ .started request :: after →
    Accounted before (DebugStack.openers (openAfter before))

theorem InTurn.nil : InTurn [] := by
  intro before request after split
  simp at split

theorem InTurn.snoc {life : List Deed} (inTurn : InTurn life) {deed : Deed}
    (next : ∀ request, deed = .started request →
      Accounted life (DebugStack.openers (openAfter life))) : InTurn (life ++ [deed]) := by
  intro before request after split
  rcases List.eq_nil_or_concat after with rfl | ⟨between, last, rfl⟩
  · obtain ⟨rfl, same⟩ := List.append_inj' split rfl
    exact next request (List.head_eq_of_cons_eq same)
  · rw [List.concat_eq_append, ← List.cons_append, ← List.append_assoc] at split
    exact inTurn before request between (List.append_inj' split rfl).1

inductive Refuses (me : WorkerRef) : List Request → List Deed → Prop where
  | none : Refuses me [] []
  | report {requests deeds} (before : Refuses me requests deeds) (text : String) :
      Refuses me requests (deeds ++ [.said ⟨.message (.backgroundMessage text), []⟩])
  | refuse {requests deeds} (before : Refuses me requests deeds) (request : Request) :
      Refuses me (requests ++ [request]) (deeds ++ [.said ⟨.message (.returned me
        (.abort (some s!"worker {me} finished")) request.id), []⟩])

theorem Refuses.silent {me : WorkerRef} {requests : List Request}
    (refuses : Refuses me requests []) : requests = [] := by
  generalize said : ([] : List Deed) = deeds at refuses
  cases refuses with
  | none => rfl
  | report before text | refuse before request => simp at said

theorem Refuses.unstarted {me : WorkerRef} {requests : List Request} {deeds : List Deed}
    (refuses : Refuses me requests deeds) : startedIn deeds = [] := by
  induction refuses with
  | none => rfl
  | report before text ih | refuse before request ih => rw [startedSnoc, ih]; rfl

def Task.assigned? : Task → Option Request
  | .assigned request => some request
  | _ => none

def Task.performing? : Task → Option RequestId
  | .performing request _ => some request.id
  | _ => none

namespace Stance

def waiting (a : Stance) : List Request := a.task.assigned?.toList ++ a.queue

def underway (a : Stance) : List RequestId :=
  a.task.performing?.toList ++ DebugStack.openers a.levels

end Stance

theorem Conduct.opens {me a deed b} (conduct : Conduct me a deed b) :
    deed.opens a.levels = b.levels := by
  cases conduct <;> rfl

theorem Conduct.takes {me a deed b} (conduct : Conduct me a deed b) (there : a.task ≠ .gone) :
    a.waiting = deed.started?.toList ++ b.waiting := by
  cases conduct with
  | refuse | report => contradiction
  | _ => rfl

theorem Conduct.accounts {me a deed b} (conduct : Conduct me a deed b) (there : a.task ≠ .gone) :
    (deed.started?.toList.map Request.id ++ a.underway).Perm
      (deed.answered?.toList ++ b.underway) := by
  cases conduct with
  | refuse | report => contradiction
  | aside engaged aside => simp [Deed.started?, Deed.answered?, aside.unanswered]
  | start | serve | ask | abortRead | answer | finish | activate =>
    simp [Stance.underway, Task.performing?, Deed.started?, Deed.answered?,
      Utterance.answered?, Message.answered?]
  | trap opened frames origin | interrupt opened frames origin | close origin | resume origin =>
    simp [Stance.underway, Task.performing?, Deed.started?, Deed.answered?, Utterance.answered?,
      Message.answered?, DebugStack.openers, origin, Origin.opener?]

theorem Conduct.taken {me a b} {request : Request} (conduct : Conduct me a (.started request) b) :
    a.task ≠ .gone ∧ a.underway = DebugStack.openers a.levels := by
  cases conduct <;> exact ⟨by simp, rfl⟩

theorem Conduct.refuses {me a deed b} (conduct : Conduct me a deed b) (gone : a.task = .gone)
    {requests : List Request} {deeds : List Deed} (refuses : Refuses me requests deeds) :
    b.task = .gone ∧ ∃ more, a.waiting = more ++ b.waiting ∧
      Refuses me (requests ++ more) (deeds ++ [deed]) ∧ b.underway = a.underway := by
  cases conduct with
  | refuse => exact ⟨rfl, [_], rfl, .refuse refuses _, rfl⟩
  | report text => exact ⟨rfl, [], rfl, by simpa using refuses.report text, rfl⟩
  | aside engaged =>
    cases gone
    contradiction
  | _ => cases gone

/- The requests that were given to a worker, and what it has done with them. -/
structure Docket (me : WorkerRef) (given : List Request) (life : List Deed) (a : Stance) :
    Prop where
  announced : ∃ outermost nested levels rest, given = outermost :: nested ∧
    life = .said ⟨.message (.workerAssigned outermost.id me), levels⟩ :: rest
  levels : openAfter life = a.levels
  inTurn : InTurn life
  parts : ∃ main words refused, life = main ++ words ∧ Refuses me refused words ∧
    given = startedIn main ++ refused ++ a.waiting ∧ Accounted main a.underway ∧
    (a.task ≠ .gone → words = [])

namespace Docket
variable {me : WorkerRef} {given : List Request} {life deeds : List Deed} {a b : Stance}

theorem start (me : WorkerRef) (request : Request) (asked : Option Tag) :
    Docket me [request] [.said ⟨.message (.workerAssigned request.id me), []⟩]
      ⟨.assigned request, [], [], asked⟩ where
  announced := ⟨request, [], [], [], rfl, rfl⟩
  levels := rfl
  inTurn before taken after split := by
    have among : Deed.started taken ∈ before ++ .started taken :: after := by simp
    rw [← split] at among
    simp at among
  parts := ⟨_, [], [], (List.append_nil _).symm, .none, rfl, .refl _, fun _ => rfl⟩

theorem there (docket : Docket me given life a) (there : a.task ≠ .gone) :
    given = startedIn life ++ a.waiting ∧ Accounted life a.underway := by
  obtain ⟨main, words, refused, whole, refuses, order, accounted, silent⟩ := docket.parts
  rw [silent there] at refuses whole
  rw [refuses.silent, List.append_nil] at order
  rw [List.append_nil] at whole
  exact ⟨whole ▸ order, whole ▸ accounted⟩

theorem arrive (docket : Docket me given life a) (there : a.task ≠ .gone) (request : Request) :
    Docket me (given ++ [request]) life { a with queue := a.queue ++ [request] } := by
  obtain ⟨order, accounted⟩ := docket.there there
  obtain ⟨outermost, nested, levels, rest, first, begins⟩ := docket.announced
  refine ⟨⟨outermost, nested ++ [request], levels, rest, by rw [first]; rfl, begins⟩,
    docket.levels, docket.inTurn, life, [], [], (List.append_nil _).symm, .none, ?_, accounted,
    fun _ => rfl⟩
  rw [order]
  simp [Stance.waiting]

theorem step {deed : Deed} (docket : Docket me given life a) (conduct : Conduct me a deed b) :
    Docket me given (life ++ [deed]) b := by
  obtain ⟨outermost, nested, levels, rest, first, begins⟩ := docket.announced
  refine ⟨⟨outermost, nested, levels, rest ++ [deed], first, by rw [begins]; rfl⟩, ?_, ?_, ?_⟩
  · rw [openSnoc, docket.levels, conduct.opens]
  · refine docket.inTurn.snoc fun request same => ?_
    subst same
    obtain ⟨there, suspended⟩ := conduct.taken
    rw [docket.levels, ← suspended]
    exact (docket.there there).2
  · by_cases gone : a.task = .gone
    · obtain ⟨main, words, refused, whole, refuses, order, accounted, -⟩ := docket.parts
      obtain ⟨still, more, takes, refuses, same⟩ := conduct.refuses gone refuses
      refine ⟨main, words ++ [deed], refused ++ more, ?_, refuses, ?_, ?_, absurd still⟩
      · rw [whole, List.append_assoc]
      · rw [order, takes]
        simp
      · rw [same]
        exact accounted
    · obtain ⟨order, accounted⟩ := docket.there gone
      refine ⟨life ++ [deed], [], [], (List.append_nil _).symm, .none, ?_, ?_, fun _ => rfl⟩
      · rw [order, conduct.takes gone, startedSnoc]
        simp
      · unfold Accounted at accounted ⊢
        rw [startedSnoc, answeredSnoc, List.map_append, List.append_assoc]
        have moved := (accounted.append_right (deed.started?.toList.map Request.id)).trans
          (by rw [List.append_assoc])
        exact moved.trans ((List.perm_append_comm.trans (conduct.accounts gone)).append_left _)

theorem run (docket : Docket me given life a) (conducts : Conducts me a deeds b) :
    Docket me given (life ++ deeds) b := by
  induction conducts generalizing life with
  | nil => rw [List.append_nil]; exact docket
  | cons conduct _ ih =>
    have whole := ih (docket.step conduct)
    rw [List.append_assoc] at whole
    exact whole

theorem ended {asked : Option Tag} (docket : Docket me given life ⟨.gone, [], [], asked⟩) :
    ∃ id levels main words unstarted,
      life.head? = some (.said ⟨.message (.workerAssigned id me), levels⟩) ∧
      given = startedIn life ++ unstarted ∧ life = main ++ words ∧
      Accounted main [] ∧ Refuses me unstarted words := by
  obtain ⟨main, words, unstarted, whole, refuses, order, accounted, -⟩ := docket.parts
  obtain ⟨outermost, -, levels, rest, -, begins⟩ := docket.announced
  refine ⟨outermost.id, levels, main, words, unstarted, by rw [begins]; rfl, ?_, whole, accounted,
    refuses⟩
  rw [whole, startedAppend, refuses.unstarted, List.append_nil, order]
  exact List.append_nil _

theorem asking (docket : Docket me given life a) (asked : Option Tag) :
    Docket me given life { a with asked } :=
  ⟨docket.announced, docket.levels, docket.inTurn, docket.parts⟩

end Docket
end RemoteEval
