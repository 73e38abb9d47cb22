import RemoteEval.Proofs.Calc.Growth
import RemoteEval.Proofs.Session.Transmission
import RemoteEval.Proofs.Exchange.Levels

/-! Two parties whose messages have to fit a frame. What does not fit is lost on the way, and the
connection goes on without it. As long as nothing is lost the parties are in step. They are not
after the loss of a message that opens a level: the worker waits at a prompt that its client knows
nothing of, with nothing on its way. -/
namespace RemoteEval

def Message.fits (m : Message) : Bool := m.print.utf8ByteSize ≤ 16777215

namespace Turn

theorem runStopped {s : Service} {request : Request} {p : Program Sexp} {t : Turn}
    {failure : Failure Condition} {g : Globals}
    (calm : s.cancelled = false ∧ t.worker.interrupted = false)
    (stops : p.stopped t.globals = some (failure, g)) :
    Turn.run s request p t = { t with globals := g }.trap s request failure := by
  induction p generalizing t with
  | stop => cases stops; rfl
  | check next ih =>
    have same : t.check s = (.ok (), t) := by simp [Turn.check, calm]
    rw [Turn.run, same]
    exact ih _ calm stops
  | fetch name next ih => exact ih _ calm stops
  | assign name v next ih => exact ih (t := { t with globals := t.globals.assign name v }) calm stops
  | done | write | read | pause | spin => contradiction

end Turn

namespace Message

theorem enterSize (ref : WorkerRef) (level : Level) (description : String)
    (restarts : List RestartView) (frames : List FrameView) : description.length ≤
      (debugEnter ref level description restarts frames).print.utf8ByteSize := by
  have quoted := (Sexp.escapedLength '"' description.toList).1
  have size := (Sexp.printSize (debugEnter ref level description restarts frames).toSexp).1
  have member : Sexp.str description ∈
      .keyword "debug" :: (debugEnter ref level description restarts frames).arguments := by
    simp [arguments]
  have within := Sexp.printedWithin member
  have whole : (debugEnter ref level description restarts frames).toSexp =
    .list (.keyword "debug" :: (debugEnter ref level description restarts frames).arguments) := rfl
  rw [String.length_toList] at quoted
  rw [Sexp.quotedLength] at within
  rw [whole, Sexp.printedLength (by simp)] at size
  rw [print, whole]
  omega

end Message

/- The parties, and the messages that one of them handed over and that did not fit. -/
structure Link (γ : Type) where
  exchange : Exchange γ
  lost : List Message := []

namespace Link
variable {γ : Type}

def fitted (l : Link γ) : Link γ where
  exchange := { l.exchange with
    up := l.exchange.up.filter Message.fits
    down := l.exchange.down.filter (·.message.fits) }
  lost := l.lost ++
    (l.exchange.up ++ l.exchange.down.map Parcel.message).filter (!·.fits)

def opening (service : Service) (port : UInt16) : Link γ :=
  fitted { exchange := .opening service port }

def step (l : Link γ) (s : Step γ) : Link γ := fitted { l with exchange := l.exchange.step s }

def run (l : Link γ) (steps : List (Step γ)) : Link γ := steps.foldl step l

theorem fittedWhole {l : Link γ} (whole : l.fitted.lost = []) :
    l.fitted.exchange = l.exchange ∧ l.lost = [] := by
  obtain ⟨before, now⟩ := List.append_eq_nil_iff.mp whole
  rw [List.filter_append] at now
  obtain ⟨up, down⟩ := List.append_eq_nil_iff.mp now
  have ups : l.exchange.up.filter Message.fits = l.exchange.up :=
    List.filter_eq_self.mpr fun m mem => by simpa using List.filter_eq_nil_iff.mp up m mem
  have downs : l.exchange.down.filter (·.message.fits) = l.exchange.down :=
    List.filter_eq_self.mpr fun p mem => by
      simpa using List.filter_eq_nil_iff.mp down p.message (List.mem_map_of_mem mem)
  exact ⟨by rw [fitted, ups, downs], before⟩

theorem runWhole (service : Service) (port : UInt16) (steps : List (Step γ))
    (whole : ((opening service port).run steps).lost = []) :
    ((opening service port).run steps).exchange = (Exchange.opening service port).run steps := by
  induction steps using List.reverseRecOn with
  | nil => exact (fittedWhole whole).1
  | append_singleton steps step ih =>
    rw [run, List.foldl_append] at whole ⊢
    obtain ⟨same, before⟩ := fittedWhole whole
    rw [Exchange.run, List.foldl_append]
    exact same.trans (congrArg (Exchange.step · step) (ih before))

def calculator : Service := { language := Calc.language }

/- As long as nothing is lost the client's levels are those of the workers, as of the last message
that was heard of each. -/
theorem levelsUnlessLost (service : Service) (port : UInt16) (steps : List (Step γ))
    (whole : ((opening service port).run steps).lost = []) :
    ((opening service port).run steps).exchange.InStep := by
  rw [runWhole service port steps whole]
  exact Exchange.runInStep service port steps

theorem openedHeard :
    let l := (opening calculator 0 : Link Unit).run [.handle, .evaluate "(1)" "USER" none none,
      .dispatch, .handle, .work 0 .throughRests [], .handle]
    l.lost = [] ∧ l.exchange.client.debugLevel 1 = 1 ∧ l.exchange.InStep := by
  intro l
  obtain ⟨whole, level⟩ : l.lost = [] ∧ l.exchange.client.debugLevel 1 = 1 := by decide +kernel
  exact ⟨whole, level, levelsUnlessLost calculator 0 _ whole⟩

theorem fittedAll {x : Exchange Unit} {lost : List Message} (up : ∀ m ∈ x.up, m.fits = true)
    (down : ∀ p ∈ x.down, p.message.fits = true) : fitted ⟨x, lost⟩ = ⟨x, lost⟩ := by
  have none : (x.up ++ x.down.map Parcel.message).filter (!·.fits) = [] :=
    List.filter_eq_nil_iff.mpr fun m mem => by
      rcases List.mem_append.mp mem with sent | said
      · simp [up m sent]
      · obtain ⟨p, among, rfl⟩ := List.mem_map.mp said
        simp [down p among]
  simp only [fitted, none, List.filter_eq_self.mpr up, List.filter_eq_self.mpr down,
    List.append_nil]

theorem stepFitted {x y : Exchange Unit} {s : Step Unit}
    (read : (x.next? s).all Message.readable = true) (acts : x.act s = y)
    (up : ∀ m ∈ y.up, m.fits = true) (down : ∀ p ∈ y.down, p.message.fits = true) :
    step ⟨x, []⟩ s = ⟨y, []⟩ := by
  rw [step, Exchange.step, if_pos read, acts]
  exact fittedAll up down

def greeting : Parcel := ⟨none, .featureUpdate ["calc", "integers"], []⟩

def assignment : Parcel := ⟨some ⟨0, 1⟩, .workerAssigned 1 1, []⟩

def assigned (form : String) : Exchange Unit where
  client := { Client.Machine.start with
    busy := Client.Machine.start.busy.insert 1 [.evaluating 1 none], lastId := 1 }
  log := (Log.opening calculator 0).step (.receive (.request form "USER" .new 1))
  down := []
  story := [.heard greeting, .sent (.request form "USER" .new 1), .heard assignment]

theorem runAssigned {form : String} (small : form.length ≤ 1500000) :
    (opening calculator 0).run [.handle, .evaluate form "USER" none none, .dispatch, .handle] =
      ⟨assigned form, []⟩ := by
  let m : Message := .request form "USER" .new 1
  let x : Exchange Unit := { log := .opening calculator 0, down := [greeting] }
  let y : Exchange Unit := { x with down := [], story := [.heard greeting] }
  let z := y.send { unbound := Table.insert {} 1 none, lastId := 1 } m
  let u : Exchange Unit :=
    { z with up := [], down := [assignment], log := (Log.opening calculator 0).step (.receive m) }
  have plain : greeting.message.readable = true ∧ assignment.message.readable = true ∧
      greeting.message.fits = true ∧ assignment.message.fits = true := by decide +kernel
  have fits : m.fits = true := decide_eq_true (Message.requestFits small)
  have up : z.up = [m] := rfl
  have start : opening calculator 0 = ⟨x, []⟩ :=
    fittedAll (x := x) (by simp [x]) (by simp [x, plain])
  have first : step ⟨x, []⟩ .handle = ⟨y, []⟩ :=
    stepFitted (by simp [Exchange.next?, x, plain]) rfl (by simp [y, x]) (by simp [y])
  have second : step ⟨y, []⟩ (.evaluate form "USER" none none) = ⟨z, []⟩ :=
    stepFitted (by simp [Exchange.next?]) rfl (by simp [up, fits]) (by simp [z, y, Exchange.send])
  have third : step ⟨z, []⟩ .dispatch = ⟨u, []⟩ :=
    stepFitted (by simp [Exchange.next?, up, m, Message.requestReadable small]) rfl
      (by simp [u]) (by simp [u, plain])
  have fourth : step ⟨u, []⟩ .handle = ⟨assigned form, []⟩ :=
    stepFitted (by simp [Exchange.next?, u, plain]) rfl (by simp [assigned]) (by simp [assigned])
  rw [start, run, List.foldl_cons, first, List.foldl_cons, second, List.foldl_cons, third,
    List.foldl_cons, fourth, List.foldl_nil]

theorem stepUnheard {form : String} {t : Turn} {m : Message} {levels : DebugStack Request}
    (turn : (Worker.start 1 ⟨form, "USER", 1⟩).step calculator [] = some t)
    (said : t.spoken = [⟨.message m, levels⟩]) (long : m.fits = false)
    (awake : t.worker.isFinished = false) :
    ∃ l, step ⟨assigned form, []⟩ (.work 0 .throughRests []) =
        ⟨{ assigned form with log := l }, [m]⟩ ∧
      l.session.workers.get? 0 = some t.worker := by
  let before := (assigned form).log
  let after : Log := { before with
    session := ((before.session.paced .throughRests).complete 0 t).2
    entries := before.entries ++
      ((Worker.start 1 ⟨form, "USER", 1⟩).deeds t).map (⟨some ⟨0, 1⟩, ·⟩) }
  have worked : before.step (.work 0 .throughRests []) = after := by
    have found : (before.session.paced .throughRests).workers.get? 0 =
        some (.start 1 ⟨form, "USER", 1⟩) := rfl
    have same : (before.session.paced .throughRests).service = calculator := rfl
    simp only [Log.step, found, same, turn]
    rfl
  have down : ((assigned form).serve (.work 0 .throughRests [])).down =
      [⟨some ⟨0, 1⟩, m, levels⟩] := by
    have new : after.entries.drop before.entries.length =
        ((Worker.start 1 ⟨form, "USER", 1⟩).deeds t).map (⟨some ⟨0, 1⟩, ·⟩) := List.drop_left ..
    simp only [Exchange.serve, show (assigned form).log = before from rfl, worked, new,
      Worker.deeds, said]
    rfl
  refine ⟨after, ?_, ?_⟩
  · have acts : (assigned form).step (.work 0 .throughRests []) =
        { assigned form with log := after, down := [⟨some ⟨0, 1⟩, m, levels⟩] } := by
      rw [Exchange.step, if_pos (by simp [Exchange.next?])]
      change (assigned form).serve _ = _
      rw [← down, ← worked]
      rfl
    rw [step, acts]
    simp [fitted, long, assigned]
  · obtain ⟨inFlight, side, delivered, -⟩ :=
      ((before.session.paced .throughRests).resume 0 t.worker).deliverAllEq t.said
    have kept : after.session.workers = ((before.session.paced .throughRests).resume 0 t.worker).workers := by
      simp only [after, Session.complete, delivered]
    rw [kept, Session.resumeGet]
    simp [awake]

def grownText : String := (Calc.grownForm 20 "aaaaaaaaaaaaaaaa").print

theorem grownStep : ∃ t levels m,
    (Worker.start 1 ⟨grownText, "USER", 1⟩).step calculator [] = some t ∧
    t.spoken = [⟨.message m, levels⟩] ∧ m.fits = false ∧
    t.worker.isFinished = false ∧ t.worker.me = 1 ∧ t.worker.levels.length = 1 := by
  let request : Request := ⟨grownText, "USER", 1⟩
  let start : Turn := { worker := .start 1 request, globals := [] }
  obtain ⟨frames, stops⟩ := Calc.evalGrown 20 "aaaaaaaaaaaaaaaa"
  let c : Condition := { Condition.error "SIMPLE-ERROR"
    (Calc.errorText [Calc.doubled 20 (.str "aaaaaaaaaaaaaaaa")]) with frames }
  have read : Sexp.read request.form = .ok (Calc.grownForm 20 "aaaaaaaaaaaaaaaa") :=
    Sexp.readPrinted (by decide +kernel) (by decide +kernel)
  have performed : start.perform calculator request =
      { start with globals := [("x", Calc.doubled 20 (.str "aaaaaaaaaaaaaaaa"))] }.trap
        calculator request (.failed c) :=
    (Turn.performCall read (by decide) start).trans
      (Turn.runStopped ⟨rfl, rfl⟩ (Program.stoppedFirst _ stops))
  have long : 16777215 < c.message.length := by
    have text : 2 ^ 20 * (Sexp.printed (.str "aaaaaaaaaaaaaaaa")).length ≤ c.description.length :=
      Calc.errorLength 19 (.str "aaaaaaaaaaaaaaaa")
    have letters : (Sexp.printed (.str "aaaaaaaaaaaaaaaa")).length = 18 := by decide +kernel
    have within : c.description.length ≤ c.message.length := by
      simp [Condition.message, toString]
    omega
  refine ⟨_, _, .debugEnter 1 1 c.message _ _, congrArg some performed, rfl, ?_, rfl, rfl, rfl⟩
  exact decide_eq_false (Nat.not_le.mpr (Nat.lt_of_lt_of_le long (Message.enterSize ..)))

/- The worker has a level open that the client knows nothing of, and nothing is on its way. -/
theorem levelUnheard :
    let x := ((opening calculator 0 : Link Unit).run [.handle, .evaluate grownText "USER" none none, .dispatch,
      .handle, .work 0 .throughRests []]).exchange
    x.up = [] ∧ x.down = [] ∧ x.client.debugLevel 1 = 0 ∧
    (∃ w, x.log.session.workers.get? 0 = some w ∧ w.me = 1 ∧ w.levels.length = 1) ∧
    ¬ x.InStep := by
  have small : grownText.length ≤ 1500000 := by
    rw [← String.length_toList, grownText, Sexp.printToList]
    decide +kernel
  obtain ⟨t, levels, m, turn, said, long, awake, me, opened⟩ := grownStep
  obtain ⟨l, unheard, found⟩ := stepUnheard turn said long awake
  have run : (opening calculator 0).run [.handle, .evaluate grownText "USER" none none, .dispatch,
      .handle, .work 0 .throughRests []] = ⟨{ assigned grownText with log := l }, [m]⟩ := by
    rw [← unheard, ← runAssigned small]
    rfl
  have level : ({ assigned grownText with log := l } : Exchange Unit).client.debugLevel 1 = 0 := rfl
  rw [run]
  refine ⟨rfl, rfl, level, ⟨t.worker, found, me, opened⟩, fun inStep => ?_⟩
  -- nothing is under way, so both sides would have to show the same number of levels
  have same := (inStep.2 rfl).1 0 t.worker found
  rw [me, level, opened] at same
  exact Nat.zero_ne_one same

end Link
end RemoteEval
