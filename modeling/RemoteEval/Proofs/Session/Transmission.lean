import RemoteEval.Proofs.Exchange.Readable
import RemoteEval.Proofs.Session.Exit
import RemoteEval.Proofs.Session.Sendable

/-! What becomes of the messages that a session hands over to be sent. As long as nobody tears
the session down, a message is written exactly when it fits a frame, and it reads as itself
exactly when, besides, its numbers are in range and the value it returns nests at most 254 deep.
The numbers are in range in every run of fewer than 2^32 - 2 moves. Nothing bounds the size or
the depth of a value that a program computes, so both can fail: the first leaves a request
without an answer, the second makes the client's reader give up the connection. -/
namespace RemoteEval

namespace Session
variable {small : Prop} {count : Nat} {s : Session}

def utterances (s : Session) : Move → List Utterance
  | .receive m => (s.route m).1.map .message
  | .work id pace globals => ((s.turn? id pace globals).map Turn.said).getD []
  | _ => []

def asMessage (s : Session) : Utterance → Option Message
  | .message m => some m
  | .output text => if s.side.isNone then some (.output text) else none

/- The messages that a move hands over, and those of them that are written. -/
def handed (s : Session) (move : Move) : List Message := (s.utterances move).filterMap s.asMessage

def written (s : Session) : Move → List Message
  | .receive m => (s.dispatch m).1
  | .work id pace globals =>
    match (s.paced pace).advance globals id with
    | none => []
    | some (_, sent, _) => sent
  | _ => []

theorem transmitsEq {s : Session} (writable : s.writable = true) (m : Message) :
    s.transmits m = decide (m.print.utf8ByteSize ≤ 16777215) := by
  simp only [transmits, writable, Bool.true_and, Frame.ofMessage, Frame.ofText]
  split
  next fits => simp [fits, Except.toBool]
  next long => simp [long, Except.toBool]

theorem deliverWritten {s : Session} (writable : s.writable = true) (u : Utterance) :
    (s.deliver u).1 =
      ((s.asMessage u).toList).filter (·.print.utf8ByteSize ≤ 16777215) := by
  have sent (m : Message) : (s.send m).1 = [m].filter (·.print.utf8ByteSize ≤ 16777215) := by
    rw [send, transmitsEq writable, List.filter_cons]
    rfl
  cases u with
  | message m => exact sent m
  | output text =>
    unfold deliver asMessage
    cases s.side with
    | none => exact sent (.output text)
    | some before => rfl

theorem asMessageEq {s u : Session} (side : u.side.isNone = s.side.isNone) :
    u.asMessage = s.asMessage := by
  funext v
  cases v <;> simp [asMessage, side]

theorem deliverAllWritten {s : Session} (writable : s.writable = true) (said : List Utterance) :
    (s.deliverAll said).1 =
      (said.filterMap s.asMessage).filter (·.print.utf8ByteSize ≤ 16777215) := by
  induction said generalizing s with
  | nil => rfl
  | cons u rest ih =>
    obtain ⟨still, side⟩ := s.deliverKeeps u
    have later := ih (s := (s.deliver u).2) (still.trans writable)
    have whole : (s.deliverAll (u :: rest)).1 =
        (s.deliver u).1 ++ ((s.deliver u).2.deliverAll rest).1 := rfl
    rw [whole, later, deliverWritten writable, asMessageEq side, ← List.filter_append,
      List.filterMap_cons]
    cases s.asMessage u <;> rfl

theorem advanceEq (s : Session) (id : WorkerId) (pace : Pace) (globals : Globals) :
    (s.paced pace).advance globals id = (s.turn? id pace globals).map fun t =>
      (t.globals, (s.paced pace).complete id t) := by
  rw [advanceWhole, turn?, Option.bind_eq_bind, Option.map_bind]
  rfl

theorem writtenEq {s : Session} (writable : s.writable = true) (move : Move) :
    s.written move = (s.handed move).filter (·.print.utf8ByteSize ≤ 16777215) := by
  cases move with
  | receive m =>
    obtain ⟨still, _, side, _⟩ := s.routeKeeps m
    have said := deliverAllWritten (still.trans writable) ((s.route m).1.map .message)
    rw [asMessageEq (s := s) (by rw [side])] at said
    exact said
  | work id pace globals =>
    rw [written, handed, utterances, advanceEq]
    cases s.turn? id pace globals with
    | none => rfl
    | some t =>
      obtain ⟨still, _, side, _⟩ := (s.paced pace).resumeKeeps id t.worker
      have said := deliverAllWritten (still.trans writable) t.said
      rw [asMessageEq (s := s) (by rw [side]; rfl)] at said
      exact said
  | loseSide | cancel | cutOff | closeWriter => rfl

theorem Serves.handed (serves : s.Serves small count) (room : small → count + 2 < 4294967296)
    (sound : ∀ {id w}, s.workers.get? id = some w → w.Sound) {move : Move}
    (ordinary : move.Ordinary) : ∀ m ∈ s.handed move, m.Sendable small := by
  -- an utterance that is sendable is a sendable message, since output has no numbers
  have asMessage {u : Utterance} (sendable : u.Sendable small) {m : Message}
      (sent : s.asMessage u = some m) : m.Sendable small := by
    cases u with
    | message said => cases sent; exact sendable
    | output text =>
      obtain ⟨_, same⟩ := Option.ite_none_right_eq_some.mp sent
      cases same
      exact ⟨by simp [Message.value?], fun _ => rfl⟩
  have utterances : ∀ u ∈ s.utterances move, u.Sendable small := by
    cases move with
    | receive m =>
      obtain ⟨frame, decoded⟩ := ordinary
      have able := Frame.decodedTransmissible (Frame.decodeOk decoded)
      intro u mem
      obtain ⟨said, among, rfl⟩ := List.mem_map.mp mem
      exact (serves.route room able).2 said among
    | work id pace globals =>
      rw [Session.utterances]
      cases moved : s.turn? id pace globals with
      | none => simp
      | some t => exact (serves.turn room sound ordinary moved).clean.spoken
    | loseSide => exact List.forall_mem_nil _
    | cancel | cutOff | closeWriter => exact ordinary.elim
  intro m mem
  obtain ⟨u, among, sent⟩ := List.mem_filterMap.mp mem
  exact asMessage (utterances u among) sent

end Session

namespace Message

theorem Sendable.readableIff {small : Prop} {m : Message} (sendable : m.Sendable small) :
    m.readable = true ↔ m.print.utf8ByteSize ≤ 16777215 ∧ m.numbersFit = true ∧
      ∀ v, m.value? = some v → v.depth ≤ 254 := by
  rw [m.readableIff, transmissible, Bool.and_eq_true]
  refine and_congr_right fun _ => and_congr_right fun _ => ?_
  cases value : m.value? with
  | none => simp
  | some v => simp [sendable.1 v value]

theorem requestFits {form : String} (small : form.length ≤ 1500000) :
    (request form "USER" .new 1).print.utf8ByteSize ≤ 16777215 := by
  have quoted := (Sexp.escapedLength '"' form.toList).2
  have size := (Sexp.printSize (request form "USER" .new 1).toSexp).2
  have rest : "rex".toList.length = 3 ∧ (Sexp.escaped '"' "USER".toList).length = 4 ∧
      "new".toList.length = 3 ∧ (toString (UInt64.toInt64 1).toInt).toList.length = 1 := by
    decide +kernel
  have written : (request form "USER" .new 1).toSexp.printed.length =
      (Sexp.escaped '"' form.toList).length + 23 := by
    simp only [toSexp, arguments, head, targetSexp, word, Sexp.printed, Sexp.printedItems,
      Sexp.delimited, Sexp.Delimited.delimiter, List.length_cons, List.length_append,
      List.length_nil, rest]
    omega
  rw [String.length_toList] at quoted
  rw [print]
  omega

theorem requestReadable {form : String} (small : form.length ≤ 1500000) :
    (request form "USER" .new 1).readable = true :=
  (readableIff _).mpr ⟨requestFits small, rfl⟩

theorem requestOrdinary {form : String} (small : form.length ≤ 1500000) :
    (Move.receive (.request form "USER" .new 1)).Ordinary := by
  obtain ⟨f, made⟩ := Frame.ofMessageOk (requestFits small)
  exact ⟨f.bytes, (Frame.decodeOfMessage made).mpr rfl⟩

theorem answerSize (v : Sexp) :
    v.printed.length ≤ (returned 1 (.ok v) 1).print.utf8ByteSize ∧
      (returned 1 (.ok v) 1).print.utf8ByteSize ≤ 4 * (v.printed.length + 20) := by
  have length : (returned 1 (.ok v) 1).toSexp.printed.length = v.printed.length + 20 := by
    have rest : (Sexp.printed (.keyword "return")).length = 7 ∧
        (Sexp.printed (.keyword "ok")).length = 3 ∧ (Sexp.printed (workerSexp 1)).length = 1 ∧
        (Sexp.printed (word 1)).length = 1 := by
      decide +kernel
    simp only [toSexp, arguments, head, outcomeSexp]
    rw [Sexp.printedLength (by simp)]
    simp only [Sexp.spacedLength]
    rw [Sexp.printedLength (by simp)]
    simp only [Sexp.spacedLength, rest]
    omega
  have size := Sexp.printSize (returned 1 (.ok v) 1).toSexp
  rw [length] at size
  rw [print]
  omega

end Message

namespace Turn

theorem runUndisturbed {s : Service} {request : Request} {p : Program Sexp} {t : Turn}
    {v : Sexp} {g : Globals} (calm : s.cancelled = false ∧ t.worker.interrupted = false)
    (value : p.undisturbed t.globals = some (v, g)) :
    Turn.run s request p t = { t with globals := g }.conclude request (.ok v) := by
  induction p generalizing t with
  | done a => cases value; rfl
  | check next ih =>
    have same : t.check s = (.ok (), t) := by simp [Turn.check, calm]
    rw [Turn.run, same]
    exact ih _ calm value
  | fetch name next ih => exact ih _ calm value
  | assign name a next ih =>
    exact ih (t := { t with globals := t.globals.assign name a }) calm value
  | stop | write | read | pause | spin => cases value

theorem performCall {name : String} {args : List Sexp} {request : Request}
    (read : Sexp.read request.form = .ok (.list (.symbol name :: args)))
    (plain : Operation.unmarked? name = none) (t : Turn) :
    t.perform { language := Calc.language } request = Turn.run { language := Calc.language } request
      ((Calc.eval (.list (.symbol name :: args)) []).bind fun (v, _) => .done v) t := by
  have parsed : Operation.parse request.form = .ok none := by simp [Operation.parse, read, plain]
  have program : Calc.evaluate request.form request.package =
      (Calc.eval (.list (.symbol name :: args)) []).bind fun (v, _) => .done v := by
    simp only [Calc.evaluate, read]
  rw [perform, parsed, ← program]
  rfl

end Turn

namespace Calc

theorem nestedValueLength (n : Nat) : (nestedValue n).printed.length = 2 * n + 1 := by
  induction n with
  | zero => decide +kernel
  | succ n ih =>
    rw [nestedValue, Sexp.printedLength (by simp)]
    simp only [Sexp.spacedLength, ih]
    omega

theorem copiesValueLength (k : Nat) (text : String) :
    k * text.length ≤ (copiesValue k text).printed.length := by
  cases k with
  | zero => simp
  | succ k =>
    have quoted := (Sexp.escapedLength '"' text.toList).1
    rw [String.length_toList] at quoted
    have quotes : text.length ≤ (Sexp.printed (.str text)).length + 1 := by
      rw [Sexp.quotedLength]
      omega
    have whole : copiesValue (k + 1) text = .list (List.replicate (k + 1) (.str text)) := rfl
    rw [whole, Sexp.printedLength (by simp), Sexp.spacedReplicate]
    exact Nat.le_succ_of_le (Nat.mul_le_mul_left _ quotes)

end Calc

namespace Log

def program (form : Sexp) : Move := .receive (.request form.print "USER" .new 1)

def firstStep : Move := .work 0 .throughRests []

def afterCalc (moves : List Move) : Session :=
  ((opening { language := Calc.language } 0).run moves).session

theorem firstAnswer {name : String} {args : List Sexp} {v : Sexp} {g : Globals} {calls}
    (proper : Sexp.isProper (.list (.symbol name :: args)) = true)
    (shallow : Sexp.depth (.list (.symbol name :: args)) ≤ 256)
    (plain : Operation.unmarked? name = none)
    (value : (Calc.eval (.list (.symbol name :: args)) []).undisturbed [] = some ((v, calls), g)) :
    (afterCalc [program (.list (.symbol name :: args))]).handed firstStep =
      [.returned 1 (.ok v) 1] := by
  have read := Sexp.readPrinted proper shallow
  rw [program]
  generalize Sexp.print (.list (.symbol name :: args)) = form at read
  let start : Turn := { worker := .start 1 ⟨form, "USER", 1⟩, globals := [] }
  have evaluated : ((Calc.eval (.list (.symbol name :: args)) []).bind fun (v, _) =>
      .done v).undisturbed start.globals = some (v, g) := by
    simp only [Program.undisturbedBind, start, value]
    rfl
  have performed : start.perform { language := Calc.language } ⟨form, "USER", 1⟩ =
      { start with globals := g }.conclude ⟨form, "USER", 1⟩ (.ok v) :=
    (Turn.performCall read plain start).trans (Turn.runUndisturbed ⟨rfl, rfl⟩ evaluated)
  have turn : (afterCalc [.receive (.request form "USER" .new 1)]).turn? 0 .throughRests [] =
      some ({ start with globals := g }.conclude ⟨form, "USER", 1⟩ (.ok v)) := by
    rw [← performed]
    rfl
  rw [firstStep, Session.handed, Session.utterances, turn]
  rfl

theorem programOrdinary {form : Sexp} (small : form.print.length ≤ 1500000) :
    ∀ move ∈ [program form, firstStep], move.Ordinary := by
  have request : (program form).Ordinary := Message.requestOrdinary small
  have step : firstStep.Ordinary := by simp [firstStep, Move.Ordinary, Globals.Proper]
  simp [request, step]

theorem nestedAnswer (n : Nat) (shallow : n < 256) :
    (∀ move ∈ [program (Calc.nestedForm (n + 1)), firstStep], move.Ordinary) ∧
    (afterCalc [program (Calc.nestedForm (n + 1))]).handed firstStep =
      [.returned 1 (.ok (Calc.nestedValue (n + 1))) 1] := by
  obtain ⟨proper, depth⟩ := Calc.nestedFormFits (n + 1)
  have length (m : Nat) : (Calc.nestedForm m).printed.length ≤ 7 * m + 1 := by
    induction m with
    | zero => decide +kernel
    | succ m ih =>
      have name : (Sexp.printed (.symbol "list")).length = 4 := by decide +kernel
      rw [Calc.nestedForm, Sexp.printedLength (by simp)]
      simp only [Sexp.spacedLength, name]
      omega
  have small : (Calc.nestedForm (n + 1)).print.length ≤ 1500000 := by
    have := length (n + 1)
    rw [← String.length_toList, Sexp.printToList]
    omega
  refine ⟨programOrdinary small, ?_⟩
  exact firstAnswer proper (Nat.le_trans (Nat.le_of_eq depth) shallow) (by decide)
    (Calc.evalNested (n + 1) [] [])

theorem copiesAnswer (text : String) (short : text.length ≤ 600000) :
    (∀ move ∈ [program (Calc.copiesForm 32 text), firstStep], move.Ordinary) ∧
    (afterCalc [program (Calc.copiesForm 32 text)]).handed firstStep =
      [.returned 1 (.ok (Calc.copiesValue 32 text)) 1] := by
  have quoted := (Sexp.escapedLength '"' text.toList).2
  rw [String.length_toList] at quoted
  have length : (Calc.copiesForm 32 text).printed.length =
      (Sexp.escaped '"' text.toList).length + 90 := by
    have names : (Sexp.printed (.symbol "progn")).length = 5 ∧
        (Sexp.printed (.symbol "setq")).length = 4 ∧ (Sexp.printed (.symbol "x")).length = 1 ∧
        (Sexp.printed (.list (.symbol "list" :: List.replicate 32 (.symbol "x")))).length = 70 := by
      decide +kernel
    rw [Calc.copiesForm, Sexp.printedLength (by simp)]
    simp only [Sexp.spacedLength]
    rw [Sexp.printedLength (by simp)]
    simp only [Sexp.spacedLength, names, Sexp.quotedLength]
    omega
  have small : (Calc.copiesForm 32 text).print.length ≤ 1500000 := by
    rw [← String.length_toList, Sexp.printToList]
    omega
  refine ⟨programOrdinary small, ?_⟩
  refine firstAnswer ?_ ?_ (by decide) (Calc.evalCopies 32 text)
  · simp [Sexp.isProper, Sexp.allProper]
  · simp [Sexp.depth, Sexp.depthOfItems]

/- What is handed over is written exactly if it fits a frame; once written it is read as itself
exactly if its numbers are in range and its value is not too deep. -/
theorem handedReadableIff (service : Service) (port : UInt16) (moves : List Move) (move : Move)
    (calculator : service.language = Calc.language)
    (ordinary : ∀ m ∈ moves ++ [move], m.Ordinary) :
    let s := ((opening service port).run moves).session
    s.written move = (s.handed move).filter (·.print.utf8ByteSize ≤ 16777215) ∧
    (∀ m ∈ (Session.connect service port).1 ++ s.handed move, m.readable = true ↔
      m.print.utf8ByteSize ≤ 16777215 ∧ m.numbersFit = true ∧
        ∀ v, m.value? = some v → v.depth ≤ 254) ∧
    (moves.length < 4294967294 → ∀ m ∈ s.handed move, m.numbersFit = true) ∧
    ∀ id pace globals t, move = .work id pace globals → s.turn? id pace globals = some t →
      t.globals.Proper := by
  intro s
  obtain ⟨before, last⟩ := List.forall_mem_append.mp ordinary
  have now : move.Ordinary := last move List.mem_cons_self
  have language : service.language.Proper := calculator ▸ Calc.languageProper
  have orderly := runOrderly (openingOrderly service port) moves
  have serves : s.Serves (moves.length < 4294967294) (0 + moves.length) :=
    runServes (openingServes language port) (openingOrderly service port) (by omega) before
  have room : moves.length < 4294967294 → 0 + moves.length + 2 < 4294967296 := by omega
  have sendable := serves.handed room orderly.sound now
  refine ⟨Session.writtenEq serves.writable move, fun m mem => ?_,
    fun n m mem => (sendable m mem).2 n, ?_⟩
  · rcases List.mem_append.mp mem with greeting | handed
    · have plain : m.Sendable True := by
        rcases connectSaid greeting with rfl | rfl <;>
          exact ⟨by simp [Message.value?], fun _ => rfl⟩
      exact plain.readableIff
    · exact (sendable m handed).readableIff
  · rintro id pace globals t rfl moved
    exact (serves.turn room orderly.sound now moved).clean.globals

theorem deepestAnswerRead :
    (∀ m ∈ [program (Calc.nestedForm 254)] ++ [firstStep], m.Ordinary) ∧
    ∃ v : Sexp, v.depth = 254 ∧
      (afterCalc [program (Calc.nestedForm 254)]).written firstStep = [.returned 1 (.ok v) 1] ∧
      (Message.returned 1 (.ok v) 1).readable = true := by
  obtain ⟨ordinary, handed⟩ := nestedAnswer 253 (by decide)
  refine ⟨ordinary, Calc.nestedValue 254, Calc.nestedValueDepth 254, ?_⟩
  obtain ⟨written, readable, _⟩ := handedReadableIff { language := Calc.language } 0
    [program (Calc.nestedForm 254)] firstStep rfl ordinary
  rw [← afterCalc] at written readable
  rw [handed] at written readable
  have size := (Message.answerSize (Calc.nestedValue 254)).2
  have length := Calc.nestedValueLength 254
  have depth := Calc.nestedValueDepth 254
  generalize Calc.nestedValue 254 = v at size length depth written readable
  have fits : (Message.returned 1 (.ok v) 1).print.utf8ByteSize ≤ 16777215 := by omega
  refine ⟨by simpa [fits] using written, (readable _ (by simp)).mpr ⟨fits, rfl, ?_⟩⟩
  rintro _ ⟨⟩
  exact Nat.le_of_eq depth

theorem answersLost :
    (¬ ∀ moves move, (∀ m ∈ moves ++ [move], m.Ordinary) →
      (afterCalc moves).written move = (afterCalc moves).handed move) ∧
    ¬ ∀ moves move, (∀ m ∈ moves ++ [move], m.Ordinary) →
      ∀ m ∈ (afterCalc moves).written move, m.readable = true := by
  constructor
  · intro always
    obtain ⟨text, length⟩ : ∃ text : String, text.length = 524288 :=
      ⟨String.ofList (List.replicate 524288 'a'), by
        rw [String.length_ofList, List.length_replicate]⟩
    obtain ⟨ordinary, handed⟩ := copiesAnswer text (by omega)
    have written := always [program (Calc.copiesForm 32 text)] firstStep ordinary
    rw [Session.writtenEq rfl, handed] at written
    have fits := List.filter_eq_self.mp written _ List.mem_cons_self
    have size := (Message.answerSize (Calc.copiesValue 32 text)).1
    have copies := Calc.copiesValueLength 32 text
    simp only [decide_eq_true_eq] at fits
    omega
  · intro always
    obtain ⟨ordinary, handed⟩ := nestedAnswer 254 (by decide)
    have size := (Message.answerSize (Calc.nestedValue 255)).2
    have length := Calc.nestedValueLength 255
    have depth := Calc.nestedValueDepth 255
    have read := always [program (Calc.nestedForm 255)] firstStep ordinary
    rw [Session.writtenEq rfl, handed] at read
    generalize Calc.nestedValue 255 = v at size length depth read
    have fits : (Message.returned 1 (.ok v) 1).print.utf8ByteSize ≤ 16777215 := by omega
    have came := read (.returned 1 (.ok v) 1) (by simp [fits])
    obtain ⟨_, able⟩ := (Message.readableIff _).mp came
    simp [Message.transmissible, Message.value?, depth] at able

end Log
end RemoteEval
