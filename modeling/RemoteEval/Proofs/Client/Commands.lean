import RemoteEval.Proofs.Client.Console
import RemoteEval.Proofs.Operation
import RemoteEval.Proofs.Worker.Levels

/-! What a server makes of the commands of a console. Each command has a form that spells what it is
meant to ask. A number of a command may have 64 bits and no sign, a number of a form has a sign; so
the larger half of the numbers that the console takes is not understood, and the command is
evaluated as a program. -/
namespace RemoteEval.Client
open Sexp (numberLimit)

theorem restartSpells (level index : Nat) :
    Operation.Spells (Console.restartForm level index) (.invokeRestart level index) := by
  have form : Console.restartForm level index =
      "(slink:invoke-restart " ++ level.repr ++ " " ++ index.repr ++ ")" := rfl
  have start : "(slink:invoke-restart ".toList =
      '(' :: (("slink:" ++ "invoke-restart").toList ++ [' ']) := by decide
  rw [Operation.Spells, form]
  simp [start, Sexp.spelled, Operation.numbers, Operation.name]

theorem localsSpells (frame : Nat) :
    Operation.Spells (Console.localsForm frame) (.frameLocals frame) := by
  have form : Console.localsForm frame = "(slink:frame-locals " ++ frame.repr ++ ")" := rfl
  have start : "(slink:frame-locals ".toList =
      '(' :: (("slink:" ++ "frame-locals").toList ++ [' ']) := by decide
  rw [Operation.Spells, form]
  simp [start, Sexp.spelled, Operation.numbers, Operation.name]

theorem Commands.spells {level : Nat} {name form : String} {args : List String} {op : Operation}
    (commands : Commands level name args op form) : Operation.Spells form op := by
  cases commands with
  | restart => exact restartSpells _ _
  | locals => exact localsSpells _
  | backtrace | «continue» | abort | toplevel | info =>
    simp only [Operation.Spells, Operation.numbers, Operation.name]
    decide

theorem Commands.unnamed {level : Nat} {name form : String} {args : List String} {op : Operation}
    (commands : Commands level name args op form) (asked : String) :
    op ≠ .arglist asked ∧ op ≠ .findDefinition asked := by
  cases commands <;> simp

namespace Console

/- A command is understood exactly if its numbers are small enough. Then it never leaves more
levels open than there were, and otherwise the calculator opens another one. -/
theorem commandsUnderstoodIff {c : Console} {level : Nat} {line name form : String}
    {args : List String} {op : Operation} (free : c.connection.machine.pendingReads = [])
    (typed : IsCommand line name args) (commands : Commands level name args op form)
    (numbered : ∀ w, c.promptWorker = some w → c.connection.machine.debugLevel w = level) :
    (∀ r after, c.handleLine line = (.ok r, after) → ∃ target,
      r.sent = [.request form c.package target (c.connection.machine.lastId + 1)]) ∧
    (Operation.parse form = .ok (some op) ↔ ∀ n ∈ op.numbers, n < numberLimit) ∧
    (Operation.parse form = .ok none ↔ ∃ n ∈ op.numbers, numberLimit ≤ n) ∧
    ∀ (s : Service) (t : Turn) (request : RemoteEval.Request), request.form = form →
      ((∀ n ∈ op.numbers, n < numberLimit) → (t.perform s request).level ≤ t.level) ∧
      (s.language = Calc.language → s.cancelled = false → (∃ n ∈ op.numbers, numberLimit ≤ n) →
        (t.perform s request).level = t.level + 1) := by
  have small := Operation.parseSmall commands.spells commands.unnamed
  have large := Operation.parseLarge commands.spells
  have either : (∀ n ∈ op.numbers, n < numberLimit) ∨ ∃ n ∈ op.numbers, numberLimit ≤ n := by
    by_cases beyond : ∃ n ∈ op.numbers, numberLimit ≤ n
    · exact .inr beyond
    · exact .inl fun n member => Nat.lt_of_not_le fun le => beyond ⟨n, member, le⟩
  refine ⟨fun r after => commandSent free typed commands numbered, ⟨fun parsed => ?_, small⟩, ⟨fun parsed => ?_, large⟩,
    fun s t request asked => ⟨fun fits => ?_, fun language live beyond => ?_⟩⟩
  · refine either.resolve_right fun beyond => ?_
    simp [large beyond] at parsed
  · refine either.resolve_left fun fits => ?_
    simp [small fits] at parsed
  · exact Turn.performLevels (asked ▸ small fits) t
  · obtain ⟨e, unread⟩ := Operation.readLarge commands.spells beyond
    exact Turn.performUnread language live (asked ▸ unread) t

theorem largestFrameUnderstood :
    strayFocus.connection.machine.pendingReads = [] ∧
    Operation.parse "(slink:frame-locals 9223372036854775807)" =
      .ok (some (.frameLocals 9223372036854775807)) := by
  have free : strayFocus.connection.machine.pendingReads = [] := by decide +kernel
  have typed : IsCommand ":locals 9223372036854775807" "locals" ["9223372036854775807"] :=
    ⟨_, rfl, by decide +kernel⟩
  have commands : Commands 1 "locals" ["9223372036854775807"] (.frameLocals 9223372036854775807)
      "(slink:frame-locals 9223372036854775807)" := .locals (by decide +kernel)
  have numbered : ∀ w, strayFocus.promptWorker = some w →
      strayFocus.connection.machine.debugLevel w = 1 := by
    intro w prompt
    have chosen : strayFocus.promptWorker = some 1 := by decide +kernel
    cases chosen.symm.trans prompt
    decide +kernel
  obtain ⟨-, understood, -⟩ := commandsUnderstoodIff free typed commands numbered
  exact ⟨free, understood.mpr (by decide)⟩

/- One more, and the command opens a second level at the prompt of the first. -/
theorem largerFrameEvaluated :
    let form := "(slink:frame-locals 9223372036854775808)"
    let service : Service := { language := Calc.language }
    let divided : RemoteEval.Request := ⟨"(/ 1 0)", "USER", 1⟩
    let prompt := ({ worker := .start 1 divided, globals := [] } : Turn).perform service divided
    (strayFocus.handleLine ":locals 9223372036854775808").1.toOption.map Reaction.sent =
      some [.request form "USER" (.worker 1) 2] ∧
    Operation.parse form = .ok none ∧
    prompt.level = 1 ∧ (prompt.perform service ⟨form, "USER", 2⟩).level = 2 := by
  decide +kernel

end Console
end RemoteEval.Client
