import RemoteEval.Sexp.Printer
import RemoteEval.Language.Program

/-!
The functions of the calculator language, applied to values. Arithmetic is on integers of 64 bits
and goes from left to right; a partial result that does not fit is an error, and so is a divisor
of zero. Only `print`, `read-line` and `sleep` ask anything of their surroundings.
-/
namespace RemoteEval.Calc

def overflow : Condition := .error "ARITHMETIC-ERROR" "arithmetic error: integer overflow"

def divisionByZero : Condition := .error "DIVISION-BY-ZERO" "arithmetic error: division by zero"

def wrongArity (name : String) : Condition :=
  .error "PROGRAM-ERROR" s!"invalid number of arguments for {name}"

def notAnInteger (v : Sexp) : Condition := .error "TYPE-ERROR" s!"The value {v} is not an integer."

def fit (i : Int) : Except Condition Int64 :=
  match Sexp.int64? i with
  | some n => .ok n
  | none => .error overflow

def integers : List Sexp → Except Condition (List Int64)
  | [] => .ok []
  | v :: rest =>
    match v.int? with
    | some n => (integers rest).map (n :: ·)
    | none => .error (notAnInteger v)

def sum (ns : List Int64) : Except Condition Int64 :=
  ns.foldlM (fun total n => fit (total.toInt + n.toInt)) 0

def product (ns : List Int64) : Except Condition Int64 :=
  ns.foldlM (fun total n => fit (total.toInt * n.toInt)) 1

def difference : List Int64 → Except Condition Int64
  | [] => .error (wrongArity "-")
  | [n] => fit (-n.toInt)
  | n :: rest => rest.foldlM (fun total m => fit (total.toInt - m.toInt)) n

def divide (total divisor : Int64) : Except Condition Int64 :=
  if divisor = 0 then .error divisionByZero else fit (total.toInt.tdiv divisor.toInt)

def quotient : List Int64 → Except Condition Int64
  | [] => .error (wrongArity "/")
  | n :: divisors => divisors.foldlM divide n

def errorText : List Sexp → String
  | [.str s] => s
  | args => Sexp.writeItems "" args

def displayed : Sexp → String
  | .str s => s
  | v => v.print

def sleep : Nat → Program Unit
  | 0 => .done ()
  | n + 1 => .check fun
    | .ok () => .pause (sleep n)
    | .error c => .signal c

def rests (milliseconds : Nat) : Nat := (milliseconds + 9) / 10

def ofInteger (result : Except Condition Int64) : Program Sexp :=
  Program.orSignal id (result.map .int)

def apply (name : String) (args : List Sexp) : Program Sexp :=
  match name with
  | "+" => ofInteger ((integers args).bind sum)
  | "*" => ofInteger ((integers args).bind product)
  | "-" => ofInteger ((integers args).bind difference)
  | "/" => ofInteger ((integers args).bind quotient)
  | "list" => .done (Sexp.ofItems args)
  | "progn" => .done (args.getLast?.getD .nil)
  | "print" =>
    match args with
    | [v] => .write (displayed v ++ "\n") (.done v)
    | _ => .signal (wrongArity name)
  | "read-line" =>
    match args with
    | [] => .read fun answer => Program.orSignal id (answer.map .str)
    | _ => .signal (wrongArity name)
  | "sleep" =>
    match integers args with
    | .error c => .signal c
    | .ok [ms] =>
      if 0 ≤ ms then (sleep (rests ms.toInt.toNat)).bind fun _ => .done .nil
      else .signal (wrongArity name)
    | .ok _ => .signal (wrongArity name)
  | "error" => .signal (.error "SIMPLE-ERROR" (errorText args))
  | "cerror" =>
    .signal ((Condition.error "SIMPLE-ERROR" (errorText args)).withRestart
      "CONTINUE" "Return nil from cerror.")
  | _ => .signal (.error "UNDEFINED-FUNCTION" s!"The function {name} is undefined.")

def builtins : List (String × String) := [
  ("+", "(+ &rest numbers)"),
  ("-", "(- number &rest numbers)"),
  ("*", "(* &rest numbers)"),
  ("/", "(/ number &rest divisors)"),
  ("list", "(list &rest objects)"),
  ("progn", "(progn &rest forms)"),
  ("setq", "(setq name value)"),
  ("print", "(print object)"),
  ("read-line", "(read-line)"),
  ("sleep", "(sleep milliseconds)"),
  ("error", "(error message)"),
  ("cerror", "(cerror message)")]

end RemoteEval.Calc
