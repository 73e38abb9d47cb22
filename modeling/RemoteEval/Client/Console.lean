import RemoteEval.Text.Blank
import RemoteEval.Text.Digits
import RemoteEval.Client.Connection

/-!
A console on a client's connection, line by line. A line answers a read that waits for input, if
there is one; a line that starts with a colon is a command; any other line is evaluated, at the
prompt of the debugger in focus if there is one. What the server does is printed as it happens.
-/
namespace RemoteEval.Client

/-! ANSI sequences -/

def red (s : String) : String := "\x1b[38;5;9m" ++ s ++ "\x1b[39m"

def yellow (s : String) : String := "\x1b[38;5;11m" ++ s ++ "\x1b[39m"

def bold (s : String) : String := "\x1b[1m" ++ s ++ "\x1b[0m"

def helpText : String :=
  "<form>        evaluate a form (at the focused debugger prompt, if any)\n" ++
  ":r N          invoke restart N of the focused debugger\n" ++
  ":bt           backtrace of the focused debugger\n" ++
  ":locals N     local bindings of frame N\n" ++
  ":c            continue, if the debugger offers it\n" ++
  ":abort        leave the innermost debug level\n" ++
  ":top          leave every debug level\n" ++
  ":i            interrupt the running evaluation\n" ++
  ":info         connection information\n" ++
  ":help         this text\n" ++
  ":q            quit"

structure Console where
  connection : Connection Unit := {}
  package : String := "USER"
  focus : Option WorkerRef := none
  isDone : Bool := false

structure Reaction where
  console : Console
  text : String := ""
  sent : List Message := []

namespace Console

def debuggerText (worker : WorkerRef) (view : DebuggerView) : String :=
  let heading := bold s!"Debugger level {view.level} on worker {worker}:"
  let restarts := view.restarts.mapIdx fun i r => s!"  {i}: [" ++ yellow r.name ++ s!"] {r.description}\n"
  let frames := view.backtrace.map fun f => s!"\n  {f.index}: {f.description}"
  heading ++ s!" {view.description}\n" ++ bold "Restarts:" ++ "\n" ++ String.join restarts ++
    bold "Backtrace:" ++ String.join frames

def chomp (s : String) : String := String.ofList (Text.dropEnd (· == '\n') s.toList)

def line? : Callback Unit → Option String
  | .continued .. | .debugReturn .. | .features _ | .outputChannel _ => none
  | .returned _ _ (.ok v) => some s!"=> {v}"
  | .returned _ _ (.abort (some reason)) => some (red s!"; aborted: {reason}")
  | .returned _ _ (.abort none) => some "; aborted"
  | .debugEnter worker view => some (debuggerText worker view)
  | .debugActivate worker level => some s!"; back in debugger level {level} on worker {worker}"
  | .debugText worker text => some (red s!"; worker {worker}: {text}")
  | .readString worker _ => some s!"; worker {worker} waits for input, the next line answers it"
  | .readAborted worker _ => some s!"; worker {worker} no longer waits for input"
  | .output text => some (chomp text)
  | .background text => some (red s!"; {text}")
  | .disconnected (some e) => some (red s!"; connection lost: {e.message}")
  | .disconnected none => some "; connection closed"

def refocus (focus : Option WorkerRef) : Callback Unit → Option WorkerRef
  | .debugEnter worker _ | .debugActivate worker _ => some worker
  | .debugReturn worker level => if level = 1 ∧ focus = some worker then none else focus
  | _ => focus

def isEnd : Callback Unit → Bool
  | .disconnected _ => true
  | _ => false

end Console

namespace Reaction

def println (r : Reaction) (line : String) : Reaction := { r with text := r.text ++ line ++ "\n" }

def error (r : Reaction) (e : Error) : Reaction := r.println (red s!"error: {e.message}")

def observe (r : Reaction) (callbacks : List (Callback Unit)) : Reaction :=
  callbacks.foldl (fun r callback =>
    let r := match Console.line? callback with
      | some line => r.println line
      | none => r
    let c := r.console
    { r with console := { c with
      focus := Console.refocus c.focus callback
      isDone := c.isDone || Console.isEnd callback } }) r

def close (r : Reaction) : Reaction :=
  let (callbacks, connection) := r.console.connection.close
  let r := { r with console := { r.console with connection } }.observe callbacks
  { r with console := { r.console with isDone := true } }

end Reaction

namespace Console

/-- The worker whose prompt takes input: the one in focus if it waits there, or the last that
does. -/
def promptWorker (c : Console) : Option WorkerRef :=
  let machine := c.connection.machine
  let atPrompt (w : WorkerRef) : Bool :=
    match machine.top w with
    | .debugging _ => true
    | _ => false
  (c.focus.filter atPrompt).or (machine.prompts.getLast?.map Prod.fst)

def runningWorker (c : Console) : Option WorkerRef :=
  let machine := c.connection.machine
  machine.busyWorkers.reverse.find? fun w =>
    match machine.top w with
    | .evaluating _ => true
    | _ => false

def sending (c : Console) : Except Error Message × Connection Unit → Except Error Reaction × Console
  | (.ok m, connection) =>
    let c := { c with connection }
    (.ok { console := c, sent := [m] }, c)
  | (.error e, connection) => (.error e, { c with connection })

def evaluate (c : Console) (form : String) (worker : Option WorkerRef) :
    Except Error Reaction × Console :=
  let (result, connection) := c.connection.evaluate form c.package worker none
  c.sending (result.map Prod.snd, connection)

def noDebugger : Error := .request "no debugger is active"

def inDebugger (c : Console) (form : String) : Except Error Reaction × Console :=
  match c.promptWorker with
  | some worker => c.evaluate form (some worker)
  | none => (.error noDebugger, c)

def interrupt (c : Console) : Except Error Reaction × Console :=
  match c.runningWorker with
  | some worker =>
    let notice := Reaction.println { console := c } s!"; interrupting worker {worker}"
    match c.connection.interrupt worker with
    | .ok m => (.ok { notice with sent := [m] }, c)
    | .error e => (.error e, c)
  | none => (.ok (Reaction.println { console := c } "; nothing to interrupt"), c)

def number? (s : String) : Option Nat := Text.count? 18446744073709551615 s

def words (cs : List Char) : List String :=
  ((cs.foldr (fun c (words : List (List Char)) =>
    if Text.isBlank c then [] :: words
    else match words with
      | word :: rest => (c :: word) :: rest
      | [] => [[c]]) [[]]).filter (!·.isEmpty)).map String.ofList

def restartForm (level index : Nat) : String := s!"(slink:invoke-restart {level} {index})"

def localsForm (frame : Nat) : String := s!"(slink:frame-locals {frame})"

def command (c : Console) (name : String) (args : List String) : Except Error Reaction × Console :=
  let number : Except Error Nat :=
    match (args.head?).bind number? with
    | some n => .ok n
    | none => .error (.request s!":{name} expects a number")
  match name with
  | "r" =>
    match number, c.promptWorker with
    | .error e, _ => (.error e, c)
    | .ok _, none => (.error noDebugger, c)
    | .ok index, some worker =>
      c.inDebugger (restartForm (c.connection.machine.debugLevel worker) index)
  | "bt" => c.inDebugger "(slink:backtrace 0)"
  | "locals" =>
    match number with
    | .error e => (.error e, c)
    | .ok frame => c.inDebugger (localsForm frame)
  | "c" => c.inDebugger "(slink:continue)"
  | "abort" => c.inDebugger "(slink:abort)"
  | "top" => c.inDebugger "(slink:throw-to-toplevel)"
  | "i" => c.interrupt
  | "info" => c.evaluate "(slink:connection-info)" none
  | "help" => (.ok (Reaction.println { console := c } helpText), c)
  | unknown => (.error (.request s!"unknown command :{unknown}"), c)

def handleLine (c : Console) (line : String) : Except Error Reaction × Console :=
  if line.isEmpty then (.ok { console := c }, c)
  else match c.connection.machine.pendingReads with
    | (worker, tag) :: _ => c.sending (c.connection.returnString worker tag line)
    | [] =>
      match line.toList with
      | ':' :: rest =>
        match words rest with
        | [] => c.command "" []
        | name :: args => c.command name args
      | _ => c.evaluate line c.promptWorker

def typed (c : Console) (line : String) : Reaction :=
  let line := Text.trim line
  if line = ":q" then Reaction.close { console := c }
  else match c.handleLine line with
    | (.ok r, _) => r
    | (.error e, c) =>
      let r := Reaction.error { console := c } e
      if e.isFatal then r.close else r

def receive (c : Console) (bytes : List UInt8) : Reaction :=
  let (callbacks, connection) := c.connection.receive bytes
  Reaction.observe { console := { c with connection } } callbacks

def receiveEnd (c : Console) : Reaction :=
  let (callbacks, connection) := c.connection.receiveEnd
  Reaction.observe { console := { c with connection } } callbacks

def inputEnd (c : Console) : Reaction := Reaction.close { console := c }

def greeting (address : String) : String := s!"connected to {address}, :help for commands\n"

end Console
end RemoteEval.Client
