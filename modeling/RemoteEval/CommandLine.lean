import RemoteEval.Text.Digits
import RemoteEval.Config.Basic

/-!
The command line of a server. Options are words that start with two hyphens; the value of one is
the next word, or follows an equals sign. No option is given twice. Words are read from left to
right, and the first that is wrong or asks for help decides.
-/
namespace RemoteEval

structure Options where
  config : Option String := none
  listen : Option String := none
  portFile : Option String := none
  dedicatedOutput : Bool := false
  idleTimeout : Option Nat := none
  oneshot : Bool := false
  logFile : Option String := none
  deriving DecidableEq, Repr

inductive StartError where
  | usage (reason : String)
  | config (error : ConfigError)
  | other (reason : String)
  | asked (text : String)
  deriving DecidableEq, Repr

namespace StartError

def message : StartError → String
  | .usage reason => reason
  | .config e => e.message
  | .other reason => reason
  | .asked text => text

def exitCode : StartError → UInt32
  | .usage _ => 2
  | .config _ | .other _ => 1
  | .asked _ => 0

end StartError

namespace Options

def givenTwice (name : String) : StartError :=
  .usage s!"the argument '--{name}' cannot be used multiple times"

def unexpected (word : String) : StartError := .usage s!"unexpected argument '{word}' found"

def valueMissing (name : String) : StartError := .usage s!"a value is required for '--{name}'"

def file (name value : String) : Except StartError String :=
  if value.isEmpty then .error (valueMissing name) else .ok value

def count (name value : String) : Except StartError Nat :=
  match Text.count? 18446744073709551615 value with
  | some n => .ok n
  | none => .error (.usage s!"invalid value '{value}' for '--{name}'")

def set (o : Options) (name value : String) : Except StartError Options :=
  let once (given : Bool) (options : Except StartError Options) : Except StartError Options :=
    if given then .error (givenTwice name) else options
  match name with
  | "config" => once o.config.isSome ((file name value).map fun v => { o with config := some v })
  | "listen" => once o.listen.isSome (.ok { o with listen := some value })
  | "port-file" => once o.portFile.isSome ((file name value).map fun v => { o with portFile := some v })
  | "idle-timeout" =>
    once o.idleTimeout.isSome ((count name value).map fun n => { o with idleTimeout := some n })
  | "log-file" => once o.logFile.isSome ((file name value).map fun v => { o with logFile := some v })
  | _ => .error (unexpected s!"--{name}")

def flag (o : Options) (name : String) : Except StartError Options :=
  match name with
  | "dedicated-output" =>
    if o.dedicatedOutput then .error (givenTwice name) else .ok { o with dedicatedOutput := true }
  | "oneshot" => if o.oneshot then .error (givenTwice name) else .ok { o with oneshot := true }
  | _ => .error (unexpected s!"--{name}")

def isFlag (name : String) : Bool := name == "dedicated-output" || name == "oneshot"

def takesValue (name : String) : Bool :=
  ["config", "listen", "port-file", "idle-timeout", "log-file"].contains name

def versionText : String := "slink 0.1.0"

def helpText : String :=
  "Usage: slinkd [OPTIONS]\n\n" ++
  "Options:\n" ++
  "  --config <CONFIG>              Config file\n" ++
  "  --listen <LISTEN>              Address to listen on, overrides the config file\n" ++
  "  --port-file <PORT_FILE>        Write the bound port into this file once listening\n" ++
  "  --dedicated-output             Stream output through a separate socket\n" ++
  "  --idle-timeout <IDLE_TIMEOUT>  Close connections silent for longer than this many seconds\n" ++
  "  --oneshot                      Exit after the first connection ends\n" ++
  "  --log-file <LOG_FILE>          Write logs into this file instead of stderr\n" ++
  "  -h, --help                     Print help\n" ++
  "  -V, --version                  Print version"

def askedText? (word : String) : Option String :=
  match word.toList with
  | '-' :: 'h' :: _ => some helpText
  | '-' :: 'V' :: _ => some versionText
  | _ =>
    if word = "--help" then some helpText
    else if word = "--version" then some versionText
    else none

def isValue (word : String) : Bool := !(word.startsWith "-" && word.length > 1)

/-- The options that the words give. A word of two hyphens ends them, and nothing may follow it. -/
def parse (o : Options) : List String → Except StartError Options
  | [] => .ok o
  | word :: rest =>
    match askedText? word, word.toList with
    | some text, _ => .error (.asked text)
    | none, ['-', '-'] =>
      match rest with
      | [] => .ok o
      | word :: _ => .error (unexpected word)
    | none, '-' :: '-' :: body =>
      let name := String.ofList (body.takeWhile (· != '='))
      match body.dropWhile (· != '='), rest with
      | _ :: value, rest =>
        if isFlag name then .error (.usage s!"unexpected value for '--{name}'")
        else (o.set name (String.ofList value)).bind fun o => parse o rest
      | [], rest =>
        if isFlag name then (o.flag name).bind fun o => parse o rest
        else if !takesValue name then .error (unexpected word)
        else match rest with
          | value :: rest =>
            if isValue value then (o.set name value).bind fun o => parse o rest
            else .error (valueMissing name)
          | [] => .error (valueMissing name)
    | none, _ => .error (unexpected word)

def apply (o : Options) (c : Config) : Config :=
  { c with
    listen := o.listen.getD c.listen
    portFile := o.portFile.or c.portFile
    dedicatedOutput := o.dedicatedOutput || c.dedicatedOutput
    idleTimeoutSeconds := o.idleTimeout.or c.idleTimeoutSeconds }

def checkLog (o : Options) (canWrite : String → Bool) : Except StartError Unit :=
  match o.logFile with
  | some path => if canWrite path then .ok () else .error (.other s!"open log file {path}")
  | none => .ok ()

end Options
end RemoteEval
