import RemoteEval.Files
import RemoteEval.Config.Toml

/-!
The settings of a server. Each has a default, so a file need hold only those that differ; a file
that holds anything else is refused as a whole.
-/
namespace RemoteEval

structure Config where
  listen : String := "127.0.0.1:4005"
  dedicatedOutput : Bool := false
  idleTimeoutSeconds : Option Nat := none
  portFile : Option String := none
  defaultPackage : String := "USER"
  backtraceLength : Nat := 20
  logLevel : String := "info"
  deriving DecidableEq, Repr

inductive ConfigError where
  | unreadable (path : String)
  | notSettings
  | noBacktrace
  deriving DecidableEq, Repr

def ConfigError.message : ConfigError → String
  | .unreadable path => s!"read config file {path}"
  | .notSettings => "parse config"
  | .noBacktrace => "backtrace_length must be positive"

namespace Config

def idleTimeout (c : Config) : Option Nat := c.idleTimeoutSeconds.filter (0 < ·)

/-- The settings with one of them changed. The key must be known and its value of the right kind;
numbers count something and are not negative. -/
def set? (c : Config) : String × Toml.Value → Option Config
  | ("listen", .str s) => some { c with listen := s }
  | ("dedicated_output", .bool b) => some { c with dedicatedOutput := b }
  | ("idle_timeout_secs", .int i) =>
    if 0 ≤ i then some { c with idleTimeoutSeconds := some i.toNat } else none
  | ("port_file", .str s) => some { c with portFile := some s }
  | ("default_package", .str s) => some { c with defaultPackage := s }
  | ("backtrace_length", .int i) =>
    if 0 ≤ i then some { c with backtraceLength := i.toNat } else none
  | ("log_level", .str s) => some { c with logLevel := s }
  | _ => none

def isUnambiguous (entries : List (String × Toml.Value)) : Bool :=
  decide (entries.map Prod.fst).Nodup

def ofText (text : String) : Except ConfigError Config := do
  let settings := do
    let entries ← Toml.entries? text
    if isUnambiguous entries then entries.foldlM set? {} else none
  match settings with
  | none => throw .notSettings
  | some c => if c.backtraceLength = 0 then throw .noBacktrace else return c

def defaultPath : String := ".config/slink/config.toml"

def file? (home path : Option String) : Option String :=
  path.or (home.map (· ++ "/" ++ defaultPath))

def load (readFile : String → Except FileFault String) (home path : Option String) :
    Except ConfigError Config :=
  match file? home path with
  | none => .ok {}
  | some file =>
    match readFile file with
    | .ok text => ofText text
    | .error fault =>
      if path.isNone ∧ fault = .notFound then .ok {} else .error (.unreadable file)

end Config
end RemoteEval
