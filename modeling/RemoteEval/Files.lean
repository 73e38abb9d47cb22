/-!
Files as a tree, and the paths that lead through it. A path is a list of names with strokes between
them, and two dots go back by one name; every name on the way must be that of a directory.
-/
namespace RemoteEval

inductive FileFault where
  | notFound
  | other
  deriving DecidableEq, Repr

inductive FileEntry where
  | file (text : String)
  | directory
  deriving DecidableEq, Repr

/-- The entries of a tree, each with the names that lead to it from the root. The first for its
names counts. A directory that leads to another entry need not be listed. -/
abbrev Files := List (List String × FileEntry)

namespace Files

def names (path : String) : List String := path.splitOn "/"

def enter (here : List String) (name : String) : List String :=
  if name = "" ∨ name = "." then here
  else if name = ".." then here.dropLast
  else here ++ [name]

def passed (here : List String) : List String → List (List String)
  | [] => []
  | name :: rest => here :: passed (enter here name) rest

/-- The tree with an entry at a path, instead of what was there. Directories on the way that are
missing are made, also those that the path goes back from. -/
def put (f : Files) (path : String) (e : FileEntry) : Files :=
  ((names path).foldl enter [], e) :: f ++ (passed [] (names path)).map (·, .directory)

def entry? (f : Files) (way : List String) : Option FileEntry :=
  match f.lookup way with
  | some e => some e
  | none => if way.isEmpty || f.any (fun e => way.isPrefixOf e.1) then some .directory else none

def walk (f : Files) (here : List String) : List String → Except FileFault (List String)
  | [] => .ok here
  | name :: rest =>
    match f.entry? here with
    | none => .error .notFound
    | some (.file _) => .error .other
    | some .directory => walk f (enter here name) rest

def read (f : Files) (path : String) : Except FileFault String := do
  let way ← f.walk [] (names path)
  match f.entry? way with
  | some (.file text) => return text
  | some .directory => throw .other
  | none => throw .notFound

def canWrite (f : Files) (path : String) : Bool :=
  match f.walk [] (names path) with
  | .error _ => false
  | .ok way => f.entry? way != some .directory && f.entry? way.dropLast == some .directory

end Files
end RemoteEval
