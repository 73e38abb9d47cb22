import RemoteEval.Table
import RemoteEval.Error

/-!
The references of live workers. A reference is a small positive number; one that is given back is
given out again before any new one, the smallest first, so that a connection that lives long keeps
its numbers short.
-/
namespace RemoteEval

structure Registry (ω : Type) [Key ω] where
  live : Table WorkerRef ω := {}
  refs : Table ω WorkerRef := {}
  free : Table WorkerRef Unit := {}
  /-- The smallest reference never given out. -/
  fresh : WorkerRef := 1
  deriving DecidableEq, Repr

namespace Registry
variable {ω : Type} [Key ω]

def refOf (r : Registry ω) (worker : ω) : Option WorkerRef := r.refs.get? worker

def lookup (r : Registry ω) (ref : WorkerRef) : Except Error ω :=
  match r.live.get? ref with
  | some worker => .ok worker
  | none => .error (.refNotFound ref)

def allocate (r : Registry ω) (worker : ω) : WorkerRef × Registry ω :=
  match r.refOf worker with
  | some ref => (ref, r)
  | none =>
    let (ref, r) := match r.free.keys with
      | ref :: _ => (ref, { r with free := r.free.erase ref })
      | [] => (r.fresh, { r with fresh := r.fresh + 1 })
    (ref, { r with live := r.live.insert ref worker, refs := r.refs.insert worker ref })

def release (r : Registry ω) (ref : WorkerRef) : Option ω × Registry ω :=
  match r.live.get? ref with
  | some worker =>
    (some worker, { r with
      live := r.live.erase ref
      refs := r.refs.erase worker
      free := r.free.insert ref () })
  | none => (none, r)

def clear (r : Registry ω) : Registry ω :=
  { r with live := default, refs := default, free := default, fresh := 1 }

def size (r : Registry ω) : Nat := r.live.size

def isEmpty (r : Registry ω) : Bool := r.live.isEmpty

end Registry
end RemoteEval
