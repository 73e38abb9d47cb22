import Std.Net
import RemoteEval.Text.Digits

/-!
Addresses as people write them: a host, a colon and a port. The host is an address in numbers, one
of the longer kind between brackets, or the name of the machine itself.
-/
namespace RemoteEval

structure Address where
  host : String
  port : UInt16
  deriving DecidableEq, Repr

namespace Address

def port? (digits : List Char) : Option UInt16 := (Text.number? 10 65535 digits).map Nat.toUInt16

def parse? (text : String) : Option Address :=
  let backwards := text.toList.reverse
  match backwards.dropWhile (· != ':') with
  | _ :: host => do
    let port ← port? (backwards.takeWhile (· != ':')).reverse
    some ⟨String.ofList host.reverse, port⟩
  | [] => none

def bracketed? (host : String) : Option String :=
  match host.toList, host.toList.getLast? with
  | '[' :: inner, some ']' => some (String.ofList inner.dropLast)
  | _, _ => none

def loopback : Std.Net.IPv4Addr := .ofParts 127 0 0 1

def socket? (a : Address) : Option Std.Net.SocketAddress :=
  if a.host = "localhost" then some (.v4 ⟨loopback, a.port⟩)
  else match bracketed? a.host with
    | some inner => (Std.Net.IPv6Addr.ofString inner).map fun ip => .v6 ⟨ip, a.port⟩
    | none => (Std.Net.IPv4Addr.ofString a.host).map fun ip => .v4 ⟨ip, a.port⟩

end Address
end RemoteEval
