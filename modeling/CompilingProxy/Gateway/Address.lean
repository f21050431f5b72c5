import CompilingProxy.Url.Host

/-!
# Addresses to listen on

A numeric address and a port. Names of hosts are no addresses.
-/

namespace CompilingProxy

open Text

inductive SocketAddress where
  | four (address : Nat) (port : Nat)
  /-- An address of eight pieces; a scope says on which link it is one. -/
  | six (pieces : List Nat) (scope : Nat) (port : Nat)
deriving DecidableEq, Repr

namespace SocketAddress

/-- A decimal number of at most that size. -/
def number? (most : Nat) (cs : List Char) : Option Nat :=
  let n := cs.foldl (fun n c => n * 10 + (c.toNat - 48)) 0
  if !cs.isEmpty && cs.all Char.isDigit && n ≤ most then some n else none

def port? (cs : List Char) : Option Nat := number? 65535 cs

def parse? (text : String) : Option SocketAddress :=
  match text.toList with
  | '[' :: rest => do
    let (inside, rest) ← cutFirst? ']' rest
    let port ← port? (← dropFront? [':'] rest)
    match cutFirst? '%' inside with
    | some (address, scope) =>
      return .six (← Host.address6? address) (← number? (UInt32.size - 1) scope) port
    | none => return .six (← Host.address6? inside) 0 port
  | cs => do
    let (address, port) ← cutFirst? ':' cs
    match ← Host.tail4? address with
    | [high, low] => return .four (high * 65536 + low) (← port? port)
    | _ => none

/-- Eight pieces; those that hold an address of four bytes end in it. -/
def pieceText (pieces : List Nat) : List Char :=
  match pieces with
  | [0, 0, 0, 0, 0, 0xffff, high, low] =>
    "::ffff:".toList ++ Host.render4 (high * 65536 + low)
  | _ => Host.render6 pieces

def text : SocketAddress → String
  | .four address port => String.ofList (Host.render4 address) ++ ":" ++ toString port
  | .six pieces scope port =>
    let scope := if scope = 0 then "" else "%" ++ toString scope
    "[" ++ String.ofList (pieceText pieces) ++ scope ++ "]:" ++ toString port

end SocketAddress

end CompilingProxy
