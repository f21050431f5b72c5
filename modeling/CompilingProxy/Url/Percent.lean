import CompilingProxy.Text.Utf8

/-!
# Percent-encoding

A byte that may not stand in a part of a URL is written as a percent sign and two upper-case
hexadecimal digits. Each part has its own set of such bytes; every set holds the control characters
and all bytes beyond ASCII.
-/

namespace CompilingProxy.Percent

/-- The characters of ASCII that a part encodes besides the control characters. -/
abbrev EncodeSet := List Char

def controls : EncodeSet := []
def fragment : EncodeSet := [' ', '"', '<', '>', '\x60']
def path : EncodeSet := fragment ++ ['#', '?', '\x7b', '\x7d']
def userinfo : EncodeSet := path ++ ['/', ':', ';', '=', '@', '[', '\\', ']', '^', '|']
def query : EncodeSet := [' ', '"', '#', '<', '>']
def specialQuery : EncodeSet := query ++ ['\'']

def upperHexDigit (n : Nat) : Char := (Nat.digitChar n).toUpper

def encodeByte (b : UInt8) : List Char :=
  ['%', upperHexDigit (b.toNat / 16), upperHexDigit (b.toNat % 16)]

/-- How one character stands in a part with that set. -/
def encodeChar (set : EncodeSet) (c : Char) : List Char :=
  if 0x20 ≤ c.val ∧ c.val < 0x7f ∧ !set.contains c then [c]
  else (Text.bytes (String.singleton c)).flatMap encodeByte

def encode (set : EncodeSet) (cs : List Char) : List Char := cs.flatMap (encodeChar set)

def hexValue? (b : UInt8) : Option Nat :=
  if 0x30 ≤ b && b ≤ 0x39 then some (b.toNat - 0x30)
  else if 0x61 ≤ b && b ≤ 0x66 then some (b.toNat - 0x57)
  else if 0x41 ≤ b && b ≤ 0x46 then some (b.toNat - 0x37)
  else none

/-- Puts each encoded byte back; a percent sign without two digits stands for itself. -/
def decode : List UInt8 → List UInt8
  | 0x25 :: a :: b :: rest =>
    match hexValue? a, hexValue? b with
    | some x, some y => UInt8.ofNat (x * 16 + y) :: decode rest
    | _, _ => 0x25 :: decode (a :: b :: rest)
  | b :: rest => b :: decode rest
  | [] => []

end CompilingProxy.Percent
