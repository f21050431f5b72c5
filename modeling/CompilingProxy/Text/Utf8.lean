/-!
# Characters from bytes

Text arrives as bytes that claim to be UTF-8. Where they are not, the longest run that could still
have begun a character is taken for one replacement character.
-/

namespace CompilingProxy.Text

/-- The bytes of text in UTF-8. -/
def bytes (s : String) : List UInt8 := s.toUTF8.toList

/-- The text of bytes, if they are UTF-8. -/
def ofBytes? (bs : List UInt8) : Option String := String.fromUTF8? ⟨bs.toArray⟩

/-- How many bytes follow a first byte, and the range that the second one has to be in; none for a
byte that begins no character. -/
def leadByte? (b : UInt8) : Option (Nat × UInt8 × UInt8) :=
  if b < 0x80 then some (0, 0x80, 0xbf)
  else if 0xc2 ≤ b && b ≤ 0xdf then some (1, 0x80, 0xbf)
  else if b == 0xe0 then some (2, 0xa0, 0xbf)
  else if b == 0xed then some (2, 0x80, 0x9f)
  else if 0xe1 ≤ b && b ≤ 0xef then some (2, 0x80, 0xbf)
  else if b == 0xf0 then some (3, 0x90, 0xbf)
  else if b == 0xf4 then some (3, 0x80, 0x8f)
  else if 0xf1 ≤ b && b ≤ 0xf3 then some (3, 0x80, 0xbf)
  else none

/-- Takes up to `need` continuation bytes: the value built so far, how many were taken, and whether
all were there. -/
def continuation (value : Nat) : (need : Nat) → (low high : UInt8) → List UInt8 → Nat × Nat × Bool
  | 0, _, _, _ => (value, 0, true)
  | _ + 1, _, _, [] => (value, 0, false)
  | need + 1, low, high, b :: bs =>
    if low ≤ b && b ≤ high then
      let (v, n, whole) := continuation (value * 64 + (b.toNat - 0x80)) need 0x80 0xbf bs
      (v, n + 1, whole)
    else (value, 0, false)

def firstBits (b : UInt8) (following : Nat) : Nat :=
  match following with
  | 0 => b.toNat
  | 1 => b.toNat - 0xc0
  | 2 => b.toNat - 0xe0
  | _ => b.toNat - 0xf0

/-- Reads bytes as characters, replacing what is not UTF-8. -/
def decodeLossy : (fuel : Nat) → List UInt8 → List Char
  | 0, _ => []
  | _, [] => []
  | fuel + 1, b :: bs =>
    match leadByte? b with
    | none => '\uFFFD' :: decodeLossy fuel bs
    | some (need, low, high) =>
      let (v, n, whole) := continuation (firstBits b need) need low high bs
      (if whole then Char.ofNat v else '\uFFFD') :: decodeLossy fuel (bs.drop n)

/-- The text of bytes, with replacement characters where they are not UTF-8. -/
def ofBytesLossy (bs : List UInt8) : String := String.ofList (decodeLossy bs.length bs)

def lowerHex (bs : List UInt8) : String :=
  String.ofList (bs.flatMap fun b => [Nat.digitChar (b.toNat / 16), Nat.digitChar (b.toNat % 16)])

end CompilingProxy.Text
