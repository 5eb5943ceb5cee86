/-! Octet strings and their reading as UTF-8 text. -/
namespace AmqpClient

abbrev Bytes := List UInt8

namespace Bytes

def ofText (s : String) : Bytes := s.toByteArray.data.toList

def text? (b : Bytes) : Option String := String.fromUTF8? ⟨b.toArray⟩

def ofChar (c : Char) : Bytes := String.utf8EncodeChar c

def ofAscii (c : Char) : UInt8 := c.toNat.toUInt8

theorem textOfText (s : String) : text? (ofText s) = some s := by
  have h : (⟨(ofText s).toArray⟩ : ByteArray) = s.toByteArray := by
    simp [ofText]
  unfold text?
  rw [h]
  simp [String.fromUTF8?, s.isValidUTF8, String.fromUTF8]

end Bytes

namespace Hex

def digit (n : Nat) : Char := "0123456789abcdef".toList.getD n '0'

def digit? (c : Char) : Option Nat :=
  if '0' ≤ c ∧ c ≤ '9' then some (c.toNat - '0'.toNat)
  else if 'a' ≤ c ∧ c ≤ 'f' then some (c.toNat - 'a'.toNat + 10)
  else if 'A' ≤ c ∧ c ≤ 'F' then some (c.toNat - 'A'.toNat + 10)
  else none

def ofBytes (b : Bytes) : List Char :=
  b.flatMap fun x => [digit (x.toNat / 16), digit (x.toNat % 16)]

def toBytes? : List Char → Option Bytes
  | [] => some []
  | [_] => none
  | a :: b :: rest => do
      let h ← digit? a
      let l ← digit? b
      let tail ← toBytes? rest
      some ((16 * h + l).toUInt8 :: tail)

end Hex

end AmqpClient
