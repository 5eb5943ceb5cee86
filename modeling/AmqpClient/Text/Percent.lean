import AmqpClient.Text.Bytes
/-! Percent encoding: letters, digits and four marks stand for themselves, every other octet of the
UTF-8 form is written as a percent sign and two capital hexadecimal digits. -/
namespace AmqpClient.Percent

def isUnreserved (b : UInt8) : Bool :=
  (48 ≤ b && b ≤ 57) || (65 ≤ b && b ≤ 90) || (97 ≤ b && b ≤ 122) ||
    b == Bytes.ofAscii '-' || b == Bytes.ofAscii '.' || b == Bytes.ofAscii '_' ||
    b == Bytes.ofAscii '~'

def capitalDigit (n : Nat) : Char := "0123456789ABCDEF".toList.getD n '0'

def encodeByte (b : UInt8) : List Char :=
  if isUnreserved b then [Char.ofNat b.toNat]
  else ['%', capitalDigit (b.toNat / 16), capitalDigit (b.toNat % 16)]

def encode (s : String) : List Char := (Bytes.ofText s).flatMap encodeByte

def decode : List Char → Option Bytes
  | [] => some []
  | '%' :: a :: b :: rest => do
      let h ← Hex.digit? a
      let l ← Hex.digit? b
      let tail ← decode rest
      some ((16 * h + l).toUInt8 :: tail)
  | c :: rest =>
    if c.toNat < 128 ∧ isUnreserved c.toNat.toUInt8 then
      (decode rest).map (c.toNat.toUInt8 :: ·)
    else none

end AmqpClient.Percent
