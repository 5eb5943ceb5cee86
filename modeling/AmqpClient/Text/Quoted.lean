import AmqpClient.Text.Printable
import AmqpClient.Text.Bytes
/-! Text between quotes for diagnostics: quotes, backslashes and the usual controls have short
escapes, and what would not show as a glyph of its own is written by its code point. -/
namespace AmqpClient.Text

def hexDigits (n : Nat) : List Char := Nat.toDigits 16 n

def isVisible (c : Char) : Bool :=
  if c.toNat < 127 then 32 ≤ c.toNat
  else !inRanges c.toNat extendingRanges && !inRanges c.toNat hiddenRanges

def quoteChar (c : Char) : List Char :=
  if c = '\x00' then ['\\', '0']
  else if c = '\t' then ['\\', 't']
  else if c = '\r' then ['\\', 'r']
  else if c = '\n' then ['\\', 'n']
  else if c = '"' then ['\\', '"']
  else if c = '\\' then ['\\', '\\']
  else if isVisible c then [c]
  else '\\' :: 'u' :: '\x7b' :: hexDigits c.toNat ++ ['\x7d']

def quoted (s : String) : String := String.ofList ('"' :: s.toList.flatMap quoteChar ++ ['"'])

end AmqpClient.Text
