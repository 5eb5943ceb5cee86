import AmqpClient.Text.Bytes
import AmqpClient.Json.Number
/-! JSON text as a tree that keeps what is written: numerals with all their digits, strings with
their escapes, members in order and repeated. Reading a tree checks the grammar only; whether a
number fits, an escape names a character or octets are UTF-8 is asked where a value is kept. -/
namespace AmqpClient.Json

inductive Piece where
  | byte (b : UInt8)
  | unit (code : Nat)
  deriving DecidableEq, Repr

inductive Node where
  | null
  | bool (b : Bool)
  | number (n : Numeral)
  | string (s : List Piece)
  | array (items : List Node)
  | object (members : List (List Piece × Node))

namespace Node

abbrev ascii (c : Char) : UInt8 := Bytes.ofAscii c

def isBlank (b : UInt8) : Bool := b == 32 || b == 9 || b == 10 || b == 13

def skip (s : Bytes) : Bytes := s.dropWhile isBlank

def isDigit (b : UInt8) : Bool := 48 ≤ b && b ≤ 57

def digits (s : Bytes) : List Nat × Bytes :=
  ((s.takeWhile isDigit).map fun b => b.toNat - 48, s.dropWhile isDigit)

def someDigits (s : Bytes) : Option (List Nat × Bytes) :=
  let (ds, rest) := digits s
  if ds.isEmpty then none else some (ds, rest)

def readFraction (s : Bytes) : Option (List Nat × Bytes) :=
  match s with
  | 46 :: rest => someDigits rest
  | _ => some ([], s)

def readExponent (s : Bytes) : Option (Option (Bool × List Nat) × Bytes) :=
  let signed (rest : Bytes) : Bool × Bytes :=
    match rest with
    | 43 :: more => (false, more)
    | 45 :: more => (true, more)
    | _ => (false, rest)
  match s with
  | b :: rest =>
    if b == 101 || b == 69 then
      let (down, more) := signed rest
      (someDigits more).map fun (ds, tail) => (some (down, ds), tail)
    else some (none, s)
  | [] => some (none, s)

def readNumeral (s : Bytes) : Option (Numeral × Bytes) := do
  let (negative, rest) := match s with
    | 45 :: rest => (true, rest)
    | _ => (false, s)
  let (whole, rest) ← someDigits rest
  if whole.head? = some 0 ∧ 1 < whole.length then none else
  let (fraction, rest) ← readFraction rest
  let (exponent, rest) ← readExponent rest
  some (⟨negative, whole, fraction, exponent⟩, rest)

def simpleEscape? (b : UInt8) : Option UInt8 :=
  if b == ascii '"' || b == ascii '\\' || b == ascii '/' then some b
  else if b == ascii 'b' then some 8
  else if b == ascii 'f' then some 12
  else if b == ascii 'n' then some 10
  else if b == ascii 'r' then some 13
  else if b == ascii 't' then some 9
  else none

def hexUnit? (a b c d : UInt8) : Option Nat := do
  let w ← Hex.digit? (Char.ofNat a.toNat)
  let x ← Hex.digit? (Char.ofNat b.toNat)
  let y ← Hex.digit? (Char.ofNat c.toNat)
  let z ← Hex.digit? (Char.ofNat d.toNat)
  some (16 * (16 * (16 * w + x) + y) + z)

def readPieces : Bytes → Option (List Piece × Bytes)
  | [] => none
  | 34 :: rest => some ([], rest)
  | 92 :: 117 :: a :: b :: c :: d :: rest => do
      let u ← hexUnit? a b c d
      let (more, tail) ← readPieces rest
      some (.unit u :: more, tail)
  | 92 :: b :: rest => do
      let x ← simpleEscape? b
      let (more, tail) ← readPieces rest
      some (.byte x :: more, tail)
  | b :: rest =>
    if b < 32 || b == 92 then none else do
      let (more, tail) ← readPieces rest
      some (.byte b :: more, tail)

def readWord (word : String) (s : Bytes) : Option Bytes :=
  let w := Bytes.ofText word
  if s.take w.length = w then some (s.drop w.length) else none

mutual

def readValue : Nat → Bytes → Option (Node × Bytes)
  | 0, _ => none
  | fuel + 1, s =>
    match skip s with
    | [] => none
    | b :: rest =>
      if b == ascii '"' then (readPieces rest).map fun (p, tail) => (.string p, tail)
      else if b == ascii '[' then
        match skip rest with
        | 93 :: tail => some (.array [], tail)
        | more => (readItems fuel more).map fun (xs, tail) => (.array xs, tail)
      else if b == ascii '\x7b' then
        match skip rest with
        | 125 :: tail => some (.object [], tail)
        | more => (readMembers fuel more).map fun (xs, tail) => (.object xs, tail)
      else if b == ascii 'n' then (readWord "ull" rest).map (.null, ·)
      else if b == ascii 't' then (readWord "rue" rest).map (.bool true, ·)
      else if b == ascii 'f' then (readWord "alse" rest).map (.bool false, ·)
      else (readNumeral (b :: rest)).map fun (n, tail) => (.number n, tail)

def readItems : Nat → Bytes → Option (List Node × Bytes)
  | 0, _ => none
  | fuel + 1, s => do
    let (x, rest) ← readValue fuel s
    match skip rest with
    | 93 :: tail => some ([x], tail)
    | 44 :: more =>
      let (xs, tail) ← readItems fuel more
      some (x :: xs, tail)
    | _ => none

def readMembers : Nat → Bytes → Option (List (List Piece × Node) × Bytes)
  | 0, _ => none
  | fuel + 1, s => do
    match skip s with
    | 34 :: rest =>
      let (k, rest) ← readPieces rest
      match skip rest with
      | 58 :: rest =>
        let (x, rest) ← readValue fuel rest
        match skip rest with
        | 125 :: tail => some ([(k, x)], tail)
        | 44 :: more =>
          let (xs, tail) ← readMembers fuel more
          some ((k, x) :: xs, tail)
        | _ => none
      | _ => none
    | _ => none

end

def read? (s : Bytes) : Option Node := do
  let (x, rest) ← readValue (s.length + 1) s
  if (skip rest).isEmpty then some x else none

end Node

def Piece.bytes? : List Piece → Option Bytes
  | [] => some []
  | .byte b :: rest => (Piece.bytes? rest).map (b :: ·)
  | .unit high :: .unit low :: rest =>
    if 0xD800 ≤ high ∧ high < 0xDC00 then
      if 0xDC00 ≤ low ∧ low < 0xE000 then
        let c := Char.ofNat (0x10000 + 0x400 * (high - 0xD800) + (low - 0xDC00))
        (Piece.bytes? rest).map (Bytes.ofChar c ++ ·)
      else none
    else if 0xDC00 ≤ high ∧ high < 0xE000 then none
    else (Piece.bytes? (.unit low :: rest)).map (Bytes.ofChar (Char.ofNat high) ++ ·)
  | .unit u :: rest =>
    if 0xD800 ≤ u ∧ u < 0xE000 then none
    else (Piece.bytes? rest).map (Bytes.ofChar (Char.ofNat u) ++ ·)

def Piece.text? (s : List Piece) : Option String := (Piece.bytes? s).bind Bytes.text?

end AmqpClient.Json
