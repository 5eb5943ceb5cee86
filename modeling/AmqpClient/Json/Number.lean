import AmqpClient.Decimal.Shortest
/-! Numbers as they are written in JSON and as they are kept: an integer of 64 bits, signed or
not, stays an integer, every other number is a binary64 value. -/
namespace AmqpClient.Json

structure Numeral where
  negative : Bool
  whole : List Nat
  fraction : List Nat
  exponent : Option (Bool × List Nat)
  deriving DecidableEq, Repr

inductive Number where
  | integer (value : Int)
  | float (value : Binary64)
  deriving DecidableEq, Repr, BEq

namespace Number

def maxUnsigned : Nat := Nat.pow 2 64 - 1
def maxExponent : Nat := Nat.pow 2 31 - 1
def tableExponent : Nat := 308

def accumulate (significand : Nat) : List Nat → Nat × List Nat
  | [] => (significand, [])
  | d :: rest =>
    if 10 * significand + d ≤ maxUnsigned then accumulate (10 * significand + d) rest
    else (significand, d :: rest)

def exponentValue? (value : Nat) : List Nat → Option Nat
  | [] => some value
  | d :: rest =>
    if 10 * value + d ≤ maxExponent then exponentValue? (10 * value + d) rest else none

def powerOfTen? (n : Nat) : Option Binary64 := Binary64.ofNat? (Nat.pow 10 n)

/-- Multiplies or divides by a rounded power of ten, in steps of at most `10 ^ 308`. A result
past the largest binary64 value is refused. -/
def scale? (x : Binary64) (e : Int) : Option Binary64 :=
  if e.natAbs ≤ tableExponent then do
    let p ← powerOfTen? e.natAbs
    if 0 ≤ e then x.mul? p else x.div? p
  else if x.isZero then some x
  else if 0 ≤ e then none
  else do
    let p ← powerOfTen? tableExponent
    let y ← x.div? p
    scale? y (e + tableExponent)
termination_by e.natAbs
decreasing_by simp only [tableExponent] at *; omega

def float? (negative : Bool) (significand : Nat) (e : Int) : Option Number := do
  let x ← Binary64.ofNat? significand
  let y ← scale? x e
  some (.float (if negative then y.neg else y))

/-- The value of a numeral. Digits of the significand past 64 bits are not read: before the point
they count as zeros, after it they are dropped. -/
def ofNumeral? (n : Numeral) : Option Number :=
  let (significand, dropped) := accumulate 0 n.whole
  if dropped.isEmpty ∧ n.fraction.isEmpty ∧ n.exponent.isNone then
    if !n.negative then some (.integer significand)
    else if significand = 0 ∨ Nat.pow 2 63 < significand then float? true significand 0
    else some (.integer (-significand))
  else
    let (significand, rest) := accumulate significand n.fraction
    let start : Int := dropped.length - (n.fraction.length - rest.length : Nat)
    match n.exponent with
    | none => float? n.negative significand start
    | some (down, ds) =>
      match exponentValue? 0 ds with
      | some e => float? n.negative significand (if down then start - e else start + e)
      | none =>
        if significand ≠ 0 ∧ !down then none else some (.float (Binary64.zero n.negative))

def toBinary64? : Number → Option Binary64
  | .integer i => Binary64.ofInt? i
  | .float x => some x

def natText (n : Nat) : List Char := Nat.toDigits 10 n

def intText (i : Int) : List Char :=
  if i < 0 then '-' :: natText i.natAbs else natText i.natAbs

def floatText (x : Binary64) : List Char :=
  let sign := if x.negative then ['-'] else []
  if x.isZero then sign ++ "0.0".toList else
  let s := Decimal.shortest x
  let ds := natText s.digits
  let point : Int := ds.length + s.exponent
  sign ++
    if 0 ≤ s.exponent ∧ point ≤ 16 then
      ds ++ List.replicate s.exponent.toNat '0' ++ ".0".toList
    else if 0 < point ∧ point ≤ 16 then
      ds.take point.toNat ++ '.' :: ds.drop point.toNat
    else if -5 < point ∧ point ≤ 0 then
      "0.".toList ++ List.replicate (-point).toNat '0' ++ ds
    else
      let e := point - 1
      let tail := 'e' :: (if e < 0 then '-' else '+') :: natText e.natAbs
      match ds with
      | [] => tail
      | [d] => d :: tail
      | d :: rest => d :: '.' :: (rest ++ tail)

def text : Number → List Char
  | .integer i => intText i
  | .float x => floatText x

end Number

end AmqpClient.Json
