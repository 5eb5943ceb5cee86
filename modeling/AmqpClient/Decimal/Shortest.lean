import AmqpClient.Binary64
/-! The fewest decimal digits that read back as a given binary64 value; of those the nearest to
it, and of two equally near ones the even one. -/
namespace AmqpClient.Decimal

structure Scaled where
  digits : Nat
  exponent : Int
  deriving DecidableEq, Repr

structure Interval where
  value : Nat
  low : Nat
  high : Nat
  den : Nat
  closed : Bool

def Interval.of (x : Binary64) : Interval :=
  let m := x.mantissa
  let below := if m = Nat.pow 2 52 ∧ Binary64.minExponent < x.exponent then 1 else 2
  let e := x.exponent - 2
  let (scale, den) := if 0 ≤ e then (Nat.pow 2 e.toNat, 1) else (1, Nat.pow 2 (-e).toNat)
  ⟨4 * m * scale, (4 * m - below) * scale, (4 * m + 2) * scale, den, m % 2 == 0⟩

def Interval.holds (i : Interval) (num den : Nat) : Bool :=
  let p := num * i.den
  if i.closed then i.low * den ≤ p ∧ p ≤ i.high * den else i.low * den < p ∧ p < i.high * den

def decimalExponent (num den : Nat) : Nat → Int → Int
  | 0, guess => guess
  | fuel + 1, guess =>
    let reaches (e : Int) : Bool :=
      if 0 ≤ e then den * Nat.pow 10 e.toNat ≤ num else den ≤ num * Nat.pow 10 (-e).toNat
    if !reaches guess then decimalExponent num den fuel (guess - 1)
    else if reaches (guess + 1) then decimalExponent num den fuel (guess + 1)
    else guess

def stripZeros : Nat → Nat → Int → Scaled
  | 0, d, e => ⟨d, e⟩
  | fuel + 1, d, e => if d ≠ 0 ∧ d % 10 = 0 then stripZeros fuel (d / 10) (e + 1) else ⟨d, e⟩

def onGrid (i : Interval) (e : Int) : Option Nat :=
  let (up, down) := if 0 ≤ e then (Nat.pow 10 e.toNat, 1) else (1, Nat.pow 10 (-e).toNat)
  let num := i.value * down
  let den := i.den * up
  let d := num / den
  let r := num % den
  match i.holds (d * up) down, i.holds ((d + 1) * up) down with
  | false, false => none
  | true, false => some d
  | false, true => some (d + 1)
  | true, true =>
    if 2 * r < den then some d
    else if den < 2 * r then some (d + 1)
    else if d % 2 = 0 then some d else some (d + 1)

/-- Tries grids from `digits` digits on; seventeen digits always suffice. -/
def search (i : Interval) (top : Int) : Nat → Nat → Scaled
  | 0, _ => ⟨0, 0⟩
  | fuel + 1, digits =>
    let e := top + 1 - digits
    match onGrid i e with
    | some d => stripZeros 20 d e
    | none => search i top fuel (digits + 1)

def shortest (x : Binary64) : Scaled :=
  if x.isZero then ⟨0, 0⟩ else
  let i := Interval.of x
  let guess := ((i.value.log2 : Int) - (i.den.log2 : Int)) * 30103 / 100000
  search i (decimalExponent i.value i.den 5 guess) 18 1

end AmqpClient.Decimal
