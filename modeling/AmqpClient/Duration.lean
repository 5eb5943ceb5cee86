import AmqpClient.Binary64
/-! Lengths of time in whole nanoseconds, and the instants of a clock that ticks in milliseconds:
a timer set between two ticks fires at the later one. -/
namespace AmqpClient

structure Duration where
  nanoseconds : Nat
  deriving DecidableEq, Repr

namespace Duration

def perSecond : Nat := Nat.pow 10 9
def perMillisecond : Nat := Nat.pow 10 6

def ofSeconds (n : Nat) : Duration := ⟨perSecond * n⟩
def ofMilliseconds (n : Nat) : Duration := ⟨perMillisecond * n⟩

def seconds (d : Duration) : Nat := d.nanoseconds / perSecond
def subsecond (d : Duration) : Nat := d.nanoseconds % perSecond

def milliseconds (d : Duration) : Nat :=
  d.nanoseconds / perMillisecond + if perMillisecond ∣ d.nanoseconds then 0 else 1

def ofBinary64? (x : Binary64) : Option Duration :=
  let (num, den) := x.quotient
  let n := Binary64.roundQuotient (perSecond * num) den
  if (x.negative ∧ !x.isZero) ∨ Nat.pow 2 64 * perSecond ≤ n then none else some ⟨n⟩

end Duration

/-- Milliseconds since the clock started. -/
abbrev Instant := Nat

namespace Instant

/-- Where a sum of an instant and a length leaves the range of an instant. -/
def limitSeconds : Nat := Nat.pow 2 63

/-- No sleep lasts longer than thirty years. -/
def longestSleep : Nat := 86400 * 365 * 30 * 1000

def add? (now : Instant) (d : Duration) : Option Instant :=
  if Duration.perSecond * limitSeconds ≤ Duration.perMillisecond * now + d.nanoseconds then none
  else some (now + d.milliseconds)

def afterSleep (now : Instant) (milliseconds : Nat) : Instant := now + min milliseconds longestSleep

def wake (now : Instant) (d : Duration) : Instant := afterSleep now d.milliseconds

end Instant

end AmqpClient
