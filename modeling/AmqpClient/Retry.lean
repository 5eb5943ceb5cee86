import AmqpClient.Config.Options
/-! The retry policy: how often a message has failed, how long to wait, and the headers of the copy
that is tried next. -/
namespace AmqpClient.Retry

def countHeader : String := "x-retry-count"
def errorHeader : String := "x-last-error"
def timeHeader : String := "x-last-retry"

/-- A missing counter, one of another type and a negative one all count as zero. -/
def count (headers : Header.Table) : UInt32 :=
  match Assoc.find? countHeader headers with
  | some (.longInt n) => if n < 0 then 0 else n.toInt.toNat.toUInt32
  | _ => 0

def factor (n : UInt32) : UInt64 :=
  if n < 64 then (Nat.pow 2 n.toNat).toUInt64 else UInt64.ofNat (Nat.pow 2 64 - 1)

def saturatingMul (a b : UInt64) : UInt64 :=
  if a.toNat * b.toNat < Nat.pow 2 64 then a * b else UInt64.ofNat (Nat.pow 2 64 - 1)

def delaySeconds (n : UInt32) (p : RetryPolicy) : UInt64 :=
  min (saturatingMul p.baseSeconds (factor n)) p.capSeconds

def delay (n : UInt32) (p : RetryPolicy) : Duration := .ofSeconds (delaySeconds n p).toNat

def next (n : UInt32) : UInt32 := if n.toNat + 1 < Nat.pow 2 32 then n + 1 else n

def counter (n : UInt32) : Int32 :=
  if n.toNat < Nat.pow 2 31 then n.toInt32 else Int32.ofNat (Nat.pow 2 31 - 1)

def headers (nextCount : UInt32) (lastError : String) (at_ : Int64) : Header.Table :=
  Assoc.ofList
    [(countHeader, .longInt (counter nextCount)),
      (errorHeader, .text lastError),
      (timeHeader, .longLongInt at_)]

end AmqpClient.Retry
