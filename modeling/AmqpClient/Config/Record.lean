import AmqpClient.Json.Value
import AmqpClient.Duration
/-! Reading records from JSON text. A record is an object, whose unknown members are passed over
unread, or an array of the leading fields in order; a known member may not come twice. -/
namespace AmqpClient.Config

open Json (Node Piece Number)

abbrev Record := List (String × Node)

def keyed : List (List Piece × Node) → Option Record
  | [] => some []
  | (k, x) :: rest => do
      let name ← Piece.text? k
      let tail ← keyed rest
      some ((name, x) :: tail)

def Record.ofNode? (names : List String) : Node → Option Record
  | .object members => do
      let all ← keyed members
      let known := all.filter fun e => names.contains e.1
      if (known.map Prod.fst).Nodup then some known else none
  | .array items => if names.length < items.length then none else some (names.zip items)
  | _ => none

def Record.field (r : Record) (name : String) (read : Node → Option α) (default : α) : Option α :=
  match Assoc.find? name r with
  | none => some default
  | some x => read x

def Record.required (r : Record) (name : String) (read : Node → Option α) : Option α :=
  (Assoc.find? name r).bind read

def text? : Node → Option String
  | .string s => Piece.text? s
  | _ => none

/-- An integer written without point or exponent; minus zero is none. -/
def integer? : Node → Option Int
  | .number n =>
    match Number.ofNumeral? n with
    | some (.integer i) => some i
    | _ => none
  | _ => none

def natBelow? (bound : Nat) (x : Node) : Option Nat :=
  match integer? x with
  | some (.ofNat n) => if n < bound then some n else none
  | _ => none

def uint16? (x : Node) : Option UInt16 := (natBelow? (Nat.pow 2 16) x).map Nat.toUInt16
def uint32? (x : Node) : Option UInt32 := (natBelow? (Nat.pow 2 32) x).map Nat.toUInt32
def uint64? (x : Node) : Option UInt64 := (natBelow? (Nat.pow 2 64) x).map Nat.toUInt64

def duration? : Node → Option Duration
  | .number n => do
      let x ← Number.ofNumeral? n
      let y ← x.toBinary64?
      Duration.ofBinary64? y
  | _ => none

def optional? (read : Node → Option α) : Node → Option (Option α)
  | .null => some none
  | x => (read x).map some

def parse? (read : Node → Option α) (s : String) : Option α :=
  (Node.read? (Bytes.ofText s)).bind read

end AmqpClient.Config
