import AmqpClient.Assoc
import AmqpClient.Json.Node
/-! JSON values that are kept. The members of an object are sorted by key, the last of equal keys
wins, and a text may open at most `maxDepth` arrays and objects inside each other. -/
namespace AmqpClient

inductive Json where
  | null
  | bool (b : Bool)
  | number (n : Json.Number)
  | string (s : String)
  | array (items : List Json)
  | object (members : List (String × Json))
  deriving BEq, Repr, Inhabited

namespace Json

def maxDepth : Nat := 127

mutual

def ofNode? (room : Nat) : Node → Option Json
  | .null => some .null
  | .bool b => some (.bool b)
  | .number n => (Number.ofNumeral? n).map .number
  | .string s => (Piece.text? s).map .string
  | .array items => if room = 0 then none else (ofNodes? (room - 1) items).map .array
  | .object members =>
    if room = 0 then none else
      (ofMembers? (room - 1) members).map fun ms => .object (Assoc.ofList ms)

def ofNodes? (room : Nat) : List Node → Option (List Json)
  | [] => some []
  | x :: xs => do
      let y ← ofNode? room x
      let ys ← ofNodes? room xs
      some (y :: ys)

def ofMembers? (room : Nat) : List (List Piece × Node) → Option (List (String × Json))
  | [] => some []
  | (k, x) :: xs => do
      let key ← Piece.text? k
      let y ← ofNode? room x
      let ys ← ofMembers? room xs
      some ((key, y) :: ys)

end

def read? (s : Bytes) : Option Json := (Node.read? s).bind (ofNode? maxDepth)

def readText? (s : String) : Option Json := read? (Bytes.ofText s)

mutual

def depth : Json → Nat
  | .array items => depths items + 1
  | .object members => memberDepths members + 1
  | _ => 0

def depths : List Json → Nat
  | [] => 0
  | x :: xs => max (depth x) (depths xs)

def memberDepths : List (String × Json) → Nat
  | [] => 0
  | (_, x) :: xs => max (depth x) (memberDepths xs)

end

def field? (k : String) : Json → Option Json
  | .object members => Assoc.find? k members
  | _ => none

def text? : Json → Option String
  | .string s => some s
  | _ => none

def int? : Json → Option Int
  | .number (.integer i) => some i
  | _ => none

def bool? : Json → Option Bool
  | .bool b => some b
  | _ => none

def items? : Json → Option (List Json)
  | .array items => some items
  | _ => none

end Json

end AmqpClient
