import AmqpClient.Error
import AmqpClient.Text.LowerCase
/-! Exchanges: their kinds and their definitions. -/
namespace AmqpClient

inductive ExchangeKind where
  | direct
  | fanout
  | topic
  | headers
  deriving DecidableEq, Repr

namespace ExchangeKind

def name : ExchangeKind → String
  | direct => "direct"
  | fanout => "fanout"
  | topic => "topic"
  | headers => "headers"

def all : List ExchangeKind := [direct, fanout, topic, headers]

def ofName? (s : String) : Option ExchangeKind := all.find? fun k => k.name = s

def parse (s : String) : Except Error ExchangeKind :=
  let lowered := Text.lower s
  if lowered = "" then .ok direct
  else match ofName? lowered with
    | some k => .ok k
    | none => .error (.invalidConfig ("unsupported exchange type `" ++ lowered ++ "`"))

theorem nameReadBack (k : ExchangeKind) : ofName? k.name = some k := by
  cases k <;> rfl

end ExchangeKind

structure Exchange where
  name : String
  kind : ExchangeKind
  durable : Bool
  deriving DecidableEq, Repr

namespace Exchange

def new (name : String) : Exchange := ⟨name, .direct, false⟩

def ofKind (kind : ExchangeKind) (e : Exchange) : Exchange := { e with kind := kind }

def asDurable (e : Exchange) : Exchange := { e with durable := true }

end Exchange

end AmqpClient
