import AmqpClient.Error
import AmqpClient.Header
import AmqpClient.Json.Printer
/-! Messages as they are delivered. -/
namespace AmqpClient

structure Delivery where
  tag : Nat
  exchange : String
  routingKey : String
  redelivered : Bool
  body : Bytes
  headers : Header.Table
  deriving BEq, Repr

namespace Delivery

def new (tag : Nat) (exchange routingKey : String) (body : Bytes) (headers : Header.Table) :
    Delivery := ⟨tag, exchange, routingKey, false, body, headers⟩

def unreadable : Error := .payload "the body is not what is asked for"

def decode (read : Json.Node → Option α) (d : Delivery) : Except Error α :=
  match (Json.Node.read? d.body).bind read with
  | some x => .ok x
  | none => .error unreadable

def json (d : Delivery) : Except Error Json := d.decode (Json.ofNode? Json.maxDepth)

def debug (d : Delivery) : String :=
  "Delivery \x7b delivery_tag: " ++ toString d.tag ++ ", exchange: " ++ Text.quoted d.exchange ++
    ", routing_key: " ++ Text.quoted d.routingKey ++ ", redelivered: " ++
    (if d.redelivered then "true" else "false") ++ ", body_len: " ++ toString d.body.length ++ " \x7d"

end Delivery

end AmqpClient
