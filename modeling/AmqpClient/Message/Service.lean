import AmqpClient.Calendar
import AmqpClient.Config.Record
import AmqpClient.Message.Delivery
/-! Messages of a service: who sends, what kind, and an object of data that carries the time it was
made unless it already has one. -/
namespace AmqpClient

structure ServiceMessage where
  service : String
  kind : String
  payload : Assoc Json
  deriving BEq, Repr

namespace ServiceMessage

def timestampKey : String := "timestamp"

def stamp (unix : Int) (payload : Assoc Json) : Assoc Json :=
  if Assoc.contains timestampKey payload then payload
  else Assoc.insert timestampKey (.string (Calendar.timestamp unix)) payload

def new (unix : Int) (service kind : String) (payload : Assoc Json) : ServiceMessage :=
  ⟨service, kind, stamp unix payload⟩

def toJson (m : ServiceMessage) : Json :=
  .object [("service", .string m.service), ("type", .string m.kind), ("payload", .object m.payload)]

def encode (m : ServiceMessage) : Bytes := m.toJson.bytes

def payload? (x : Json.Node) : Option (Assoc Json) :=
  match Json.ofNode? (Json.maxDepth - 1) x with
  | some (.object members) => some members
  | _ => none

open Config in
def ofNode? (x : Json.Node) : Option ServiceMessage := do
  let r ← Record.ofNode? ["service", "type", "payload"] x
  let service ← r.required "service" text?
  let kind ← r.required "type" text?
  let payload ← r.required "payload" payload?
  some ⟨service, kind, payload⟩

def ofDelivery (d : Delivery) : Except Error ServiceMessage := d.decode ofNode?

end ServiceMessage

end AmqpClient
