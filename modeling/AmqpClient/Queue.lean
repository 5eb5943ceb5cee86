import AmqpClient.Header
/-! Queues, the arguments every main queue is declared with, and bindings. -/
namespace AmqpClient

structure DeadLetter where
  exchange : String
  routingKey : String
  deriving DecidableEq, Repr

structure QueueArguments where
  messageTtl : Int32
  maxPriority : Int32
  overflow : String
  deadLetter : Option DeadLetter
  deriving DecidableEq, Repr

namespace QueueArguments

def standard : QueueArguments := ⟨24 * 60 * 60 * 1000, 10, "drop-head", none⟩

def withDeadLetter (exchange routingKey : String) (a : QueueArguments) : QueueArguments :=
  if exchange = "" then a else { a with deadLetter := some ⟨exchange, routingKey⟩ }

def table (a : QueueArguments) : Header.Table :=
  let fixed := Assoc.ofList
    [("x-message-ttl", Header.Value.longInt a.messageTtl),
      ("x-max-priority", .longInt a.maxPriority),
      ("x-overflow", .text a.overflow)]
  match a.deadLetter with
  | none => fixed
  | some d => Assoc.insertAll fixed
      [("x-dead-letter-exchange", .text d.exchange),
        ("x-dead-letter-routing-key", .text d.routingKey)]

end QueueArguments

structure Queue where
  name : String
  durable : Bool
  arguments : Option QueueArguments
  deriving DecidableEq, Repr

namespace Queue

def new (name : String) : Queue := ⟨name, false, none⟩

def asDurable (q : Queue) : Queue := { q with durable := true }

def withArguments (a : QueueArguments) (q : Queue) : Queue := { q with arguments := some a }

def table (q : Queue) : Header.Table := (q.arguments.map QueueArguments.table).getD []

end Queue

structure Binding where
  queue : String
  exchange : String
  routingKey : String
  deriving DecidableEq, Repr

namespace Binding

def new (queue : String) : Binding := ⟨queue, "", ""⟩

def toExchange (name : String) (b : Binding) : Binding := { b with exchange := name }

def underKey (key : String) (b : Binding) : Binding := { b with routingKey := key }

end Binding

end AmqpClient
