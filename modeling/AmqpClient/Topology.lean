import AmqpClient.Exchange
import AmqpClient.Queue
/-! What a client needs to exist on the broker: a main exchange, and if named a main queue, a
dead-letter exchange and a dead-letter queue. -/
namespace AmqpClient

structure Topology where
  exchangeName : String := ""
  exchangeKind : ExchangeKind := .direct
  queueName : String := ""
  routingKey : String := ""
  deadLetterExchangeName : String := ""
  deadLetterQueueName : String := ""
  deadLetterRoutingKey : String := ""
  deriving DecidableEq, Repr

namespace Topology

def new (exchangeName : String) : Topology := { exchangeName := exchangeName }

def ofKind (kind : ExchangeKind) (t : Topology) : Topology := { t with exchangeKind := kind }

def withQueue (name : String) (t : Topology) : Topology := { t with queueName := name }

def underKey (key : String) (t : Topology) : Topology := { t with routingKey := key }

def withDeadLetter (exchange queue key : String) (t : Topology) : Topology :=
  { t with
    deadLetterExchangeName := exchange
    deadLetterQueueName := queue
    deadLetterRoutingKey := key }

def isProducerOnly (t : Topology) : Bool := t.queueName == ""

def validate (t : Topology) : Outcome :=
  if t.exchangeName = "" then .error (.invalidConfig "exchange name is required")
  else if t.deadLetterQueueName ≠ "" ∧ t.deadLetterExchangeName = "" then
    .error (.invalidConfig
      ("dead letter queue `" ++ t.deadLetterQueueName ++ "` needs a dead letter exchange"))
  else .ok ()

def deadLetterExchange (t : Topology) : Option Exchange :=
  if t.deadLetterExchangeName = "" then none
  else some ((Exchange.new t.deadLetterExchangeName).ofKind .direct).asDurable

def deadLetterQueue (t : Topology) : Option (Queue × Binding) :=
  if t.deadLetterQueueName = "" then none
  else some
    ((Queue.new t.deadLetterQueueName).asDurable,
      ((Binding.new t.deadLetterQueueName).toExchange t.deadLetterExchangeName).underKey
        t.deadLetterRoutingKey)

def mainExchange (t : Topology) : Exchange :=
  ((Exchange.new t.exchangeName).ofKind t.exchangeKind).asDurable

def mainQueue (t : Topology) : Option (Queue × Binding) :=
  if t.isProducerOnly then none
  else some
    ((Queue.new t.queueName).asDurable.withArguments
        (QueueArguments.standard.withDeadLetter t.deadLetterExchangeName t.deadLetterRoutingKey),
      ((Binding.new t.queueName).toExchange t.exchangeName).underKey t.routingKey)

def events : Topology :=
  (((new "events").ofKind .direct).underKey "event").withDeadLetter "events.dlx" "" "event.failed"

def tasks : Topology := ((new "tasks").ofKind .topic).withDeadLetter "tasks.dlx" "" ""

end Topology

end AmqpClient
