import AmqpClient.Config.Record
import AmqpClient.Topology
/-! Tuning of the clients: the retry budget, waits and limits, and the settings of the event and
task producers. -/
namespace AmqpClient

structure RetryPolicy where
  maxRetries : UInt32 := 3
  baseSeconds : UInt64 := 2
  capSeconds : UInt64 := 60
  deriving DecidableEq, Repr

def defaultReconnectDelay : Duration := .ofSeconds 5
def defaultPublishTimeout : Duration := .ofSeconds 5

structure ProducerOptions where
  reconnectDelay : Duration := defaultReconnectDelay
  publishTimeout : Duration := defaultPublishTimeout
  deriving DecidableEq, Repr

structure ConsumerOptions where
  reconnectDelay : Duration := defaultReconnectDelay
  prefetchCount : UInt16 := 1
  maxInFlight : UInt64 := 1
  unavailableBackoff : Duration := .ofSeconds 5
  resubscribeDelay : Duration := .ofSeconds 2
  consumerTag : String := ""
  deriving DecidableEq, Repr

structure ServiceSettings where
  serviceName : String := ""
  topology : Option Topology := none
  deriving DecidableEq, Repr

open Config

def RetryPolicy.ofNode? (x : Json.Node) : Option RetryPolicy := do
  let r ← Record.ofNode? ["max_retries", "retry_delay_base_secs", "max_retry_delay_secs"] x
  let d : RetryPolicy := {}
  let maxRetries ← r.field "max_retries" uint32? d.maxRetries
  let baseSeconds ← r.field "retry_delay_base_secs" uint64? d.baseSeconds
  let capSeconds ← r.field "max_retry_delay_secs" uint64? d.capSeconds
  some ⟨maxRetries, baseSeconds, capSeconds⟩

def ProducerOptions.ofNode? (x : Json.Node) : Option ProducerOptions := do
  let r ← Record.ofNode? ["reconnect_delay", "publish_timeout"] x
  let d : ProducerOptions := {}
  let reconnectDelay ← r.field "reconnect_delay" duration? d.reconnectDelay
  let publishTimeout ← r.field "publish_timeout" duration? d.publishTimeout
  some ⟨reconnectDelay, publishTimeout⟩

def ConsumerOptions.ofNode? (x : Json.Node) : Option ConsumerOptions := do
  let r ← Record.ofNode?
    ["reconnect_delay", "prefetch_count", "max_in_flight", "unavailable_backoff",
      "resubscribe_delay", "consumer_tag"] x
  let d : ConsumerOptions := {}
  let reconnectDelay ← r.field "reconnect_delay" duration? d.reconnectDelay
  let prefetchCount ← r.field "prefetch_count" uint16? d.prefetchCount
  let maxInFlight ← r.field "max_in_flight" uint64? d.maxInFlight
  let unavailableBackoff ← r.field "unavailable_backoff" duration? d.unavailableBackoff
  let resubscribeDelay ← r.field "resubscribe_delay" duration? d.resubscribeDelay
  let consumerTag ← r.field "consumer_tag" text? d.consumerTag
  some ⟨reconnectDelay, prefetchCount, maxInFlight, unavailableBackoff, resubscribeDelay,
    consumerTag⟩

/-- A kind is written as its name, or as an object whose one member has that name and is null. -/
def ExchangeKind.ofNode? : Json.Node → Option ExchangeKind
  | .string s => (Json.Piece.text? s).bind ofName?
  | .object [(k, .null)] => (Json.Piece.text? k).bind ofName?
  | _ => none

def Topology.ofNode? (x : Json.Node) : Option Topology := do
  let r ← Record.ofNode?
    ["exchange_name", "exchange_kind", "queue_name", "routing_key", "dead_letter_exchange_name",
      "dead_letter_queue_name", "dead_letter_routing_key"] x
  let exchangeName ← r.field "exchange_name" text? ""
  let exchangeKind ← r.field "exchange_kind" ExchangeKind.ofNode? .direct
  let queueName ← r.field "queue_name" text? ""
  let routingKey ← r.field "routing_key" text? ""
  let deadLetterExchangeName ← r.field "dead_letter_exchange_name" text? ""
  let deadLetterQueueName ← r.field "dead_letter_queue_name" text? ""
  let deadLetterRoutingKey ← r.field "dead_letter_routing_key" text? ""
  some ⟨exchangeName, exchangeKind, queueName, routingKey, deadLetterExchangeName,
    deadLetterQueueName, deadLetterRoutingKey⟩

def ServiceSettings.ofNode? (x : Json.Node) : Option ServiceSettings := do
  let r ← Record.ofNode? ["service_name", "topology"] x
  let serviceName ← r.field "service_name" text? ""
  let topology ← r.field "topology" (optional? Topology.ofNode?) none
  some ⟨serviceName, topology⟩

end AmqpClient
