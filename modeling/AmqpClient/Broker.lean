import AmqpClient.Message.Delivery
import AmqpClient.Message.Envelope
import AmqpClient.Topology.Install
/-! What a client asks of a broker. A dial gives a connection with one channel on it; each of the
two can be watched for its closing; everything else is asked of the channel. A broker is any type
with these operations, so that what is proved of a client holds whatever the broker answers. -/
namespace AmqpClient

abbrev ConnectionId := Nat
abbrev ChannelId := Nat
abbrev SignalId := Nat
abbrev StreamId := Nat

structure Link where
  connection : ConnectionId
  channel : ChannelId
  deriving DecidableEq, Repr

/-- A close notification: not yet fired, fired with a reason, or given up without one. -/
inductive Signal where
  | waiting
  | reported (reason : String)
  | dropped
  deriving DecidableEq, Repr

def Signal.fired : Signal → Bool
  | waiting => false
  | _ => true

inductive Poll where
  | waiting
  | item (d : Except Error Delivery)
  | ended

inductive Reply where
  | after (milliseconds : Nat) (o : Outcome)
  | never

inductive Settlement where
  | ack
  | reject (requeue : Bool)
  deriving DecidableEq, Repr

class Broker (β : Type) where
  dialTime : β → String → Nat
  dial : String → β → β × Except Error Link
  connectionOpen : β → ConnectionId → Bool
  channelOpen : β → ChannelId → Bool
  watchConnection : ConnectionId → β → β × SignalId
  watchChannel : ChannelId → β → β × SignalId
  signal : β → SignalId → Signal
  declare : ChannelId → Declaration → Attempt β
  prefetch : ChannelId → UInt16 → Attempt β
  consume : ChannelId → String → String → β → β × Except Error StreamId
  poll : StreamId → β → β × Poll
  dropStream : StreamId → β → β
  publish : ChannelId → String → String → Envelope → β → β × Reply
  settle : ChannelId → Nat → Settlement → Attempt β
  closeChannel : ChannelId → Attempt β
  closeConnection : ConnectionId → Attempt β

end AmqpClient
