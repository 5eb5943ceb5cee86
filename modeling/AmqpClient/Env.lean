import AmqpClient.Broker
import AmqpClient.Duration
import AmqpClient.Trace
/-! The surroundings of every task: the broker, the clock, the supply of message identities, and a
journal of what was asked of the broker and what handlers did, newest entry first. -/
namespace AmqpClient

inductive CallResult where
  | returned (o : Outcome)
  | overflowed

inductive Fact where
  | dialed (client : String) (number : Nat) (r : Except Error Link)
  | declared (channel : ChannelId) (d : Declaration) (o : Outcome)
  | prefetched (channel : ChannelId) (count : UInt16) (o : Outcome)
  | subscribed (channel : ChannelId) (queue consumerTag : String) (r : Except Error StreamId)
  | published (channel : ChannelId) (exchange key : String) (e : Envelope) (r : Reply)
  | handling (d : Delivery)
  | handled (tag : Nat) (succeeded : Bool)
  | settled (channel : ChannelId) (tag : Nat) (s : Settlement) (o : Outcome)
  | spanEnded (s : Trace.Span)
  | closedChannel (channel : ChannelId) (o : Outcome)
  | closedConnection (connection : ConnectionId) (o : Outcome)
  | ended (client call : Nat) (o : Outcome)

structure Entry where
  time : Instant
  fact : Fact

structure Env (β : Type) where
  broker : β
  now : Instant := 0
  wallClock : Instant → Int
  serial : Nat := 0
  dials : Assoc Nat := []
  journal : List Entry := []

namespace Env

variable {β : Type}

def unix (e : Env β) : Int := e.wallClock e.now

def record (f : Fact) (e : Env β) : Env β := { e with journal := ⟨e.now, f⟩ :: e.journal }

def withBroker (b : β) (e : Env β) : Env β := { e with broker := b }

def freshId (e : Env β) : Env β × String :=
  ({ e with serial := e.serial + 1 }, MessageId.ofSerial e.serial)

def beginDial (client : String) (e : Env β) : Env β × Nat :=
  let number := (Assoc.find? client e.dials).getD 0 + 1
  ({ e with dials := Assoc.insert client number e.dials }, number)

variable [Broker β]

def dial (client : String) (number : Nat) (e : Env β) : Env β × Except Error Link :=
  let (b, r) := Broker.dial client e.broker
  ((e.withBroker b).record (.dialed client number r), r)

def declare (c : ChannelId) (d : Declaration) (e : Env β) : Env β × Outcome :=
  let (b, o) := Broker.declare c d e.broker
  ((e.withBroker b).record (.declared c d o), o)

def prefetch (c : ChannelId) (n : UInt16) (e : Env β) : Env β × Outcome :=
  let (b, o) := Broker.prefetch c n e.broker
  ((e.withBroker b).record (.prefetched c n o), o)

def consume (c : ChannelId) (queue consumerTag : String) (e : Env β) :
    Env β × Except Error StreamId :=
  let (b, r) := Broker.consume c queue consumerTag e.broker
  ((e.withBroker b).record (.subscribed c queue consumerTag r), r)

def publish (c : ChannelId) (exchange key : String) (m : Envelope) (e : Env β) : Env β × Reply :=
  let (b, r) := Broker.publish c exchange key m e.broker
  ((e.withBroker b).record (.published c exchange key m r), r)

def settle (c : ChannelId) (tag : Nat) (s : Settlement) (e : Env β) : Env β × Outcome :=
  let (b, o) := Broker.settle c tag s e.broker
  ((e.withBroker b).record (.settled c tag s o), o)

def closeChannel (c : ChannelId) (e : Env β) : Env β × Outcome :=
  let (b, o) := Broker.closeChannel c e.broker
  ((e.withBroker b).record (.closedChannel c o), o)

def closeConnection (c : ConnectionId) (e : Env β) : Env β × Outcome :=
  let (b, o) := Broker.closeConnection c e.broker
  ((e.withBroker b).record (.closedConnection c o), o)

def watchConnection (c : ConnectionId) (e : Env β) : Env β × SignalId :=
  let (b, s) := Broker.watchConnection c e.broker
  (e.withBroker b, s)

def watchChannel (c : ChannelId) (e : Env β) : Env β × SignalId :=
  let (b, s) := Broker.watchChannel c e.broker
  (e.withBroker b, s)

def poll (i : StreamId) (e : Env β) : Env β × Poll :=
  let (b, p) := Broker.poll i e.broker
  (e.withBroker b, p)

def dropStream (i : StreamId) (e : Env β) : Env β :=
  e.withBroker (Broker.dropStream i e.broker)

variable {e : Env β}

omit [Broker β] in
@[simp, grind =] theorem nowRecord (f : Fact) : (e.record f).now = e.now := rfl

omit [Broker β] in
@[simp, grind =] theorem nowWithBroker (b : β) : (e.withBroker b).now = e.now := rfl

omit [Broker β] in
@[simp, grind =] theorem nowFreshId : e.freshId.1.now = e.now := rfl

omit [Broker β] in
@[simp, grind =] theorem nowBeginDial (client : String) : (e.beginDial client).1.now = e.now := rfl

@[simp, grind =] theorem nowDial (client : String) (number : Nat) :
    (e.dial client number).1.now = e.now := rfl

@[simp, grind =] theorem nowDeclare (c : ChannelId) (d : Declaration) :
    (e.declare c d).1.now = e.now := rfl

@[simp, grind =] theorem nowPrefetch (c : ChannelId) (n : UInt16) :
    (e.prefetch c n).1.now = e.now := rfl

@[simp, grind =] theorem nowConsume (c : ChannelId) (queue consumerTag : String) :
    (e.consume c queue consumerTag).1.now = e.now := rfl

@[simp, grind =] theorem nowPublish (c : ChannelId) (exchange key : String) (m : Envelope) :
    (e.publish c exchange key m).1.now = e.now := rfl

@[simp, grind =] theorem nowSettle (c : ChannelId) (tag : Nat) (s : Settlement) :
    (e.settle c tag s).1.now = e.now := rfl

@[simp, grind =] theorem nowCloseChannel (c : ChannelId) :
    (e.closeChannel c).1.now = e.now := rfl

@[simp, grind =] theorem nowCloseConnection (c : ConnectionId) :
    (e.closeConnection c).1.now = e.now := rfl

@[simp, grind =] theorem nowWatchConnection (c : ConnectionId) :
    (e.watchConnection c).1.now = e.now := rfl

@[simp, grind =] theorem nowWatchChannel (c : ChannelId) :
    (e.watchChannel c).1.now = e.now := rfl

@[simp, grind =] theorem nowPoll (i : StreamId) : (e.poll i).1.now = e.now := rfl

@[simp, grind =] theorem nowDropStream (i : StreamId) : (e.dropStream i).now = e.now := rfl

end Env

end AmqpClient
