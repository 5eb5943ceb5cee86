import AmqpClient.Broker
/-! What a broker in memory holds: connections and channels, the signals that watch them, streams,
bindings, and the messages that no stream has taken. Nothing is ever removed but from `pending`, so
a place in a list is an identity. -/
namespace AmqpClient.Broker

structure Endpoint where
  isOpen : Bool
  watcher : Option SignalId
  deriving DecidableEq, Repr

/-- A subscription. `items` is all that was ever put into it, of which `taken` have been read. -/
structure Stream where
  channel : ChannelId
  queue : String
  attached : Bool
  dropped : Bool
  items : List (Except Error Delivery)
  taken : Nat

structure Store where
  connections : List Endpoint := []
  channels : List Endpoint := []
  signals : List Signal := []
  streams : List Stream := []
  pending : List (String × Delivery) := []
  bindings : List Binding := []
  lastTag : Nat := 0

inductive Notice where
  | silent
  | report (reason : String)
  | drop
  deriving DecidableEq, Repr

def Stream.live (s : Stream) (channel : ChannelId) (queue : String) : Bool :=
  s.attached && !s.dropped && s.channel == channel && s.queue == queue

def Stream.put (x : Except Error Delivery) (s : Stream) : Stream :=
  { s with items := s.items ++ [x] }

namespace Store

def isOpen (ends : List Endpoint) (i : Nat) : Bool := (ends[i]?.map Endpoint.isOpen).getD false

def connectionOpen (s : Store) (i : ConnectionId) : Bool := isOpen s.connections i

def channelOpen (s : Store) (i : ChannelId) : Bool := isOpen s.channels i

def openLink (s : Store) : Store × Link :=
  ({ s with
      connections := s.connections ++ [⟨true, none⟩]
      channels := s.channels ++ [⟨true, none⟩] },
    ⟨s.connections.length, s.channels.length⟩)

def signal (s : Store) (i : SignalId) : Signal := (s.signals[i]?).getD .waiting

def fire (signals : List Signal) (i : SignalId) (x : Signal) : List Signal :=
  signals.modify i fun old => if old.fired then old else x

def tell (signals : List Signal) (e : Endpoint) (x : Signal) : List Signal × Endpoint :=
  ((e.watcher.map fun i => fire signals i x).getD signals, { e with watcher := none })

def notify (signals : List Signal) (e : Endpoint) : Notice → List Signal × Endpoint
  | .silent => (signals, e)
  | .report r => tell signals e (.reported r)
  | .drop => tell signals e .dropped

def watch (signals : List Signal) (e : Endpoint) : List Signal × Endpoint :=
  let (signals, e) := notify signals e .drop
  (signals ++ [.waiting], { e with watcher := some signals.length })

def watchConnection (i : ConnectionId) (s : Store) : Store × SignalId :=
  match s.connections[i]? with
  | none => ({ s with signals := s.signals ++ [.dropped] }, s.signals.length)
  | some e =>
    let (signals, e) := watch s.signals e
    ({ s with signals := signals, connections := s.connections.set i e }, signals.length - 1)

def watchChannel (i : ChannelId) (s : Store) : Store × SignalId :=
  match s.channels[i]? with
  | none => ({ s with signals := s.signals ++ [.dropped] }, s.signals.length)
  | some e =>
    let (signals, e) := watch s.signals e
    ({ s with signals := signals, channels := s.channels.set i e }, signals.length - 1)

def endStreams (i : ChannelId) (s : Store) : Store :=
  { s with streams := s.streams.map fun x =>
      if x.channel = i then { x with attached := false } else x }

def shutConnection (i : ConnectionId) (n : Notice) (s : Store) : Store :=
  match s.connections[i]? with
  | none => s
  | some e =>
    let (signals, e) := notify s.signals { e with isOpen := false } n
    { s with signals := signals, connections := s.connections.set i e }

def shutChannel (i : ChannelId) (n : Notice) (s : Store) : Store :=
  match s.channels[i]? with
  | none => s
  | some e =>
    let (signals, e) := notify s.signals { e with isOpen := false } n
    endStreams i { s with signals := signals, channels := s.channels.set i e }

def bind (b : Binding) (s : Store) : Store :=
  if b ∈ s.bindings then s else { s with bindings := s.bindings ++ [b] }

def subscribe (channel : ChannelId) (queue : String) (s : Store) : Store × StreamId :=
  let waiting := s.pending.filter fun p => p.1 == queue
  ({ s with
      streams := s.streams ++ [⟨channel, queue, true, false, waiting.map fun p => .ok p.2, 0⟩]
      pending := s.pending.filter fun p => p.1 != queue },
    s.streams.length)

def poll (i : StreamId) (s : Store) : Store × Poll :=
  match s.streams[i]? with
  | none => (s, .ended)
  | some x =>
    match x.items[x.taken]? with
    | some d => ({ s with streams := s.streams.set i { x with taken := x.taken + 1 } }, .item d)
    | none => (s, if x.attached then .waiting else .ended)

def dropStream (i : StreamId) (s : Store) : Store :=
  { s with streams := s.streams.modify i fun x => { x with dropped := true } }

/-- The stream that a message of `queue` goes to: of the first open channel in `order` that has a
live one, its oldest. -/
def receiver? (order : List ChannelId) (queue : String) (s : Store) : Option StreamId :=
  order.findSome? fun c =>
    if s.channelOpen c then s.streams.findIdx? fun x => x.live c queue else none

def dispatch (order : List ChannelId) (queue : String) (d : Delivery) (s : Store) : Store :=
  match s.receiver? order queue with
  | some i => { s with streams := s.streams.modify i (Stream.put (.ok d)) }
  | none => { s with pending := s.pending ++ [(queue, d)] }

def arrive (d : Nat → Delivery) (s : Store) : Store × Delivery :=
  ({ s with lastTag := s.lastTag + 1 }, d (s.lastTag + 1))

def deliver (order : List ChannelId) (queue : String) (d : Nat → Delivery) (s : Store) :
    Store × Delivery :=
  let (s, d) := s.arrive d
  (s.dispatch order queue d, d)

def matching (exchange key : String) (s : Store) : List Binding :=
  s.bindings.filter fun b => b.exchange == exchange && b.routingKey == key

def route (order : List ChannelId) (exchange key : String) (m : Envelope) (s : Store) : Store :=
  (s.matching exchange key).foldl (fun s b =>
    (s.deliver order b.queue fun tag => Delivery.new tag exchange key m.body m.headers).1) s

def feed (channel : ChannelId) (x : Except Error Delivery) (s : Store) : Store :=
  { s with streams := s.streams.map fun y =>
      if y.channel = channel ∧ y.attached ∧ !y.dropped then y.put x else y }

end Store

end AmqpClient.Broker
