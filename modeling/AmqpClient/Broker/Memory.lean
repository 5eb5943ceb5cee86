import AmqpClient.Broker.Store
/-! A broker in memory, shared by all clients. Names can be made to fail, publishes can be made to
fail or never to be answered, and the latest connection can be lost. A message goes to the newest
open channel with a live stream on its queue. -/
namespace AmqpClient.Broker

structure Memory where
  store : Store := {}
  dials : Nat := 0
  failingDials : Nat := 0
  refused : List String := []
  failing : Bool := false
  stalled : Bool := false

namespace Memory

def channelClosed : Error := .channel "channel closed"

def newestFirst (s : Store) : List ChannelId := (List.range s.channels.length).reverse

def dial (m : Memory) : Memory × Except Error Link :=
  let m := { m with dials := m.dials + 1 }
  if 0 < m.failingDials then
    ({ m with failingDials := m.failingDials - 1 }, .error (.connect "connection refused"))
  else
    let (s, l) := m.store.openLink
    ({ m with store := s }, .ok l)

def accepts (m : Memory) (c : ChannelId) (name : String) : Outcome :=
  if !m.store.channelOpen c then .error channelClosed
  else if m.refused.contains name then .error (.declareExchange name)
  else .ok ()

def declare (c : ChannelId) (d : Declaration) : Attempt Memory := fun m =>
  match d with
  | .exchange e => (m, m.accepts c e.name)
  | .queue q => (m, (m.accepts c q.name).mapError fun _ => .declareQueue q.name)
  | .bind b =>
    match m.accepts c b.queue with
    | .ok () => ({ m with store := m.store.bind b }, .ok ())
    | .error e => (m, .error e)

def prefetch (c : ChannelId) : Attempt Memory := fun m =>
  (m, if m.store.channelOpen c then .ok () else .error channelClosed)

def consume (c : ChannelId) (queue : String) (m : Memory) : Memory × Except Error StreamId :=
  if m.store.channelOpen c then
    let (s, i) := m.store.subscribe c queue
    ({ m with store := s }, .ok i)
  else (m, .error channelClosed)

def publish (c : ChannelId) (exchange key : String) (e : Envelope) (m : Memory) : Memory × Reply :=
  if !m.store.channelOpen c then (m, .after 0 (.error (.publish "channel closed")))
  else if m.failing then (m, .after 0 (.error (.publish "NOT_FOUND - no exchange")))
  else if m.stalled then (m, .never)
  else ({ m with store := m.store.route (newestFirst m.store) exchange key e }, .after 0 (.ok ()))

instance : Broker Memory where
  dialTime _ _ := 0
  dial _ m := m.dial
  connectionOpen m := m.store.connectionOpen
  channelOpen m := m.store.channelOpen
  watchConnection i m := let (s, n) := m.store.watchConnection i; ({ m with store := s }, n)
  watchChannel i m := let (s, n) := m.store.watchChannel i; ({ m with store := s }, n)
  signal m := m.store.signal
  declare := declare
  prefetch c _ := prefetch c
  consume c queue _ m := m.consume c queue
  poll i m := let (s, p) := m.store.poll i; ({ m with store := s }, p)
  dropStream i m := { m with store := m.store.dropStream i }
  publish := publish
  settle _ _ _ m := (m, .ok ())
  closeChannel i m := ({ m with store := m.store.shutChannel i .silent }, .ok ())
  closeConnection i m := ({ m with store := m.store.shutConnection i .silent }, .ok ())

def latest (n : Nat) : Option Nat := if n = 0 then none else some (n - 1)

def killChannel (n : Notice) (m : Memory) : Memory :=
  match latest m.store.channels.length with
  | some i => { m with store := m.store.shutChannel i n }
  | none => m

def killConnection (reason : String) (m : Memory) : Memory :=
  let m := m.killChannel .silent
  match latest m.store.connections.length with
  | some i => { m with store := m.store.shutConnection i (.report reason) }
  | none => m

def cancelConsumers (m : Memory) : Memory :=
  match latest m.store.channels.length with
  | some i => { m with store := m.store.endStreams i }
  | none => m

def deliver (queue key : String) (body : Bytes) (headers : Header.Table) (m : Memory) : Memory :=
  { m with store := (m.store.deliver (newestFirst m.store) queue fun tag =>
      Delivery.new tag "" key body headers).1 }

def newDelivery (exchange key : String) (body : Bytes) (headers : Header.Table) (m : Memory) :
    Memory × Delivery :=
  let (s, d) := m.store.arrive fun tag => Delivery.new tag exchange key body headers
  ({ m with store := s }, d)

def openConnections (m : Memory) : Nat := m.store.connections.countP Endpoint.isOpen

def subscriptions (m : Memory) : Nat := m.store.streams.length

end Memory

end AmqpClient.Broker
