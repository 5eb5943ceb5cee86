import AmqpClient.Broker.Store
/-! A broker in memory whose faults are scripted for each client and kind of operation. A fault has
a count of uses or lasts for ever; one that names an exchange or queue is used before one that does
not. A message goes to the first open channel with a live stream on its queue, clients in order of
their names and the newest channel of each first. -/
namespace AmqpClient.Broker

inductive FaultKind where
  | dial
  | openChannel
  | exchange
  | queue
  | bind
  | qos
  | consume
  | publish
  | stallPublish
  | ack
  | reject
  | closeChannel
  | closeConnection
  deriving DecidableEq, Repr

structure Fault where
  client : String
  kind : FaultKind
  name : Option String
  left : Option Nat
  deriving DecidableEq, Repr

structure Scripted where
  store : Store := {}
  owners : List String := []
  faults : List Fault := []
  dialTimes : Assoc Nat := []

namespace Scripted

def channelClosed : Error := .channel "channel closed"

def owner (m : Scripted) (i : Nat) : String := (m.owners[i]?).getD ""

def setFault (f : Fault) (m : Scripted) : Scripted :=
  let others := m.faults.filter fun g =>
    !(g.client == f.client && g.kind == f.kind && g.name == f.name)
  { m with faults := if f.left = some 0 then others else others ++ [f] }

def findFault (m : Scripted) (client : String) (kind : FaultKind) (name : Option String) :
    Option Fault :=
  m.faults.find? fun f => f.client == client && f.kind == kind && f.name == name

def spend (f : Fault) (m : Scripted) : Scripted :=
  match f.left with
  | none => m
  | some n => m.setFault { f with left := some (n - 1) }

def use (client : String) (kind : FaultKind) (name : Option String) (m : Scripted) :
    Scripted × Bool :=
  match (name.bind fun n => m.findFault client kind (some n)) <|> m.findFault client kind none with
  | some f => (m.spend f, true)
  | none => (m, false)

/-- Channels by the name of their client, the newest of each client first. -/
def order (m : Scripted) : List ChannelId :=
  (List.range m.store.channels.length).reverse.mergeSort fun a b => decide (m.owner a ≤ m.owner b)

def dial (client : String) (m : Scripted) : Scripted × Except Error Link :=
  match m.use client .dial none with
  | (m, true) => (m, .error (.connect "connection refused"))
  | (m, false) =>
    match m.use client .openChannel none with
    | (m, true) => (m, .error (.channel "channel limit reached"))
    | (m, false) =>
      let (s, l) := m.store.openLink
      ({ m with store := s, owners := m.owners ++ [client] }, .ok l)

def guarded (c : ChannelId) (kind : FaultKind) (name : Option String) (whenShut failed : Error) :
    Attempt Scripted := fun m =>
  if !m.store.channelOpen c then (m, .error whenShut)
  else match m.use (m.owner c) kind name with
    | (m, true) => (m, .error failed)
    | (m, false) => (m, .ok ())

def declare (c : ChannelId) : Declaration → Attempt Scripted
  | .exchange e => guarded c .exchange (some e.name) channelClosed (.declareExchange e.name)
  | .queue q => guarded c .queue (some q.name) channelClosed (.declareQueue q.name)
  | .bind b =>
    (guarded c .bind (some b.queue) channelClosed (.bind b.exchange b.queue)).andThen fun m =>
      ({ m with store := m.store.bind b }, .ok ())

def consume (c : ChannelId) (queue : String) (m : Scripted) : Scripted × Except Error StreamId :=
  match guarded c .consume none channelClosed (.subscribe queue) m with
  | (m, .error e) => (m, .error e)
  | (m, .ok ()) =>
    let (s, i) := m.store.subscribe c queue
    ({ m with store := s }, .ok i)

def publish (c : ChannelId) (exchange key : String) (e : Envelope) (m : Scripted) :
    Scripted × Reply :=
  if !m.store.channelOpen c then (m, .after 0 (.error (.publish "channel closed")))
  else match m.use (m.owner c) .stallPublish none with
    | (m, true) => (m, .never)
    | (m, false) =>
      match m.use (m.owner c) .publish none with
      | (m, true) => (m, .after 0 (.error (.publish "NOT_FOUND - no exchange")))
      | (m, false) =>
        ({ m with store := m.store.route m.order exchange key e }, .after 0 (.ok ()))

def settle (c : ChannelId) : Settlement → Attempt Scripted
  | .ack => guarded c .ack none (.ack "channel closed") (.ack "ack refused")
  | .reject _ => guarded c .reject none (.reject "channel closed") (.reject "reject refused")

def closing (client : String) (kind : FaultKind) (failed : Error) : Attempt Scripted := fun m =>
  match m.use client kind none with
  | (m, true) => (m, .error failed)
  | (m, false) => (m, .ok ())

def closeChannel (i : ChannelId) : Attempt Scripted := fun m =>
  closing (m.owner i) .closeChannel (.close "channel close refused")
    { m with store := m.store.shutChannel i .silent }

def closeConnection (i : ConnectionId) : Attempt Scripted := fun m =>
  closing (m.owner i) .closeConnection (.close "connection close refused")
    { m with store := m.store.shutConnection i .silent }

instance : Broker Scripted where
  dialTime m client := (Assoc.find? client m.dialTimes).getD 0
  dial := dial
  connectionOpen m := m.store.connectionOpen
  channelOpen m := m.store.channelOpen
  watchConnection i m := let (s, n) := m.store.watchConnection i; ({ m with store := s }, n)
  watchChannel i m := let (s, n) := m.store.watchChannel i; ({ m with store := s }, n)
  signal m := m.store.signal
  declare := declare
  prefetch c _ := guarded c .qos none channelClosed (.qos "qos refused")
  consume c queue _ m := m.consume c queue
  poll i m := let (s, p) := m.store.poll i; ({ m with store := s }, p)
  dropStream i m := { m with store := m.store.dropStream i }
  publish := publish
  settle c _ := settle c
  closeChannel := closeChannel
  closeConnection := closeConnection

def connectionsOf (m : Scripted) (client : String) : List ConnectionId :=
  (List.range m.owners.length).filter fun i => m.owner i == client

def connection? (m : Scripted) (client : String) : Option Nat → Option ConnectionId
  | none => (m.connectionsOf client).getLast?
  | some 0 => none
  | some (k + 1) => (m.connectionsOf client)[k]?

inductive Loss where
  | connection
  | channel
  | both
  deriving DecidableEq, Repr

def lose (i : ConnectionId) (l : Loss) (n : Notice) (m : Scripted) : Scripted :=
  let ofChannel := if l = .connection then .silent else n
  let store := m.store.shutChannel i ofChannel
  { m with store := if l = .channel then store else store.shutConnection i n }

def deliver (queue : String) (d : Nat → Delivery) (m : Scripted) : Scripted × Delivery :=
  let (s, d) := m.store.deliver m.order queue d
  ({ m with store := s }, d)

end Scripted

end AmqpClient.Broker
