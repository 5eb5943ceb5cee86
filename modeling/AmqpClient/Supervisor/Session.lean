import AmqpClient.Supervisor.Establish
/-! The session a client works through: the pair of resources of the present generation. -/
namespace AmqpClient

inductive SessionState where
  | connected
  | reconnecting
  | closed
  deriving DecidableEq, Repr

structure Session where
  connection : Option ConnectionId
  channel : Option ChannelId
  state : SessionState
  generation : Nat
  deriving DecidableEq, Repr

namespace Session

variable {β : Type} [Broker β]

def ofLink (l : Link) : Session := ⟨some l.connection, some l.channel, .connected, 0⟩

def healthy (b : β) (s : Session) : Bool :=
  s.state == .connected && s.connection.any (Broker.connectionOpen b) &&
    s.channel.any (Broker.channelOpen b)

def channel? (b : β) (s : Session) : Except Error ChannelId :=
  if s.state = .closed then .error .closed
  else match s.channel with
    | some c => if s.healthy b then .ok c else .error .notConnected
    | none => .error .notConnected

def held (s : Session) : Release := { channel := s.channel, connection := s.connection }

def vacate (state : SessionState) (s : Session) : Session :=
  { s with connection := none, channel := none, state := state }

def renew (l : Link) (s : Session) : Session :=
  ⟨some l.connection, some l.channel, .connected, s.generation + 1⟩

end Session

end AmqpClient
