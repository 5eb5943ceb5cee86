import AmqpClient.Env
/-! Letting go of a channel and a connection, in that order, one call at a time. Both are closed
even if the first call fails, and the first failure is kept. -/
namespace AmqpClient

structure Release where
  channel : Option ChannelId
  connection : Option ConnectionId
  failure : Option Error := none
  deriving DecidableEq, Repr

namespace Release

variable {β : Type} [Broker β]

def ofLink (l : Link) : Release := { channel := some l.channel, connection := some l.connection }

def keepFirst (o : Outcome) (f : Option Error) : Option Error :=
  match f, o with
  | some x, _ => some x
  | none, .error x => some x
  | none, .ok () => none

def outcome (r : Release) : Outcome :=
  match r.failure with
  | some x => .error x
  | none => .ok ()

def step (e : Env β) (r : Release) : Option (Env β × Release) :=
  match r.channel, r.connection with
  | some c, _ =>
    let (e, o) := e.closeChannel c
    some (e, { r with channel := none, failure := keepFirst o r.failure })
  | none, some c =>
    let (e, o) := e.closeConnection c
    some (e, { r with connection := none, failure := keepFirst o r.failure })
  | none, none => none

end Release

end AmqpClient
