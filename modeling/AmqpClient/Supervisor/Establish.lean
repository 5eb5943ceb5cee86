import AmqpClient.Supervisor.Release
/-! Setting up a link: one dial, then every declaration of the topology on the new channel, then
both resources are watched. What was opened is closed again if a declaration fails. -/
namespace AmqpClient

inductive Establish where
  | start
  | dialing (number : Nat) (ends : Instant)
  | installing (link : Link) (rest : List Declaration)
  | discarding (r : Release) (cause : Error)
  | failed (cause : Error)
  | watchingConnection (link : Link)
  | watchingChannel (link : Link) (connectionSignal : SignalId)
  | ready (link : Link) (connectionSignal channelSignal : SignalId)
  deriving DecidableEq, Repr

namespace Establish

variable {β : Type} [Broker β]

def step (client : String) (t : Topology) (e : Env β) : Establish → Option (Env β × Establish)
  | .start =>
    let (e, number) := e.beginDial client
    some (e, .dialing number (Instant.afterSleep e.now (Broker.dialTime e.broker client)))
  | .dialing number ends =>
    if e.now < ends then none
    else match e.dial client number with
      | (e, .ok link) => some (e, .installing link t.plan)
      | (e, .error x) => some (e, .failed x)
  | .installing link [] => some (e, .watchingConnection link)
  | .installing link (d :: rest) =>
    match e.declare link.channel d with
    | (e, .ok ()) => some (e, .installing link rest)
    | (e, .error x) => some (e, .discarding (Release.ofLink link) x)
  | .discarding r x =>
    match r.step e with
    | some (e, r) => some (e, .discarding r x)
    | none => some (e, .failed x)
  | .watchingConnection link =>
    let (e, s) := e.watchConnection link.connection
    some (e, .watchingChannel link s)
  | .watchingChannel link s =>
    let (e, s') := e.watchChannel link.channel
    some (e, .ready link s s')
  | .failed _ => none
  | .ready .. => none

def timer? : Establish → Option Instant
  | .dialing _ ends => some ends
  | _ => none

end Establish

end AmqpClient
