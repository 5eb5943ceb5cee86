import AmqpClient.Consumer
/-! The task that holds the copy of a failed delivery. It waits out the delay, or until the consumer
is stopped, and then publishes the copy through the channel present at each attempt until the
broker confirms it. An attempt made while the consumer is stopping, or that finds the client
closed, is the last. -/
namespace AmqpClient.Consumer

variable {β : Type} [Broker β]

def afterAttempt (now : Instant) (delay : Duration) (stopping : Bool) : Outcome → RetryPhase
  | .ok () => .done true
  | .error x =>
    if stopping || x = .closed then .done false else .pausing (Instant.wake now delay)

def RetryTask.conclude (now : Instant) (delay : Duration) (a : Attempted) (o : Outcome)
    (r : RetryTask) : RetryTask :=
  { r with phase := afterAttempt now delay a.stopping o, tries := ⟨a, now, o⟩ :: r.tries }

def RetryTask.wake (stopped : Bool) (ends : Instant) (e : Env β) (r : RetryTask) :
    Option (Env β × RetryTask) :=
  if ends ≤ e.now || stopped then some (e, { r with phase := .sampling }) else none

def RetryTask.step (stopped : Bool) (s : Supervisor) (e : Env β) (r : RetryTask) :
    Option (Env β × RetryTask) :=
  match r.phase with
  | .waiting ends => r.wake stopped ends e
  | .sampling => some (e, { r with phase := .opening { began := e.now, stopping := stopped } })
  | .opening a =>
    match s.channel? e.broker with
    | .ok c => some (e, { r with phase := .sending { a with channel := some c } c })
    | .error x => some (e, r.conclude e.now s.reconnectDelay a (.error x))
  | .sending a c =>
    let (e, reply) := e.publish c s.topology.exchangeName s.topology.routingKey r.envelope
    let deadline := Instant.wake e.now defaultPublishTimeout
    some (e, { r with phase := .confirming a (.ofReply e.now deadline reply) })
  | .confirming a c =>
    (c.result? e.now).map fun o => (e, r.conclude e.now s.reconnectDelay a o)
  | .pausing ends => r.wake stopped ends e
  | .done _ => none

def retryStep (i : Nat) (s : Supervisor) (e : Env β) (c : Consumer) :
    Option (Env β × Consumer) :=
  match c.retries[i]? with
  | none => none
  | some r =>
    (r.step c.stopped s e).map fun (e, r) => (e, { c with retries := c.retries.set i r })

def RetryTask.timer? (r : RetryTask) : Option Instant :=
  match r.phase with
  | .waiting ends => some ends
  | .pausing ends => some ends
  | .confirming _ c => some c.timer
  | _ => none

end AmqpClient.Consumer
