import AmqpClient.Supervisor
/-! One publish call. It fails at once without a healthy channel, otherwise makes one attempt, and
ends with the broker's answer or, if that has not come by the deadline, without it. The answer is
looked at before the deadline. -/
namespace AmqpClient

structure Confirmation where
  answered : Option (Instant × Outcome)
  deadline : Instant

namespace Confirmation

def ofReply (now deadline : Instant) : Reply → Confirmation
  | .after n o => ⟨some (now + n, o), deadline⟩
  | .never => ⟨none, deadline⟩

def result? (now : Instant) (c : Confirmation) : Option Outcome :=
  let late : Option Outcome := if c.deadline ≤ now then some (.error .publishTimeout) else none
  match c.answered with
  | some (t, o) => if t ≤ now then some o else late
  | none => late

def timer (c : Confirmation) : Instant :=
  match c.answered with
  | some (t, _) => min t c.deadline
  | none => c.deadline

end Confirmation

/-- What to publish: without a routing key the topology's is used, without a deadline one is set
when the attempt is made. -/
structure Message where
  body : Bytes
  headers : Option Header.Table := none
  routingKey : Option String := none
  trace : List (String × String) := []
  deadline : Option Instant := none

inductive Publishing where
  | queued (limit : Duration)
  | opening
  | sending (channel : ChannelId)
  | confirming (c : Confirmation)
  | done (o : Outcome)
  | overflowed

structure Publication where
  message : Message
  timeout : Duration
  phase : Publishing := .opening

namespace Publication

variable {β : Type} [Broker β]

def backgroundTimeout : Duration := .ofSeconds 5

def envelope (m : Message) (id : String) : Envelope :=
  let e := Envelope.json id m.body m.headers
  { e with headers := Trace.inject m.trace e.headers }

def routingKey (t : Topology) (m : Message) : String := m.routingKey.getD t.routingKey

def deadline? (now : Instant) (p : Publication) : Option Instant :=
  match p.message.deadline with
  | some t => some t
  | none => Instant.add? now p.timeout

def step (s : Supervisor) (e : Env β) (p : Publication) : Option (Env β × Publication) :=
  match p.phase with
  | .queued limit =>
    match Instant.add? e.now limit with
    | some t =>
      some (e, { p with message := { p.message with deadline := some t }, phase := .opening })
    | none => some (e, { p with phase := .overflowed })
  | .opening =>
    match s.channel? e.broker with
    | .ok c => some (e, { p with phase := .sending c })
    | .error x => some (e, { p with phase := .done (.error x) })
  | .sending c =>
    match p.deadline? e.now with
    | none => some (e, { p with phase := .overflowed })
    | some t =>
      let (e, id) := e.freshId
      let (e, r) := e.publish c s.topology.exchangeName (routingKey s.topology p.message)
        (envelope p.message id)
      some (e, { p with phase := .confirming (.ofReply e.now t r) })
  | .confirming c => (c.result? e.now).map fun o => (e, { p with phase := .done o })
  | .done _ => none
  | .overflowed => none

def timer? (p : Publication) : Option Instant :=
  match p.phase with
  | .confirming c => some c.timer
  | _ => none

end Publication

end AmqpClient
