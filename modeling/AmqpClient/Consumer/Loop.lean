import AmqpClient.Consumer
/-! The receive loop. It subscribes on the present channel and hands each delivery to a worker that
holds a permit; it subscribes again when the channel was replaced, when the stream failed or ended,
and when there was no channel. A stop ends it. -/
namespace AmqpClient.Consumer

variable {β : Type} [Broker β]

def tracer : String := "amqp consumer"

def setLoop (i : Nat) (l : Loop) (c : Consumer) : Consumer := { c with loops := c.loops.set i l }

def Loop.pause (now : Instant) (d : Duration) (stream : Option StreamId) (l : Loop) : Loop :=
  { l with phase := .pausing (Instant.wake now d) stream }

def Loop.goto (p : LoopPhase) (l : Loop) : Loop := { l with phase := p }

def dropStream? (e : Env β) (stream : Option StreamId) : Env β :=
  match stream with
  | some x => e.dropStream x
  | none => e

def worker (d : Delivery) (ch : ChannelId) : Worker :=
  ⟨d, ch, Trace.Span.start tracer d.routingKey d.headers, .starting⟩

def loopStep (i : Nat) (preferStop : Bool) (s : Supervisor) (e : Env β) (c : Consumer) :
    Option (Env β × Consumer) :=
  match c.loops[i]? with
  | none => none
  | some l =>
    let go (e : Env β) (p : LoopPhase) : Option (Env β × Consumer) :=
      some (e, c.setLoop i (l.goto p))
    let pause (e : Env β) (d : Duration) (stream : Option StreamId) : Option (Env β × Consumer) :=
      some (e, c.setLoop i (l.pause e.now d stream))
    match l.phase with
    | .checking => go e (if c.stopped then .locking else .marking)
    | .marking => some (e, c.setLoop i { l with seen := s.announced, phase := .opening })
    | .opening =>
      match s.channel? e.broker with
      | .ok ch =>
        some (e, c.setLoop i { l with generation := s.session.generation, phase := .prefetching ch })
      | .error .closed => go e .locking
      | .error _ => pause e c.options.unavailableBackoff none
    | .prefetching ch =>
      match e.prefetch ch c.options.prefetchCount with
      | (e, .ok ()) => go e (.subscribing ch)
      | (e, .error _) => pause e c.options.unavailableBackoff none
    | .subscribing ch =>
      match e.consume ch s.topology.queueName c.options.consumerTag with
      | (e, .ok stream) => go e (.reading ch stream)
      | (e, .error _) => pause e c.options.unavailableBackoff none
    | .reading ch stream =>
      if c.stopped then go (e.dropStream stream) .locking
      else if l.seen ≠ s.announced then go (e.dropStream stream) .checking
      else
        match e.poll stream with
        | (_, .waiting) => none
        | (e, .item (.ok d)) => go e (.admitting ch stream d)
        | (e, .item (.error _)) => pause e c.options.resubscribeDelay (some stream)
        | (e, .ended) => pause e c.options.resubscribeDelay (some stream)
    | .admitting ch stream d =>
      if 0 < c.permits && !(c.stopped && preferStop) then
        some (e, { c.setLoop i (l.goto (.reading ch stream)) with
          permits := c.permits - 1, workers := c.workers ++ [worker d ch] })
      else if c.stopped then go (e.dropStream stream) .locking
      else none
    | .pausing ends stream =>
      if ends ≤ e.now && !(c.stopped && preferStop) then go (dropStream? e stream) .checking
      else if c.stopped then go (dropStream? e stream) .locking
      else none
    | .locking =>
      if c.lock.isNone then
        some (e, { c.setLoop i (l.goto .clearing) with lock := some (.loop i) })
      else none
    | .clearing => some (e, { c.setLoop i (l.goto .unlocking) with consuming := false })
    | .unlocking => some (e, { c.setLoop i (l.goto .done) with lock := none })
    | .done => none

def Loop.timer? (l : Loop) : Option Instant :=
  match l.phase with
  | .pausing ends _ => some ends
  | _ => none

end AmqpClient.Consumer
