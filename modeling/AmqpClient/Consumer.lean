import AmqpClient.Publication
import AmqpClient.Retry
/-! The state of a consumer: its receive loop, the workers that process deliveries, the tasks that
hold copies of failed ones until they are published again, and the calls that start and close it. -/
namespace AmqpClient

structure HandlerRun where
  takes : Nat := 0
  result : Except String Unit := .ok ()

/-- A handler may look at every delivery it was called with before, the latest first. -/
abbrev Handler := List Delivery → Delivery → HandlerRun

inductive Disposition where
  | acked
  | retried (attempt : UInt32) (delay : Duration)
  | deadLettered
  deriving DecidableEq, Repr

namespace Consumer

inductive LoopPhase where
  | checking
  | marking
  | opening
  | prefetching (c : ChannelId)
  | subscribing (c : ChannelId)
  | reading (c : ChannelId) (stream : StreamId)
  | admitting (c : ChannelId) (stream : StreamId) (d : Delivery)
  | pausing (ends : Instant) (stream : Option StreamId)
  | locking
  | clearing
  | unlocking
  | done

structure Loop where
  seen : Nat
  generation : Nat
  phase : LoopPhase := .checking

inductive WorkerPhase where
  | starting
  | handling (ends : Instant) (result : Except String Unit)
  | scheduling (failure : String)
  | settling (s : Settlement) (disposition : Disposition)
  | finishing (disposition : Disposition)
  | done (disposition : Disposition)

structure Worker where
  delivery : Delivery
  channel : ChannelId
  span : Trace.Span
  phase : WorkerPhase := .starting

structure Attempted where
  began : Instant
  stopping : Bool
  channel : Option ChannelId := none
  deriving DecidableEq, Repr

structure Tried where
  attempt : Attempted
  ended : Instant
  outcome : Outcome

inductive RetryPhase where
  | waiting (ends : Instant)
  | sampling
  | opening (a : Attempted)
  | sending (a : Attempted) (c : ChannelId)
  | confirming (a : Attempted) (c : Confirmation)
  | pausing (ends : Instant)
  | done (confirmed : Bool)

structure RetryTask where
  origin : Nat
  envelope : Envelope
  phase : RetryPhase
  tries : List Tried := []

inductive Holder where
  | call (i : Nat)
  | loop (i : Nat)
  deriving DecidableEq, Repr

inductive Starting where
  | locking
  | checkingStop
  | checkingRunning
  | spawning
  | unlocking (o : Outcome)
  | done (o : Outcome)

inductive ConsumerClosing where
  | locking
  | clearing
  | unlocking
  | raising
  | grace (ends : Instant)
  | collecting
  | joining (tasks : List Nat)
  | closing (c : Closing)

end Consumer

structure Consumer where
  retry : RetryPolicy
  options : ConsumerOptions
  handler : Handler
  consuming : Bool := false
  lock : Option Consumer.Holder := none
  stopped : Bool := false
  permits : Nat
  loops : List Consumer.Loop := []
  workers : List Consumer.Worker := []
  retries : List Consumer.RetryTask := []
  unreaped : List Nat := []
  handled : List Delivery := []

namespace Consumer

def maxPermits : Nat := (Nat.pow 2 64 - 1) / 8

def closeGrace : Nat := 100

def new (r : RetryPolicy) (o : ConsumerOptions) (h : Handler) : Consumer :=
  { retry := r, options := o, handler := h, permits := min o.maxInFlight.toNat maxPermits }

def check (t : Topology) (o : ConsumerOptions) : Outcome :=
  if t.queueName = "" then .error (.invalidConfig "consumer requires a queue name")
  else if o.maxInFlight = 0 then .error (.invalidConfig "max_in_flight must be at least 1")
  else .ok ()

def LoopPhase.finished : LoopPhase → Bool
  | .done => true
  | _ => false

def WorkerPhase.finished : WorkerPhase → Bool
  | .done _ => true
  | _ => false

def RetryPhase.finished : RetryPhase → Bool
  | .done _ => true
  | _ => false

def busy (c : Consumer) : Bool :=
  c.loops.any (!·.phase.finished) || c.workers.any (!·.phase.finished) ||
    c.retries.any (!·.phase.finished)

def retryFinished (c : Consumer) (i : Nat) : Bool :=
  (c.retries[i]?.map fun r => r.phase.finished).getD true

end Consumer

end AmqpClient
