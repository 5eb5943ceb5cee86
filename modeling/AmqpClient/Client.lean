import AmqpClient.Consumer.Calls
import AmqpClient.Consumer.Loop
import AmqpClient.Consumer.RetryTask
import AmqpClient.Consumer.Worker
import AmqpClient.Service
/-! A client: its supervisor, what it does with it, and the calls in progress on it. -/
namespace AmqpClient

inductive Role where
  | supervisor
  | producer (timeout : Duration)
  | service (flavour : Flavour) (name : String) (timeout : Duration)
  | consumer (c : Consumer)

inductive Call where
  | publish (p : Publication)
  | start (x : Consumer.Starting)
  | closeConsumer (x : Consumer.ConsumerClosing)
  | close (x : Closing)

structure Client where
  supervisor : Supervisor
  role : Role
  calls : List Call := []
  held : Bool := true

inductive Plan where
  | supervisor (t : Topology) (reconnectDelay : Duration)
  | producer (t : Topology) (o : ProducerOptions)
  | service (flavour : Flavour) (name : String) (t : Topology) (o : ProducerOptions)
  | consumer (t : Topology) (r : RetryPolicy) (o : ConsumerOptions) (h : Handler)

inductive Activity where
  | recovery
  | watcher (i : Nat)
  | loop (i : Nat)
  | worker (i : Nat)
  | retry (i : Nat)
  | call (i : Nat)
  deriving DecidableEq, Repr

namespace Plan

def ofSettings (f : Flavour) (s : ServiceSettings) (o : ProducerOptions) : Plan :=
  .service f s.serviceName (s.topology.getD (Service.defaultTopology f)) o

def topology : Plan → Topology
  | supervisor t _ => t
  | producer t _ => t
  | service _ _ t _ => t
  | consumer t _ _ _ => t

def reconnectDelay : Plan → Duration
  | supervisor _ d => d
  | producer _ o => o.reconnectDelay
  | service _ _ _ o => o.reconnectDelay
  | consumer _ _ o _ => o.reconnectDelay

def ownCheck : Plan → Outcome
  | supervisor .. => .ok ()
  | producer .. => .ok ()
  | service _ name _ _ => Service.check name
  | consumer t _ o _ => Consumer.check t o

def check (p : Plan) : Outcome :=
  match p.ownCheck with
  | .ok () => p.topology.validate
  | .error x => .error x

def role : Plan → Role
  | supervisor .. => .supervisor
  | producer _ o => .producer o.publishTimeout
  | service f name _ o => .service f name o.publishTimeout
  | consumer _ r o h => .consumer (Consumer.new r o h)

end Plan

def Call.result? : Call → Option CallResult
  | .publish { phase := .done o, .. } => some (.returned o)
  | .publish { phase := .overflowed, .. } => some .overflowed
  | .start (.done o) => some (.returned o)
  | .closeConsumer (.closing (.done o)) => some (.returned o)
  | .close (.done o) => some (.returned o)
  | _ => none

def Call.timer? : Call → Option Instant
  | .publish p => p.timer?
  | .closeConsumer x => x.timer?
  | _ => none

namespace Client

variable {β : Type} [Broker β]

def consumer? (c : Client) : Option Consumer :=
  match c.role with
  | .consumer x => some x
  | _ => none

/-- Someone can still ask something of it: a holder, a task of the consumer, or a call. -/
def alive (c : Client) : Bool :=
  c.held || c.consumer?.any Consumer.busy || c.calls.any (·.result?.isNone)

def setCall (i : Nat) (x : Call) (c : Client) : Client := { c with calls := c.calls.set i x }

def callStep (i : Nat) (e : Env β) (c : Client) : Option (Env β × Client) :=
  match c.calls[i]?, c.role with
  | some (.publish p), _ =>
    (p.step c.supervisor e).map fun (e, p) => (e, c.setCall i (.publish p))
  | some (.close x), _ =>
    (c.supervisor.closeStep e x).map fun (e, s, x) =>
      (e, { c with supervisor := s }.setCall i (.close x))
  | some (.start x), .consumer k =>
    (k.startStep i c.supervisor x).map fun (k, x) =>
      (e, { c with role := .consumer k }.setCall i (.start x))
  | some (.closeConsumer x), .consumer k =>
    (k.closeStep i e c.supervisor x).map fun (e, s, k, x) =>
      (e, { c with supervisor := s, role := .consumer k }.setCall i (.closeConsumer x))
  | _, _ => none

def consumerStep (f : Supervisor → Env β → Consumer → Option (Env β × Consumer)) (e : Env β)
    (c : Client) : Option (Env β × Client) :=
  match c.role with
  | .consumer k => (f c.supervisor e k).map fun (e, k) => (e, { c with role := .consumer k })
  | _ => none

def step (a : Activity) (preferStop : Bool) (e : Env β) (c : Client) : Option (Env β × Client) :=
  match a with
  | .recovery =>
    (c.supervisor.recoveryStep c.alive preferStop e).map fun (e, s) => (e, { c with supervisor := s })
  | .watcher i =>
    (c.supervisor.watcherStep i preferStop e).map fun (e, s) => (e, { c with supervisor := s })
  | .loop i => c.consumerStep (fun s e k => k.loopStep i preferStop s e) e
  | .worker i => c.consumerStep (fun _ e k => k.workerStep i e) e
  | .retry i => c.consumerStep (fun s e k => k.retryStep i s e) e
  | .call i => c.callStep i e

def running (ended : α → Bool) (tasks : List α) : List Nat :=
  tasks.zipIdx.filterMap fun (x, i) => if ended x then none else some i

def activities (c : Client) : List Activity :=
  (running (·.result?.isSome) c.calls).map .call ++
    (match c.consumer? with
      | none => []
      | some k =>
        (running (·.phase.finished) k.loops).map .loop ++
          (running (·.phase.finished) k.workers).map .worker ++
          (running (·.phase.finished) k.retries).map .retry) ++
    (running (·.phase != .watching) c.supervisor.watchers).map .watcher ++ [.recovery]

def timers (c : Client) : List Instant :=
  c.calls.filterMap Call.timer? ++
    (match c.consumer? with
      | none => []
      | some k =>
        k.loops.filterMap (·.timer?) ++ k.workers.filterMap (·.timer?) ++
          k.retries.filterMap (·.timer?)) ++
    c.supervisor.timer?.toList

end Client

end AmqpClient
