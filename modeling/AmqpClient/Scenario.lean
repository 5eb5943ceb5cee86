import AmqpClient.Scenario.Command
import AmqpClient.Scenario.Handler
import AmqpClient.World.Schedule
/-! Scenarios: steps taken one after the other on clients, the broker and the clock. Each step is
answered, and everything due at its instant is done, before the next. Clients go by names; a name
given again stands for the new client. -/
namespace AmqpClient.Scenario

def ordersTopology : Topology :=
  ((((Topology.new "orders").ofKind .direct).withQueue "orders.created").underKey
    "order.created").withDeadLetter "orders.dlx" "orders.dlq" "order.failed"

structure PublishRequest where
  body : Bytes := []
  headers : Option Header.Table := none
  kind : String := ""
  payload : Assoc Json := []
  key : Option String := none
  trace : List (String × String) := []
  deadline : Option Nat := none

inductive ChannelCall where
  | isOpen
  | exchange (name : String)
  | queue (name : String)
  | bind (queue exchange key : String)
  | qos (count : UInt16)
  | publish (exchange key : String) (body : Bytes) (headers : Option Header.Table)
  | close
  | consume (queue : String)

inductive Step (β : Type) (κ : Type) where
  | make (id : String) (p : Option Plan)
  | publish (id : String) (r : PublishRequest) (background : Option String)
  | publishAsync (id : String) (r : PublishRequest)
  | start (id : String)
  | close (id : String) (background : Option String)
  | drop (id : String)
  | hold (id : String)
  | call (id : String) (c : ChannelCall)
  | advance (milliseconds : Nat)
  | waitUntil (count : Nat) (measure : Env β → Nat)
  | broker (k : κ)

inductive Answer where
  | nothing
  | outcome (o : Outcome)
  | overflowed
  | refused
  | supervisor (exchange : String) (reconnectDelay : Duration)
  | producer (exchange : String)
  | service (name : String)
  | consumer (queue : String)
  | started
  | noClient
  | noChannel
  | flag (b : Bool)
  | messages (ds : List Delivery)
  | stalled
  | reached (b : Bool)
  | command (a : CommandAnswer)

inductive View where
  | supervisor (connected : Bool) (state : SessionState) (generation : Nat) (shutdown : Bool)
      (channel : Outcome)
  | consumer (connected consuming : Bool)
  | producer (connected : Bool)

structure Lane where
  client : String
  number : Nat
  deriving DecidableEq, Repr

structure Line where
  time : Instant
  lane : Option Lane
  background : Option String
  fact : Fact

structure Report where
  time : Instant
  answer : Answer
  lines : List Line
  views : Assoc View

structure Stage (β : Type) where
  world : World β
  handles : Assoc Nat := []
  kept : Assoc ChannelId := []
  background : List (Nat × Nat × String) := []
  reported : Nat := 0
  links : List (Link × Lane) := []

namespace Stage

variable {β : Type}

def client? (id : String) (s : Stage β) : Option (Nat × Client) := do
  let i ← Assoc.find? id s.handles
  let c ← s.world.clients[i]?
  some (i, c)

def laneOfChannel (c : ChannelId) (s : Stage β) : Option Lane :=
  (s.links.find? fun x => x.1.channel == c).map Prod.snd

def laneOfConnection (c : ConnectionId) (s : Stage β) : Option Lane :=
  (s.links.find? fun x => x.1.connection == c).map Prod.snd

def line (x : Entry) (s : Stage β) : Stage β × Line :=
  let plain (lane : Option Lane) : Line := ⟨x.time, lane, none, x.fact⟩
  match x.fact with
  | .dialed client number r =>
    let lane : Lane := ⟨client, number⟩
    match r with
    | .ok l => ({ s with links := s.links ++ [(l, lane)] }, plain (some lane))
    | .error _ => (s, plain (some lane))
  | .declared c _ _ => (s, plain (s.laneOfChannel c))
  | .prefetched c _ _ => (s, plain (s.laneOfChannel c))
  | .subscribed c _ _ _ => (s, plain (s.laneOfChannel c))
  | .published c _ _ _ _ => (s, plain (s.laneOfChannel c))
  | .closedChannel c _ => (s, plain (s.laneOfChannel c))
  | .closedConnection c _ => (s, plain (s.laneOfConnection c))
  | .ended i j _ =>
    let name := (s.background.find? fun b => b.1 == i && b.2.1 == j).map fun b => b.2.2
    (s, ⟨x.time, none, name, x.fact⟩)
  | _ => (s, plain none)

def collect : List Entry → Stage β → Stage β × List Line
  | [], s => (s, [])
  | x :: rest, s =>
    let (s, l) := s.line x
    let (s, ls) := collect rest s
    (s, l :: ls)

variable [Broker β]

def view (b : β) (c : Client) : View :=
  let connected := c.supervisor.isConnected b
  match c.role with
  | .supervisor =>
    .supervisor connected c.supervisor.session.state c.supervisor.announced c.supervisor.stopped
      ((c.supervisor.channel? b).map fun _ => ())
  | .consumer k => .consumer connected k.consuming
  | _ => .producer connected

def views (s : Stage β) : Assoc View :=
  s.handles.filterMap fun (id, i) =>
    (s.world.clients[i]?).map fun c => (id, view s.world.env.broker c)

def report (a : Answer) (s : Stage β) : Stage β × Report :=
  let journal := s.world.env.journal
  let fresh := (journal.take (journal.length - s.reported)).reverse
  let (s, lines) := { s with reported := journal.length }.collect fresh
  (s, ⟨s.world.env.now, a, lines, s.views⟩)

def callResult? (i j : Nat) (w : World β) : Option CallResult := do
  let c ← w.clients[i]?
  let x ← c.calls[j]?
  x.result?

def finish (i j : Nat) (w : World β) : Answer :=
  match callResult? i j w with
  | some (.returned o) => .outcome o
  | some .overflowed => .overflowed
  | none => .stalled

def invoke (i : Nat) (c : Client) (x : Call) (background : Option String) (s : Stage β) :
    Stage β × Answer :=
  let j := c.calls.length
  let w := s.world.call i x
  match background with
  | some name =>
    ({ s with world := w, background := s.background ++ [(i, j, name)] }, .started)
  | none =>
    let w := w.await fun w => (callResult? i j w).isSome
    ({ s with world := w }, finish i j w)

def drop (id : String) (s : Stage β) : Stage β :=
  match Assoc.find? id s.handles with
  | some i =>
    { s with
      world := s.world.letGo i
      handles := s.handles.filter fun h => h.1 != id }
  | none => s

def opened (p : Plan) : Answer :=
  match p with
  | .supervisor t d => .supervisor t.exchangeName d
  | .producer t _ => .producer t.exchangeName
  | .service _ name _ _ => .service name
  | .consumer t _ _ _ => .consumer t.queueName

def openingPhase (k : Nat) (w : World β) : Option OpeningPhase := (w.openings[k]?).map Opening.phase

def made : Option OpeningPhase → Bool
  | some (.opened _) => true
  | some (.failed _) => true
  | _ => false

def make (id : String) (p : Plan) (s : Stage β) : Stage β × Answer :=
  let k := s.world.openings.length
  let w := (s.world.make id p).await fun w => made (openingPhase k w)
  let s := { s with world := w }
  match openingPhase k w with
  | some (.opened i) =>
    let s := s.drop id
    ({ s with handles := Assoc.insert id i s.handles }, opened p)
  | some (.failed x) => (s, .outcome (.error x))
  | _ => (s, .stalled)

def message (now : Instant) (unix : Int) (role : Role) (r : PublishRequest) :
    Option (Message × Duration) :=
  let deadline := r.deadline.map (now + ·)
  match role with
  | .producer timeout =>
    some ({ body := r.body, headers := r.headers, routingKey := r.key, trace := r.trace, deadline },
      timeout)
  | .service f name timeout =>
    some ({ Service.message f name unix r.kind r.payload r.key with trace := r.trace, deadline },
      timeout)
  | _ => none

def publish (i : Nat) (c : Client) (r : PublishRequest) (background : Option String)
    (s : Stage β) : Stage β × Answer :=
  match message s.world.env.now s.world.env.unix c.role r with
  | some (m, timeout) => s.invoke i c (.publish ⟨m, timeout, .opening⟩) background
  | none => (s, .noClient)

def publishAsync (i : Nat) (c : Client) (r : PublishRequest) (s : Stage β) : Stage β × Answer :=
  match c.role with
  | .service f name timeout =>
    let named := if f = .plain then r.key else none
    let m := Service.message f name s.world.env.unix r.kind r.payload named
    let x : Call := .publish ⟨m, timeout, .queued Publication.backgroundTimeout⟩
    ({ s with world := s.world.call i x }, .outcome (.ok ()))
  | _ => (s, .noClient)

def drain (stream : StreamId) : Nat → Env β → Env β × List Delivery
  | 0, e => (e, [])
  | fuel + 1, e =>
    match e.poll stream with
    | (e, .item (.ok d)) =>
      let (e, ds) := drain stream fuel e
      (e, d :: ds)
    | (e, _) => (e, [])

def drainBound : Nat := 100000

def channelCall (c : ChannelId) (x : ChannelCall) (e : Env β) : Env β × Answer :=
  let asAnswer (r : Env β × Outcome) : Env β × Answer := (r.1, .outcome r.2)
  match x with
  | .isOpen => (e, .flag (Broker.channelOpen e.broker c))
  | .exchange name => asAnswer (e.declare c (.exchange (Exchange.new name)))
  | .queue name => asAnswer (e.declare c (.queue (Queue.new name)))
  | .bind queue exchange key => asAnswer (e.declare c (.bind ⟨queue, exchange, key⟩))
  | .qos n => asAnswer (e.prefetch c n)
  | .close => asAnswer (e.closeChannel c)
  | .publish exchange key body headers =>
    let (e, id) := e.freshId
    match e.publish c exchange key (Envelope.json id body headers) with
    | (e, .after _ o) => (e, .outcome o)
    | (e, .never) => (e, .stalled)
  | .consume queue =>
    match e.consume c queue "" with
    | (e, .error x) => (e, .outcome (.error x))
    | (e, .ok stream) =>
      let (e, ds) := drain stream drainBound e
      (e.dropStream stream, .messages ds)

def onClient (id : String) (f : Nat → Client → Stage β → Stage β × Answer) (s : Stage β) :
    Stage β × Answer :=
  match s.client? id with
  | some (i, c) => f i c s
  | none => (s, .noClient)

def hold (id : String) (c : Client) (s : Stage β) : Stage β × Answer :=
  match c.supervisor.channel? s.world.env.broker with
  | .ok ch => ({ s with kept := Assoc.insert id ch s.kept }, .outcome (.ok ()))
  | .error x => (s, .outcome (.error x))

variable {κ : Type} [Commanded β κ]

def take (x : Step β κ) (s : Stage β) : Stage β × Answer :=
  match x with
  | .make _ none => (s, .refused)
  | .make id (some p) => s.make id p
  | .publish id r background => s.onClient id fun i c s => s.publish i c r background
  | .publishAsync id r => s.onClient id fun i c s => s.publishAsync i c r
  | .start id => s.onClient id fun i c s =>
      match c.role with
      | .consumer _ => s.invoke i c (.start .locking) none
      | _ => (s, .noClient)
  | .close id background => s.onClient id fun i c s =>
      match c.role with
      | .consumer _ => s.invoke i c (.closeConsumer .locking) background
      | _ => s.invoke i c (.close .raising) background
  | .drop id => (s.drop id, .flag (s.client? id).isSome)
  | .hold id => s.onClient id fun _ c s =>
      match c.role with
      | .supervisor => s.hold id c
      | _ => (s, .noClient)
  | .call id x =>
    match Assoc.find? id s.kept with
    | some c =>
      let (e, a) := channelCall c x s.world.env
      ({ s with world := { s.world with env := e } }, a)
    | none => (s, .noChannel)
  | .advance n => ({ s with world := s.world.advanceTo (s.world.env.now + n) }, .nothing)
  | .waitUntil n measure =>
    let (b, w) := s.world.waitUntil fun w => measure w.env == n
    ({ s with world := w }, .reached b)
  | .broker k =>
    let (e, a) := Commanded.perform k s.world.env
    ({ s with world := { s.world with env := e } }, .command a)

def run : List (Step β κ) → Stage β → List (Report × World β)
  | [], _ => []
  | x :: rest, s =>
    let (s, a) := s.take x
    let (s, r) := { s with world := s.world.settle }.report a
    (r, s.world) :: run rest s

end Stage

end AmqpClient.Scenario
