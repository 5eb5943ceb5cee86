import AmqpClient.Broker.Memory
import AmqpClient.Broker.Scripted
import AmqpClient.Env
/-! What can be done to a broker from outside its clients. -/
namespace AmqpClient.Scenario

open Broker

inductive CommandAnswer where
  | ok
  | noConnection
  | tag (n : Nat)
  | settled (d : Delivery) (o : Outcome)

class Commanded (β : Type) (κ : outParam Type) where
  perform : κ → Env β → Env β × CommandAnswer

inductive ScriptedCommand where
  | fault (f : Fault)
  | dialTime (client : String) (milliseconds : Nat)
  | kill (client : String) (number : Option Nat) (l : Scripted.Loss) (n : Notice)
  | cancel (client : String)
  | streamError (client message : String)
  | deliver (queue exchange key : String) (body : Bytes) (headers : Header.Table)
      (redelivered : Bool)

inductive MemoryCommand where
  | failDials (count : Nat)
  | refuse (name : String)
  | failPublishes (on : Bool)
  | stallPublishes
  | killConnection (reason : String)
  | killChannel (reason : String)
  | cancelConsumers
  | deliver (queue key : String) (body : Bytes) (headers : Header.Table)
  | settle (exchange key : String) (body : Bytes) (headers : Header.Table) (s : Settlement)

def onLatest (client : String) (f : ConnectionId → Scripted → Scripted) (e : Env Scripted) :
    Env Scripted :=
  match e.broker.connection? client none with
  | some i => e.withBroker (f i e.broker)
  | none => e

def ScriptedCommand.perform (c : ScriptedCommand) (e : Env Scripted) :
    Env Scripted × CommandAnswer :=
  let b := e.broker
  match c with
  | .fault f => (e.withBroker (b.setFault f), .ok)
  | .dialTime client n =>
    (e.withBroker { b with dialTimes := Assoc.insert client n b.dialTimes }, .ok)
  | .kill client number l n =>
    match b.connection? client number with
    | some i => (e.withBroker (b.lose i l n), .ok)
    | none => (e, .noConnection)
  | .cancel client =>
    (onLatest client (fun i b => { b with store := b.store.endStreams i }) e, .ok)
  | .streamError client message =>
    let x : Except Error Delivery := .error (.stream message)
    (onLatest client (fun i b => { b with store := b.store.feed i x }) e, .ok)
  | .deliver queue exchange key body headers redelivered =>
    let (b, d) := b.deliver queue fun tag => ⟨tag, exchange, key, redelivered, body, headers⟩
    (e.withBroker b, .tag d.tag)

def MemoryCommand.perform (c : MemoryCommand) (e : Env Memory) : Env Memory × CommandAnswer :=
  let b := e.broker
  match c with
  | .failDials n => (e.withBroker { b with failingDials := n }, .ok)
  | .refuse name => (e.withBroker { b with refused := b.refused ++ [name] }, .ok)
  | .failPublishes on => (e.withBroker { b with failing := on }, .ok)
  | .stallPublishes => (e.withBroker { b with stalled := true }, .ok)
  | .killConnection r => (e.withBroker (b.killConnection r), .ok)
  | .killChannel r => (e.withBroker (b.killChannel (.report r)), .ok)
  | .cancelConsumers => (e.withBroker b.cancelConsumers, .ok)
  | .deliver queue key body headers => (e.withBroker (b.deliver queue key body headers), .ok)
  | .settle exchange key body headers s =>
    let (b, d) := b.newDelivery exchange key body headers
    let (e, o) := (e.withBroker b).settle 0 d.tag s
    (e, .settled d o)

instance : Commanded Scripted ScriptedCommand := ⟨ScriptedCommand.perform⟩

instance : Commanded Memory MemoryCommand := ⟨MemoryCommand.perform⟩

inductive Measure where
  | dials
  | openConnections
  | declarations
  | published
  | settlements
  | subscriptions
  | prefetch
  deriving DecidableEq, Repr

def Fact.isDeclaration : Fact → Bool
  | .declared _ _ (.ok ()) => true
  | _ => false

def Fact.isPublished : Fact → Bool
  | .published _ _ _ _ (.after _ (.ok ())) => true
  | _ => false

def Fact.isSettlement : Fact → Bool
  | .settled .. => true
  | _ => false

def Fact.isPrefetch : Fact → Bool
  | .prefetched _ _ (.ok ()) => true
  | _ => false

def Measure.count (m : Measure) (e : Env Memory) : Nat :=
  let facts (p : Fact → Bool) : Nat := e.journal.countP fun x => p x.fact
  match m with
  | .dials => e.broker.dials
  | .openConnections => e.broker.openConnections
  | .subscriptions => e.broker.subscriptions
  | .declarations => facts Fact.isDeclaration
  | .published => facts Fact.isPublished
  | .settlements => facts Fact.isSettlement
  | .prefetch => facts Fact.isPrefetch

end AmqpClient.Scenario
