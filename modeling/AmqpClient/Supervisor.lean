import AmqpClient.Shutdown
import AmqpClient.Supervisor.Session
/-! Supervision of a session. Two watchers wait for the closing of the resources of a generation and
report it; one task takes the reports one at a time and, if a report is about the present
generation of a connected session, discards both resources and dials at a fixed pace until a new
link is set up. Closing the supervisor is final.

Every definition here is one atomic step of one of these tasks. Where a task waits for two things
and both have come, `preferStop` tells which one it goes on with. -/
namespace AmqpClient

inductive Resource where
  | connection
  | channel
  deriving DecidableEq, Repr

structure CloseEvent where
  generation : Nat
  resource : Resource
  reason : String
  deriving DecidableEq, Repr

inductive WatcherPhase where
  | watching
  | reported
  | stopped
  deriving DecidableEq, Repr

structure Watcher where
  generation : Nat
  resource : Resource
  signal : SignalId
  phase : WatcherPhase := .watching
  deriving DecidableEq, Repr

inductive Recovery where
  | listening
  | releasing (r : Release)
  | pausing (ends : Instant)
  | establishing (x : Establish)
  | abandoning (r : Release)
  | arming (generation : Nat) (connectionSignal channelSignal : SignalId)
  | announcing (generation : Nat)
  | ended
  deriving DecidableEq, Repr

structure Supervisor where
  client : String
  topology : Topology
  reconnectDelay : Duration
  session : Session
  stopped : Bool := false
  announced : Nat := 0
  events : List CloseEvent := []
  recovery : Recovery := .listening
  watchers : List Watcher := []
  deriving DecidableEq, Repr

inductive Closing where
  | raising
  | taking
  | releasing (r : Release)
  | done (o : Outcome)

namespace Supervisor

variable {β : Type} [Broker β]

def watchersFor (generation : Nat) (connectionSignal channelSignal : SignalId) : List Watcher :=
  [{ generation, resource := .connection, signal := connectionSignal },
    { generation, resource := .channel, signal := channelSignal }]

def start (client : String) (t : Topology) (delay : Duration) (l : Link)
    (connectionSignal channelSignal : SignalId) : Supervisor :=
  { client, topology := t, reconnectDelay := delay, session := .ofLink l
    watchers := watchersFor 0 connectionSignal channelSignal }

def isConnected (b : β) (s : Supervisor) : Bool := s.session.healthy b

def channel? (b : β) (s : Supervisor) : Except Error ChannelId := s.session.channel? b

def reason : Signal → String
  | .reported r => r
  | _ => "closed without error report"

def setWatcher (i : Nat) (w : Watcher) (p : WatcherPhase) (s : Supervisor) : Supervisor :=
  { s with watchers := s.watchers.set i { w with phase := p } }

def watcherStep (i : Nat) (preferStop : Bool) (e : Env β) (s : Supervisor) :
    Option (Env β × Supervisor) :=
  match s.watchers[i]? with
  | none => none
  | some w =>
    if w.phase ≠ .watching then none else
    let x := Broker.signal e.broker w.signal
    if x.fired && !(s.stopped && preferStop) then
      some (e, { s.setWatcher i w .reported with
        events := s.events ++ [⟨w.generation, w.resource, reason x⟩] })
    else if s.stopped then some (e, s.setWatcher i w .stopped)
    else none

/-- Takes a report. One about another generation, or of a session not connected, is stale. -/
def handle (x : CloseEvent) (s : Supervisor) : Supervisor :=
  if s.session.generation = x.generation ∧ s.session.state = .connected then
    { s with session := s.session.vacate .reconnecting, recovery := .releasing s.session.held }
  else s

def pause (e : Env β) (s : Supervisor) : Supervisor :=
  { s with recovery := .pausing (Instant.wake e.now s.reconnectDelay) }

def adopt (l : Link) (connectionSignal channelSignal : SignalId) (s : Supervisor) : Supervisor :=
  if s.session.state = .closed then { s with recovery := .abandoning (Release.ofLink l) }
  else
    let session := s.session.renew l
    { s with session, recovery := .arming session.generation connectionSignal channelSignal }

/-- One step of the recovering task. Without anyone left who holds the client it ends at the next
report. -/
def recoveryStep (alive preferStop : Bool) (e : Env β) (s : Supervisor) :
    Option (Env β × Supervisor) :=
  match s.recovery with
  | .ended => none
  | .listening =>
    match s.events with
    | x :: rest =>
      if s.stopped && preferStop then some (e, { s with recovery := .ended })
      else if alive then some (e, { s with events := rest }.handle x)
      else some (e, { s with events := rest, recovery := .ended })
    | [] => if s.stopped then some (e, { s with recovery := .ended }) else none
  | .releasing r =>
    match r.step e with
    | some (e, r) => some (e, { s with recovery := .releasing r })
    | none => some (e, s.pause e)
  | .pausing ends =>
    if ends ≤ e.now && !(s.stopped && preferStop) then
      some (e, { s with recovery := .establishing .start })
    else if s.stopped then some (e, { s with recovery := .listening })
    else none
  | .establishing (.ready l c h) => some (e, s.adopt l c h)
  | .establishing (.failed _) => some (e, s.pause e)
  | .establishing x =>
    (x.step s.client s.topology e).map fun (e, x) => (e, { s with recovery := .establishing x })
  | .abandoning r =>
    match r.step e with
    | some (e, r) => some (e, { s with recovery := .abandoning r })
    | none => some (e, { s with recovery := .listening })
  | .arming g c h =>
    some (e, { s with watchers := s.watchers ++ watchersFor g c h, recovery := .announcing g })
  | .announcing g => some (e, { s with announced := g, recovery := .listening })

def closeStep (e : Env β) (s : Supervisor) : Closing → Option (Env β × Supervisor × Closing)
  | .raising =>
    let (stopped, _) := Shutdown.raise s.stopped
    some (e, { s with stopped }, .taking)
  | .taking =>
    some (e, { s with session := s.session.vacate .closed }, .releasing s.session.held)
  | .releasing r =>
    match r.step e with
    | some (e, r) => some (e, s, .releasing r)
    | none => some (e, s, .done r.outcome)
  | .done _ => none

def timer? (s : Supervisor) : Option Instant :=
  match s.recovery with
  | .pausing ends => some ends
  | .establishing x => x.timer?
  | _ => none

end Supervisor

end AmqpClient
