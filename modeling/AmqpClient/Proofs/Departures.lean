import AmqpClient.Proofs.Aftermath
import AmqpClient.Proofs.Asking
import AmqpClient.Proofs.Publications
import AmqpClient.Proofs.Undisturbed
/-! A consumer at rest, with a sound link and with copies of failed deliveries that wait, is asked to
close. The copies are all published at that instant, each once; after the grace the link is closed
and the call returns; and then nothing of the consumer is left. -/
namespace AmqpClient

open Broker (Memory Store Commanded)

theorem Session.heldOfLink {s : Session} {l : Link} (link : s.link? = some l) :
    s.held = .ofLink l := by
  unfold link? at link
  split at link <;> cases link
  unfold held
  simp only [*]
  rfl

theorem Session.channelOfLink {s : Session} {l : Link} {m : Memory}
    (connected : s.state = .connected) (link : s.link? = some l)
    (sound : ∀ r, m.store.openAt r (l.id r)) : s.channel? m = .ok l.channel := by
  unfold link? at link
  split at link <;> cases link
  rename_i n c connection channel
  have first : Broker.connectionOpen m n = true := sound .connection
  have second : Broker.channelOpen m c = true := sound .channel
  unfold channel? healthy
  rw [connected, connection, channel]
  simp only [Option.any_some, first, second]
  rfl

namespace Supervisor

variable {e f : Env Memory} {s t : Supervisor}

structure Lulled (m : Memory) (s : Supervisor) : Prop where
  recovery : s.recovery = .ended ∨ (s.recovery = .listening ∧ s.events = [])
  watchers : ∀ y ∈ s.watchers, y.phase = .watching → ¬ m.store.fired y.signal

theorem lulledHushed (lulled : s.Lulled e.broker) (hushed : e.Hushed f) : s.Lulled f.broker :=
  ⟨lulled.recovery, fun y mem watching fired =>
    lulled.watchers y mem watching (hushed y.signal fired)⟩

theorem lulledRecovery {alive : Bool} (lulled : s.Lulled e.broker)
    (move : RecoveryMove alive e s f t) : f = e ∧ t = { s with recovery := .ended } := by
  have only (not_ : s.recovery ≠ .ended) : s.recovery = .listening ∧ s.events = [] :=
    lulled.recovery.resolve_left not_
  cases move with
  | quit => exact ⟨rfl, rfl⟩
  | handle here next | leave here next =>
    cases next.symm.trans (only (by rw [here]; nofun)).2
  | release here | released here | dial here | giveUp here | adopt here | failed here
  | establish here | abandon here | abandoned here | arm here | announce here =>
    rcases lulled.recovery with ended | ⟨listening, -⟩
    · cases here.symm.trans ended
    · cases here.symm.trans listening

theorem lulledWatcher {i : Nat} (lulled : s.Lulled e.broker) (move : WatcherMove i e s t) :
    t.Lulled e.broker := by
  cases move with
  | report found here fired =>
    exact absurd fired (lulled.watchers _ (List.mem_of_getElem? found) here)
  | quit found here =>
    refine ⟨lulled.recovery, fun y mem watching => ?_⟩
    rcases List.mem_or_eq_of_mem_set mem with old | rfl
    · exact lulled.watchers y old watching
    · cases watching

theorem lulledStill {alive : Bool} (coherent : s.Coherent)
    (connected : s.session.state = .connected) (still : s.recoveryStep alive false e = none)
    (watching : ∀ i, s.watcherStep i false e = none) : s.Lulled e.broker := by
  refine ⟨?_, fun y mem here fired => ?_⟩
  · have kept : s.recovery.replacing = false :=
      Bool.eq_false_iff.mpr fun replacing => coherent.replacing replacing connected
    unfold recoveryStep at still
    cases here : s.recovery with
    | ended => exact .inl rfl
    | listening =>
      rw [here] at still
      dsimp only at still
      cases next : s.events with
      | nil => exact .inr ⟨rfl, rfl⟩
      | cons x rest =>
        simp only [next] at still
        repeat' split at still
        all_goals cases still
    | arming | announcing => rw [here] at still; cases still
    | _ => rw [here] at kept; cases kept
  · obtain ⟨i, found⟩ := List.getElem?_of_mem mem
    have stuck := watching i
    unfold watcherStep at stuck
    have fires : (Broker.signal e.broker y.signal).fired = true := fired
    simp only [found, here, fires, Bool.and_false] at stuck
    cases stuck

end Supervisor

structure Departure where
  client : Nat
  call : Nat
  told : Instant
  link : Link
  topology : Topology
  copies : List Envelope

namespace Departure

variable (x : Departure)

def ends : Instant := x.told + Consumer.closeGrace

def copy (m : Envelope) : Entry :=
  ⟨x.told, .published x.link.channel x.topology.exchangeName x.topology.routingKey m
    (.after 0 (.ok ()))⟩

def returned : Entry := ⟨x.ends, .ended x.client x.call (.ok ())⟩

inductive Stage (now : Instant) (m : Store) (s : Session) (left : List Nat) :
    Consumer.ConsumerClosing → Prop where
  | grace (early : now ≤ x.ends) (connected : s.state = .connected) (link : s.link? = some x.link)
      (sound : ∀ r, m.openAt r (x.link.id r)) : Stage now m s left (.grace x.ends)
  | collecting (due : now = x.ends) (link : s.link? = some x.link) : Stage now m s left .collecting
  | joining {tasks} (due : now = x.ends) (link : s.link? = some x.link) (reaped : left = []) :
      Stage now m s left (.joining tasks)
  | raising (due : now = x.ends) (link : s.link? = some x.link) (reaped : left = []) :
      Stage now m s left (.closing .raising)
  | taking (due : now = x.ends) (link : s.link? = some x.link) (reaped : left = []) :
      Stage now m s left (.closing .taking)
  | releasing (due : now = x.ends) (closed : s.state = .closed) (reaped : left = []) :
      Stage now m s left (.closing (.releasing (.ofLink x.link)))
  | half (due : now = x.ends) (closed : s.state = .closed) (reaped : left = [])
      (shut : ¬ m.openAt .channel x.link.channel) :
      Stage now m s left (.closing (.releasing ⟨none, some x.link.connection, none⟩))
  | both (due : now = x.ends) (closed : s.state = .closed) (reaped : left = [])
      (shut : ∀ r, ¬ m.openAt r (x.link.id r)) :
      Stage now m s left (.closing (.releasing ⟨none, none, none⟩))
  | done (late : x.ends ≤ now) (closed : s.state = .closed) (reaped : left = [])
      (shut : ∀ r, ¬ m.openAt r (x.link.id r)) : Stage now m s left (.closing (.done (.ok ())))

variable {x : Departure} {e f : Env Memory} {s t : Supervisor} {c d : Client} {k m : Consumer}
  {y z : Consumer.ConsumerClosing}

theorem stageSteady {q : Session} {left : List Nat} (stage : x.Stage e.now e.broker.store q left y)
    (now : f.now = e.now) (inside : ∀ r, x.link.id r < e.size r) (steady : e.Steady f)
    (spared : q.link? = some x.link → ∀ r, e.broker.store.openAt r (x.link.id r) →
      f.broker.store.openAt r (x.link.id r)) : x.Stage f.now f.broker.store q left y := by
  have shut {r : Resource} (shut : ¬ e.broker.store.openAt r (x.link.id r)) :
      ¬ f.broker.store.openAt r (x.link.id r) :=
    fun isOpen => shut (steady.closed r _ (inside r) isOpen)
  rw [now]
  cases stage with
  | grace early connected link sound =>
    exact .grace early connected link fun r => spared link r (sound r)
  | collecting due link => exact .collecting due link
  | joining due link reaped => exact .joining due link reaped
  | raising due link reaped => exact .raising due link reaped
  | taking due link reaped => exact .taking due link reaped
  | releasing due closed reaped => exact .releasing due closed reaped
  | half due closed reaped channel => exact .half due closed reaped (shut (r := .channel) channel)
  | both due closed reaped both => exact .both due closed reaped fun r => shut (both r)
  | done late closed reaped both => exact .done late closed reaped fun r => shut (both r)

theorem stageMove {i : Nat} (stage : x.Stage e.now e.broker.store s.session k.unreaped y)
    (move : k.CloseMove i e s y f t m z) :
    x.Stage f.now f.broker.store t.session m.unreaped z ∧
      (∃ stopped session, t = { s with stopped, session }) ∧
      ∃ unreaped, m = { k with unreaped } := by
  cases move with
  | lock | clear | unlock | raise | raised => cases stage
  | grace due =>
    cases stage with
    | grace early connected link =>
      exact ⟨.collecting (Nat.le_antisymm early due) link, ⟨_, _, rfl⟩, _, rfl⟩
  | collect =>
    cases stage with
    | collecting due link => exact ⟨.joining due link rfl, ⟨_, _, rfl⟩, _, rfl⟩
  | joined =>
    cases stage with
    | joining due link reaped => exact ⟨.raising due link reaped, ⟨_, _, rfl⟩, _, rfl⟩
  | closing made =>
    cases Supervisor.closingMove made with
    | raise =>
      cases stage with
      | raising due link reaped => exact ⟨.taking due link reaped, ⟨_, _, rfl⟩, _, rfl⟩
    | take =>
      cases stage with
      | taking due link reaped =>
        rw [Session.heldOfLink link]
        exact ⟨.releasing due rfl reaped, ⟨_, _, rfl⟩, _, rfl⟩
    | release move =>
      cases move with
      | channel held =>
        cases stage with
        | releasing due closed reaped =>
          cases held
          exact ⟨.half due closed reaped (Store.closedShutChannel _ _ _), ⟨_, _, rfl⟩, _, rfl⟩
        | half | both => cases held
      | connection first held =>
        cases stage with
        | releasing => cases first
        | half due closed reaped channel =>
          cases held
          refine ⟨.both due closed reaped fun r => ?_, ⟨_, _, rfl⟩, _, rfl⟩
          cases r with
          | connection => exact Store.closedShutConnection _ _ _
          | channel => exact fun isOpen => channel (Store.openShutConnection isOpen).2
        | both => cases held
    | released empty =>
      cases stage with
      | releasing | half => cases empty
      | both due closed reaped both =>
        exact ⟨.done (Nat.le_of_eq due.symm) closed reaped both, ⟨_, _, rfl⟩, _, rfl⟩

theorem stageEarly {q : Session} {left : List Nat} (stage : x.Stage e.now e.broker.store q left y)
    (now : e.now = x.told) : q.channel? e.broker = .ok x.link.channel ∧
      e.broker.store.openAt .channel x.link.channel := by
  have early : e.now < x.ends := by
    rw [now]
    exact Nat.lt_add_of_pos_right (by decide)
  cases stage with
  | grace _ connected link sound =>
    exact ⟨Session.channelOfLink connected link sound, sound .channel⟩
  | done late => exact absurd early (Nat.not_lt.mpr late)
  | _ => exact absurd early (by rw [‹e.now = x.ends›]; exact Nat.lt_irrefl _)

structure Leads (x : Departure) (e : Env Memory) (c : Client) (k : Consumer) : Prop where
  role : c.role = .consumer k
  topology : c.supervisor.topology = x.topology
  lulled : c.supervisor.Lulled e.broker
  hastened : k.Hastened x.told x.link.channel
  begun : x.told ≤ e.now
  hasted : x.told < e.now → c.Retired k ∧ ∀ r ∈ k.retries, r.phase.finished = true
  calls : ∀ n y, c.calls[n]? = some y → n = x.call ∨ ∃ o, y = .start (.done o)
  stage : ∃ y, c.calls[x.call]? = some (.closeConsumer y) ∧
    x.Stage e.now e.broker.store c.supervisor.session k.unreaped y
  inside : ∀ r, x.link.id r < e.size r
  accepting : e.broker.failing = false ∧ e.broker.stalled = false

def Sends (x : Departure) (e : Env Memory) (k : Consumer) (f : Env Memory) (m : Consumer) : Prop :=
  ∃ mid sent, f.journal = mid ++ e.journal ∧ published mid = sent.map x.copy ∧
    (sent ++ m.unsent).Perm k.unsent

theorem sendsNone {writer : Fact.Writer} (grows : e.GrowsBy writer f)
    (other : writer ≠ .publisher) (same : m.unsent.Perm k.unsent) : x.Sends e k f m := by
  obtain ⟨mid, wrote, -⟩ := id grows
  exact ⟨mid, [], wrote, publishedOther wrote grows other, same⟩

theorem leadsOther (leads : x.Leads e c k) (now : f.now = e.now) (steady : e.Steady f)
    (hushed : e.Hushed f) (spared : ∀ r n, n ∈ c.owns r →
      (f.broker.store.openAt r n ↔ e.broker.store.openAt r n)) : x.Leads f c k where
  role := leads.role
  topology := leads.topology
  lulled := Supervisor.lulledHushed leads.lulled hushed
  hastened := leads.hastened
  begun := now ▸ leads.begun
  hasted later := leads.hasted (now ▸ later)
  calls := leads.calls
  stage := by
    obtain ⟨y, here, stage⟩ := leads.stage
    refine ⟨y, here, stageSteady stage now leads.inside steady fun link r => (spared r _ ?_).mpr⟩
    refine List.mem_append_left _ (List.mem_append_left _ ?_)
    unfold Session.owns
    rw [Session.heldOfLink link]
    cases r <;> exact List.mem_singleton_self _
  inside r := Nat.lt_of_lt_of_le (leads.inside r) (steady.size r)
  accepting := ⟨steady.failing.trans leads.accepting.1, steady.stalled.trans leads.accepting.2⟩

theorem leadsCalls {i : Nat} {z : Call}
    (calls : ∀ n y, c.calls[n]? = some y → n = x.call ∨ ∃ o, y = .start (.done o))
    (mine : i = x.call) :
    ∀ n y, (c.calls.set i z)[n]? = some y → n = x.call ∨ ∃ o, y = .start (.done o) := by
  intro n y here
  by_cases same : i = n
  · exact .inl (same.symm.trans mine)
  · rw [List.getElem?_set_ne same] at here
    exact calls n y here

theorem leadsMove (leads : x.Leads e c k) (steady : e.Steady f) (hushed : e.Hushed f)
    (now : f.now = e.now) (move : Client.Move e c f d) : ∃ m, x.Leads f d m ∧ x.Sends e k f m := by
  obtain ⟨y, here, stage⟩ := leads.stage
  have build {m : Consumer} (role : d.role = .consumer m)
      (topology : d.supervisor.topology = c.supervisor.topology)
      (lulled : d.supervisor.Lulled f.broker) (hastened : m.Hastened x.told x.link.channel)
      (retries : x.told < e.now → ∀ r ∈ m.retries, r.phase.finished = true)
      (calls : ∀ n y, d.calls[n]? = some y → n = x.call ∨ ∃ o, y = .start (.done o))
      (stage : ∃ y, d.calls[x.call]? = some (.closeConsumer y) ∧
        x.Stage f.now f.broker.store d.supervisor.session m.unreaped y) : x.Leads f d m := {
    role := role
    topology := topology.trans leads.topology
    lulled := lulled
    hastened := hastened
    begun := now ▸ leads.begun
    hasted := fun later => by
      have later := now ▸ later
      have before := (leads.hasted later).1
      obtain ⟨l, same, retired, -⟩ :=
        Client.retiredMove before (Client.silentSelf before) leads.role move
      cases role.symm.trans same
      exact ⟨retired, retries later⟩
    calls := calls
    stage := stage
    inside := fun r => Nat.lt_of_lt_of_le (leads.inside r) (steady.size r)
    accepting :=
      ⟨steady.failing.trans leads.accepting.1, steady.stalled.trans leads.accepting.2⟩ }
  have aside (same : Store.SameLinks e.broker.store f.broker.store) :
      x.Stage f.now f.broker.store c.supervisor.session k.unreaped y :=
    stageSteady stage now leads.inside steady fun _ r => by
      unfold Store.openAt
      rw [Store.sameEnds same]
      exact id
  have foreign {i : Nat} {z : Call} (there : c.calls[i]? = some z)
      (other : ∀ y, z ≠ .closeConsumer y) : ∃ o, z = .start (.done o) := by
    rcases leads.calls i z there with rfl | ended
    · cases here.symm.trans there
      exact absurd rfl (other y)
    · exact ended
  have still := Supervisor.lulledHushed leads.lulled hushed
  have elapsed (later : x.told < e.now) := (leads.hasted later).2
  cases move with
  | recovery made =>
    obtain ⟨rfl, rfl⟩ := Supervisor.lulledRecovery leads.lulled (Supervisor.recoveryMove made)
    exact ⟨k, build leads.role rfl ⟨.inl rfl, leads.lulled.watchers⟩ leads.hastened elapsed leads.calls
      ⟨y, here, stage⟩, sendsNone (Env.growsByRefl f : f.GrowsBy .link f) nofun
        (.refl _)⟩
  | watcher made =>
    obtain ⟨rfl, move⟩ := Supervisor.watcherMove made
    refine ⟨k, build leads.role (Supervisor.topologyOfWatcher move)
      (Supervisor.lulledWatcher leads.lulled move) leads.hastened elapsed leads.calls
      ⟨y, here, ?_⟩, sendsNone (Env.growsByRefl f : f.GrowsBy .link f) nofun
        (.refl _)⟩
    dsimp only
    rw [Supervisor.sessionOfWatcher move]
    exact stage
  | loop was made =>
    cases leads.role.symm.trans was
    obtain ⟨l, found, move⟩ := Consumer.loopMove made
    obtain ⟨hastened, retries, journal⟩ := Consumer.hastenedLoop leads.hastened found move
    refine ⟨_, build rfl rfl still hastened (fun later => retries ▸ elapsed later) leads.calls
      ⟨y, here, ?_⟩, [], [], journal, rfl, ?_⟩
    · rw [(Consumer.loopFrame move).unreaped]
      exact aside (sameLoop move)
    · unfold Consumer.unsent
      rw [retries]
      exact .refl _
  | worker was made =>
    cases leads.role.symm.trans was
    obtain ⟨z, found, move⟩ := Consumer.workerMove made
    have ended := leads.hastened.workers z (List.mem_of_getElem? found)
    rw [Consumer.workerUnfinished move] at ended
    cases ended
  | retry was made =>
    cases leads.role.symm.trans was
    obtain ⟨r, q, found, move, rfl⟩ := Consumer.retryStepSource made
    have unfinished := Consumer.retryUnfinished move
    have at_ : e.now = x.told := by
      refine Nat.le_antisymm (Nat.le_of_not_lt fun later => ?_) leads.begun
      rw [elapsed later r (List.mem_of_getElem? found)] at unfinished
      cases unfinished
    rw [leads.hastened.stopped] at move
    obtain ⟨channel, isOpen⟩ := stageEarly stage at_
    obtain ⟨hastened, sends⟩ := Consumer.hastenedRetry leads.hastened at_ channel isOpen
      leads.accepting found move
    refine ⟨_, build rfl rfl still hastened (fun later => ?_) leads.calls
      ⟨y, here, aside (sameRetry move)⟩, ?_⟩
    · exact absurd later (by rw [at_]; exact Nat.lt_irrefl _)
    · rcases sends with ⟨journal, same⟩ | ⟨journal, fewer⟩
      · exact ⟨[], [], journal, rfl, same⟩
      · refine ⟨[x.copy r.envelope], [r.envelope], ?_, rfl, fewer⟩
        rw [journal, leads.topology]
        rfl
  | publish there | close there =>
    obtain ⟨o, same⟩ := foreign there nofun
    cases same
  | start was there made =>
    obtain ⟨o, same⟩ := foreign there nofun
    cases same
    cases made
  | closeConsumer was there made =>
    cases leads.role.symm.trans was
    have mine := (leads.calls _ _ there).resolve_right fun ⟨o, same⟩ => by cases same
    subst mine
    cases here.symm.trans there
    have move := Consumer.closeMove made
    obtain ⟨stage, ⟨stopped, session, rfl⟩, unreaped, rfl⟩ := stageMove stage move
    have count : x.call < c.calls.length := (List.getElem?_eq_some_iff.mp here).1
    have hastened := leads.hastened
    exact ⟨_, build rfl rfl ⟨still.recovery, still.watchers⟩
      ⟨hastened.stopped, hastened.loops, hastened.workers, hastened.retries⟩ elapsed
      (leadsCalls leads.calls rfl) ⟨_, List.getElem?_set_self count, stage⟩,
      sendsNone (Consumer.growsOfClose move) nofun (.refl _)⟩

end Departure

end AmqpClient
