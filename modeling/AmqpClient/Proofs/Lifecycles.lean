import AmqpClient.Proofs.Heading
import AmqpClient.Proofs.Sessions
/-! A supervisor on the broker in memory goes through the life that its machine goes through, whatever
is asked of them, as far as that can be seen each time all that is due has been done. -/
namespace AmqpClient

open Broker (Memory Store)

namespace Broker.Memory

variable {m : Memory} {l : Link} {a b : SignalId}

theorem killChannelShuts (x : Notice) (m : Memory) : ∃ s, m.killChannel x = { m with store := s } ∧
    ∀ n, s.openAt .connection n → m.store.openAt .connection n := by
  unfold killChannel
  split
  · exact ⟨_, rfl, fun n => Store.openShutChannel⟩
  · exact ⟨m.store, rfl, fun _ => id⟩

theorem killConnectionShuts (reason : String) (m : Memory) :
    ∃ s, m.killConnection reason = { m with store := s } ∧
      ∀ n, s.openAt .connection n → m.store.openAt .connection n := by
  obtain ⟨s, same, opened⟩ := killChannelShuts .silent m
  unfold killConnection
  rw [same]
  dsimp only
  split
  · exact ⟨_, rfl, fun n isOpen => opened n (Store.openShutConnection isOpen).2⟩
  · exact ⟨s, rfl, opened⟩

theorem killChannelFires (reason : String) (guarded : l.Guarded m.store a b) :
    (m.killChannel (.report reason)).store.fired b := by
  rw [killChannelLoses (guarded.latest .channel)]
  exact Store.firedShutChannel guarded.channel

theorem killConnectionFires (reason : String) (guarded : l.Guarded m.store a b) :
    (m.killConnection reason).store.fired a := by
  have first : latest m.store.channels.length = some l.channel := by
    rw [show m.store.channels.length = l.channel + 1 from guarded.latest .channel]
    rfl
  have size : (m.store.shutChannel l.channel .silent).connections.length = l.connection + 1 :=
    (Store.sizeShutChannel l.channel .silent m.store .connection).trans (guarded.latest .connection)
  have second : latest (m.store.shutChannel l.channel .silent).connections.length =
      some l.connection := by
    rw [size]
    rfl
  unfold killConnection killChannel
  rw [first]
  dsimp only
  rw [second]
  exact Store.firedShutConnection
    (Store.keptArmed (Store.keepsShutChannel ..) (fun same => nomatch same.1) guarded.connection)

end Broker.Memory

namespace Broker.Store

variable {s : Store}

theorem noneOpen (none : ∀ n, ¬ s.openAt .connection n) :
    s.connections.countP Endpoint.isOpen = 0 := by
  refine List.countP_eq_zero.mpr fun e mem isOpen => ?_
  obtain ⟨n, found⟩ := List.getElem?_of_mem mem
  exact none n (openOfEndpoint (r := .connection) found isOpen)

theorem oneOpen {k : Nat} (isOpen : s.openAt .connection k)
    (only : ∀ n, s.openAt .connection n → n = k) : s.connections.countP Endpoint.isOpen = 1 := by
  obtain ⟨e, found, stands⟩ := openEndpoint isOpen
  have found : s.connections[k]? = some e := found
  have counted := countSet (p := Endpoint.isOpen) (y := ⟨false, none⟩) found
  have others : (s.connections.set k ⟨false, none⟩).countP Endpoint.isOpen = 0 := by
    refine List.countP_eq_zero.mpr fun z mem stands => ?_
    rcases memSet found mem with rfl | ⟨j, apart, there⟩
    · cases stands
    · exact apart (only j (openOfEndpoint (r := .connection) there stands)).symm
  rw [others, stands] at counted
  exact counted.symm

end Broker.Store

def Request.begin (w : World Memory) : Request → World Memory
  | .killConnection reason => w.command (.killConnection reason)
  | .killChannel reason => w.command (.killChannel reason)
  | .failDials n => w.command (.failDials n)
  | .failDeclare name => w.command (.refuse name)
  | .advance _ => w
  | .close => w.call 0 (.close .raising)

def Request.span : Request → Nat
  | .advance n => n
  | _ => 0

namespace World

structure Settles (w : World Memory) (span : Nat) (v : World Memory) : Prop where
  run : Run (fun w v => Passing w v ∧ Prompt w v) w v
  quiet : v.Quiet
  time : v.env.now = w.env.now + span

inductive Asked : List Request → World Memory → World Memory → Prop where
  | none (w) : Asked [] w w
  | more {rs r w v u} (before : Asked rs w v) (next : Settles (Request.begin v r) r.span u) :
      Asked (rs ++ [r]) w u

structure Shows (w : World Memory) (c : Client) (m : Lifecycle) : Prop where
  time : w.env.now = m.now
  state : c.supervisor.session.state = m.phase.state
  generation : c.supervisor.session.generation = m.generation
  announced : c.supervisor.announced = m.generation
  dials : w.env.broker.dials = m.account.dials
  openConnections : w.env.broker.openConnections = m.openConnections
  declarations : w.env.declarations = m.account.declared

variable {w v u : World Memory} {c d : Client} {m : Lifecycle}

theorem headsCommand {x : Scenario.MemoryCommand} {k : Lifecycle} (heads : w.Heads c m)
    (client : c.Heads (w.command x).env.scene k) : (w.command x).Heads c k where
  exercised := exercisedRun heads.exercised (.single (.broker w ⟨x, w.env, rfl, rfl⟩))
  openings := heads.openings
  alone := heads.alone
  client := client

theorem headsKilled {x : Scenario.MemoryCommand} {s : Store} (heads : w.Heads c m) (quiet : w.Quiet)
    (same : (x.perform w.env).1.broker = { w.env.broker with store := s })
    (opened : ∀ n, s.openAt .connection n → w.env.broker.store.openAt .connection n)
    (fires : ∀ l a b, Link.Guarded w.env.broker.store l a b → s.fired a ∨ s.fired b) :
    (w.command x).Heads c m.lose := by
  have made : w.command x =
      { w with env := w.env.withBroker { w.env.broker with store := s } } :=
    congrArg (fun b => { w with env := w.env.withBroker b }) same
  refine headsCommand heads ?_
  rw [made]
  exact Client.headsLost heads.client (headsRested heads quiet) rfl rfl opened fires

theorem headsAsked (heads : w.Heads c m) (quiet : w.Quiet) (r : Request) :
    ∃ d k, (r.begin w).Heads d k ∧ k.wait r.span = m.respond r ∧
      (r.begin w).env.now = w.env.now := by
  have rested := headsRested heads quiet
  have account : m.account = w.env.account := by cases rested <;> rfl
  cases r with
  | killConnection reason =>
    obtain ⟨s, same, opened⟩ := Memory.killConnectionShuts reason w.env.broker
    refine ⟨c, m.lose, headsKilled heads quiet same opened fun l a b guarded => .inl ?_, rfl, rfl⟩
    have fired := Memory.killConnectionFires reason guarded
    rw [same] at fired
    exact fired
  | killChannel reason =>
    obtain ⟨s, same, opened⟩ := Memory.killChannelShuts (.report reason) w.env.broker
    refine ⟨c, m.lose, headsKilled heads quiet same opened fun l a b guarded => .inr ?_, rfl, rfl⟩
    have fired := Memory.killChannelFires reason guarded
    rw [same] at fired
    exact fired
  | failDials n =>
    refine ⟨c, { m with account := { m.account with failing := n } }, headsCommand heads ?_, rfl, rfl⟩
    rw [account]
    exact Client.headsAccounted heads.client rested
  | failDeclare name =>
    refine ⟨c, { m with account := { m.account with refused := m.account.refused ++ [name] } },
      headsCommand heads ?_, rfl, rfl⟩
    rw [account]
    exact Client.headsAccounted heads.client rested
  | advance n => exact ⟨c, m, heads, rfl, rfl⟩
  | close =>
    refine ⟨_, _, ⟨?_, heads.openings, ?_, Client.headsClosed heads.client rested⟩, rfl, rfl⟩
    · refine exercisedRun heads.exercised (.single (.call w (headsFound heads) heads.client.held ?_))
      rw [heads.client.role]
      trivial
    · change w.clients.modify 0 _ = _
      rw [heads.alone]
      rfl

theorem pausingTimer {ends : Instant} (heads : w.Heads c m)
    (here : c.supervisor.recovery = .pausing ends) : ends ∈ w.timers := by
  refine List.mem_append_right _ (List.mem_flatMap.mpr ⟨c, ?_, List.mem_append_right _ ?_⟩)
  · rw [heads.alone]
    exact List.mem_singleton_self c
  · unfold Supervisor.timer?
    rw [here]
    exact List.mem_singleton_self ends

theorem onlyTimer {t : Instant} (heads : w.Heads c m) (quiet : w.Quiet) (mem : t ∈ w.timers) :
    c.supervisor.recovery = .pausing t ∧ w.env.now < t := by
  have rested := headsRested heads quiet
  obtain ⟨b, there, timed⟩ := timerOfClient heads.openings mem
  rw [heads.alone] at there
  cases List.mem_singleton.mp there
  unfold Client.timers at timed
  rcases List.mem_append.mp timed with timed | supervised
  · rcases List.mem_append.mp timed with called | consumed
    · obtain ⟨y, mine, timed⟩ := List.mem_filterMap.mp called
      obtain ⟨a, rfl⟩ := heads.client.closes y mine
      cases timed
    · unfold Client.consumer? at consumed
      rw [heads.client.role] at consumed
      cases consumed
  · unfold Supervisor.timer? at supervised
    cases rested with
    | connected _ _ here | closed _ _ here =>
      rw [here] at supervised
      cases supervised
    | waiting _ _ _ here later =>
      rw [here] at supervised
      cases List.mem_singleton.mp supervised
      exact ⟨here, later⟩

theorem headsTime {n : Nat} (heads : w.Heads c m) (prompt : Prompt w (w.advance (w.env.now + n))) :
    (w.advance (w.env.now + n)).Heads c (m.wait n) := by
  rcases Nat.eq_zero_or_pos n with rfl | passes
  · exact heads
  · obtain ⟨quiet, timers⟩ := prompt (Nat.lt_add_of_pos_right passes)
    have rested := headsRested heads quiet
    refine ⟨exercisedRun heads.exercised (.single (.time w (Nat.le_add_right _ n))), heads.openings,
      heads.alone, { heads.client with heading := ?_ }⟩
    refine Client.restedLater rested passes fun ends here => ?_
    have mem := pausingTimer heads here
    exact timers ends mem (onlyTimer heads quiet mem).2

theorem headsRun (heads : w.Heads c m) (run : Run (fun w v => Passing w v ∧ Prompt w v) w v) :
    ∃ d n, v.env.now = w.env.now + n ∧ v.Heads d (m.wait n) := by
  induction run with
  | refl => exact ⟨c, 0, rfl, heads⟩
  | @next v u _ last ih =>
    obtain ⟨d, n, now, kept⟩ := ih
    obtain ⟨passing, prompt⟩ := last
    cases passing with
    | act made =>
      obtain ⟨z, after, -⟩ := headsAct kept made
      exact ⟨z, n, (nowOfActs (.single made)).trans now, after⟩
    | time later =>
      obtain ⟨k, rfl⟩ := Nat.exists_eq_add_of_le later
      refine ⟨d, n + k, ?_, ?_⟩
      · change v.env.now + k = w.env.now + (n + k)
        rw [now, Nat.add_assoc]
      · rw [← Lifecycle.waitAdd]
        exact headsTime kept prompt

theorem headsSettles {n : Nat} (heads : w.Heads c m) (settles : w.Settles n v) :
    ∃ d, v.Heads d (m.wait n) := by
  obtain ⟨d, k, now, kept⟩ := headsRun heads settles.run
  cases Nat.add_left_cancel (settles.time.symm.trans now)
  exact ⟨d, kept⟩

theorem settlesAlways (heads : w.Heads c m) (n : Nat) : ∃ v, w.Settles n v := by
  induction n using Nat.strongRecOn generalizing w c m with
  | ind n ih =>
    obtain ⟨v, d, run, quiet, now, kept⟩ := headsSettle heads
    rcases Nat.eq_zero_or_pos n with rfl | passes
    · exact ⟨v, run, quiet, now⟩
    -- up to the next timer, or to the end
    obtain ⟨k, first, inside, prompt⟩ : ∃ k, 0 < k ∧ k ≤ n ∧ Prompt v (v.advance (v.env.now + k)) := by
      by_cases near : ∃ t ∈ v.timers, t ≤ v.env.now + n
      · obtain ⟨t, mem, near⟩ := near
        obtain ⟨here, later⟩ := onlyTimer kept quiet mem
        obtain ⟨k, rfl⟩ := Nat.exists_eq_add_of_le (Nat.le_of_lt later)
        refine ⟨k, Nat.lt_of_add_lt_add_left later, Nat.le_of_add_le_add_left near,
          fun _ => ⟨quiet, fun s there _ => ?_⟩⟩
        cases here.symm.trans (onlyTimer kept quiet there).1
        exact Nat.le_refl _
      · refine ⟨n, passes, Nat.le_refl n, fun _ => ⟨quiet, fun t mem _ => ?_⟩⟩
        exact Nat.le_of_not_le fun early => near ⟨t, mem, early⟩
    obtain ⟨u, rest, last, time⟩ := ih (n - k) (Nat.sub_lt passes first) (headsTime kept prompt)
    refine ⟨u, ?_, last, ?_⟩
    · exact (run.next ⟨.time v (Nat.le_add_right _ k), prompt⟩).trans rest
    · change u.env.now = v.env.now + k + (n - k) at time
      rw [time, now, Nat.add_assoc, Nat.add_sub_cancel' inside]

theorem headsShow (heads : w.Heads c m) (quiet : w.Quiet) : w.Shows c m := by
  have rested := headsRested heads quiet
  have found := headsFound heads
  have coherent := Supervisor.coherentReachable (exercisedReachable heads.exercised) found
  have custody := heads.client.custody
  have told (silent : c.supervisor.recovery.telling = false) :
      c.supervisor.announced = c.supervisor.session.generation := by
    have announced := coherent.announced
    rw [silent] at announced
    exact announced
  have nobody (lost : c.supervisor.session.state ≠ .connected)
      (idle : c.supervisor.recovery.owns .connection = [])
      (calls : c.calls.flatMap (Call.owns .connection) = []) :
      w.env.broker.openConnections = 0 := by
    refine Broker.Store.noneOpen fun n isOpen => ?_
    have mem := custody n isOpen
    unfold Client.owns Supervisor.owns Session.owns at mem
    rw [Supervisor.heldSession coherent lost, idle, calls] at mem
    cases mem
  cases rested with
  | @connected l a b uncalled running here whole =>
    refine ⟨rfl, whole.connected, rfl, told (by rw [here]; rfl), rfl, ?_, rfl⟩
    refine Broker.Store.oneOpen (Broker.Store.openOfArmed whole.guarded.connection) fun n isOpen => ?_
    have mem := custody n isOpen
    unfold Client.owns Supervisor.owns Session.owns Session.held at mem
    rw [whole.connection, here, uncalled] at mem
    exact List.mem_singleton.mp mem
  | waiting uncalled running reconnecting here =>
    refine ⟨rfl, reconnecting, rfl, told (by rw [here]; rfl), rfl, ?_, rfl⟩
    refine nobody (by rw [reconnecting]; nofun) (by rw [here]; rfl) (by rw [uncalled]; rfl)
  | closed called closed here returned =>
    refine ⟨rfl, closed, rfl, told (by rw [here]; rfl), rfl, ?_, rfl⟩
    refine nobody (by rw [closed]; nofun) (by rw [here]; rfl) (List.flatMap_eq_nil_iff.mpr ?_)
    intro y mem
    obtain ⟨o, rfl⟩ := returned y mem
    rfl

theorem headsFollow {rs : List Request} (heads : w.Heads c m) (quiet : w.Quiet)
    (asked : Asked rs w v) : v.Quiet ∧ ∃ d, v.Heads d (rs.foldl Lifecycle.respond m) := by
  induction asked with
  | none => exact ⟨quiet, c, heads⟩
  | @more rs r w v u _ next ih =>
    obtain ⟨rest, d, kept⟩ := ih heads quiet
    obtain ⟨z, k, begun, same, -⟩ := headsAsked kept rest r
    obtain ⟨y, after⟩ := headsSettles begun next
    refine ⟨next.quiet, y, ?_⟩
    rw [List.foldl_append, List.foldl_cons, List.foldl_nil, ← same]
    exact after

end World

namespace World

variable {name : String} {t : Topology} {d : Duration} {n : Nat} {w v start up : World Memory}
  {c : Client} {rs : List Request}

inductive Rises (name : String) (t : Topology) (d : Duration) (w : World Memory) : Prop where
  | checking (one : w.openings = [{ client := name, plan := .supervisor t d }]) (none : w.clients = [])
      (blank : w.env.scene = ⟨{}, w.env.now, {}⟩) : Rises name t d w
  | establishing {x} (one : w.openings =
        [{ client := name, plan := .supervisor t d, phase := .establishing x }]) (none : w.clients = [])
      (fits : x.Fits w.env.scene)
      (outcome : x.outcome t.plan w.env.account = ({ dials := 1, declared := t.plan }, true))
      (custody : ∀ n, w.env.broker.store.openAt .connection n → n ∈ x.owns .connection) :
      Rises name t d w
  | risen {b} (heads : w.Heads b
      (.start t.plan (min d.milliseconds Instant.longestSleep) w.env.now)) : Rises name t d w
  | refused (elapsed : ∀ o ∈ w.openings, o.Over) (none : w.clients = []) : Rises name t d w

theorem risenHeads (name : String) (phase : OpeningPhase) {e : Env Memory} {l : Link} {a b : SignalId}
    (paced : 0 < min d.milliseconds Instant.longestSleep)
    (guarded : l.Guarded e.broker.store a b)
    (account : e.account = { dials := 1, declared := t.plan })
    (custody : ∀ n, e.broker.store.openAt .connection n → n = l.connection) :
    (World.client { client := name, plan := .supervisor t d, phase } l a b).Heads e.scene
      (.start t.plan (min d.milliseconds Instant.longestSleep) e.now) := by
  have view : Lifecycle.start t.plan (min d.milliseconds Instant.longestSleep) e.now =
      Supervisor.view e.scene (Supervisor.start name t d l a b) := by
    unfold Supervisor.view Env.scene
    rw [account]
    rfl
  rw [view]
  refine ⟨rfl, rfl, paced, fun _ => nofun, fun n isOpen => ?_, .going rfl rfl (.whole (l := l) (c := a) (h := b) ?_)⟩
  · exact custody n isOpen ▸ List.mem_cons_self
  · refine ⟨rfl, rfl, rfl, guarded, ⟨fun _ => nofun, fun w mem _ fired => ?_⟩,
      .watching (.inr rfl) fun w mem => mem⟩
    exact absurd fired (Supervisor.unheard guarded mem)

theorem actAlone {o : Opening} (one : w.openings = [o]) (none : w.clients = []) (made : Acts w v) :
    OpeningMove 0 w o v := by
  obtain ⟨a, preferStop, made⟩ := made
  cases a with
  | opening i =>
    obtain ⟨p, found, move⟩ := openingMove made
    rw [one] at found
    obtain ⟨inside, rfl⟩ := List.getElem?_eq_some_iff.mp found
    cases Nat.lt_one_iff.mp inside
    exact move
  | client i a =>
    obtain ⟨b, f, z, found, -⟩ := clientStepSource made
    rw [none] at found
    cases found

theorem oneSet {o : Opening} (one : w.openings = [o]) (p : OpeningPhase) :
    (w.setOpening 0 o p).openings = [{ o with phase := p }] := by
  unfold setOpening
  rw [one]
  rfl

theorem oneOver {o : Opening} (one : w.openings = [o]) (elapsed : o.Over) :
    ∀ p ∈ w.openings, p.Over := by
  intro p mem
  rw [one] at mem
  cases List.mem_singleton.mp mem
  exact elapsed

theorem risesAct (paced : 0 < min d.milliseconds Instant.longestSleep) (exercised : w.Exercised)
    (rises : w.Rises name t d) (made : Acts w v) : v.Rises name t d := by
  have after := exercisedRun exercised (.single (.act made))
  have now : v.env.now = w.env.now := nowOfActs (.single made)
  cases rises with
  | checking one none blank =>
    cases actAlone one none made with
    | start =>
      refine .establishing (x := .start) (oneSet one _) none trivial ?_ fun n isOpen => ?_
      · have new : w.env.account = {} := congrArg Scene.account blank
        change w.env.account.dial t.plan = _
        rw [new]
        exact Account.installAccepted fun _ _ => rfl
      · have empty : w.env.broker.store = {} := congrArg Scene.store blank
        change w.env.broker.store.openAt .connection n at isOpen
        rw [empty] at isOpen
        cases isOpen
    | refuse => exact .refused (oneOver (oneSet one _) trivial) none
    | fail here | opened here | establish here => cases here
  | establishing one none fits outcome custody =>
    cases actAlone one none made with
    | start here | refuse here => cases here
    | fail here =>
      cases here
      cases congrArg Prod.snd outcome
    | @opened l a b here =>
      cases here
      have account : w.env.account = { dials := 1, declared := t.plan } := congrArg Prod.fst outcome
      have heads := risenHeads name (.establishing (.ready l a b)) paced fits account
        fun n isOpen => List.mem_singleton.mp (custody n isOpen)
      exact .risen ⟨after, oneOver (oneSet one _) trivial, congrArg (· ++ [_]) none, heads⟩
    | establish here move =>
      cases here
      have made := Establish.next move fits
      refine .establishing (oneSet one _) none made.fits (made.outcome.trans outcome)
        fun n isOpen => ?_
      rcases made.minds n isOpen with mine | ⟨old, other⟩
      · exact mine
      · exact absurd (custody n old) other
  | risen heads =>
    obtain ⟨z, kept, -⟩ := headsAct heads made
    exact .risen (now ▸ kept)
  | refused elapsed none =>
    obtain ⟨a, preferStop, made⟩ := made
    cases a with
    | opening i => cases (openingStill elapsed i).symm.trans made
    | client i a =>
      obtain ⟨b, f, z, found, -⟩ := clientStepSource made
      rw [none] at found
      cases found

theorem passingUse (passing : Passing w v) : Use Broker.Commanded w v := by
  cases passing with
  | act made => exact .act made
  | time later => exact .time _ later

theorem risesRun (paced : 0 < min d.milliseconds Instant.longestSleep) (exercised : w.Exercised)
    (rises : w.Rises name t d) (run : Run (fun w v => Passing w v ∧ Prompt w v) w v) :
    w.env.now ≤ v.env.now ∧ (v.env.now = w.env.now → v.Rises name t d) := by
  induction run with
  | refl => exact ⟨Nat.le_refl _, fun _ => rises⟩
  | @next v u run last ih =>
    obtain ⟨before, kept⟩ := ih
    have later : v.env.now ≤ u.env.now := laterUse (passingUse last.1)
    refine ⟨Nat.le_trans before later, fun same => ?_⟩
    have still : v.env.now = u.env.now := Nat.le_antisymm later (same ▸ before)
    have kept := kept (still.trans same)
    cases last.1 with
    | act made =>
      exact risesAct paced (exercisedRun exercised (run.map fun _ _ h => passingUse h.1)) kept made
    | time =>
      change v.env.now = _ at still
      subst still
      exact kept

theorem millisecondsExact (n : Nat) : (Duration.ofMilliseconds n).milliseconds = n := by
  unfold Duration.milliseconds Duration.ofMilliseconds
  rw [if_pos (Nat.dvd_mul_right _ n)]
  exact Nat.mul_div_cancel_left n (by decide)

theorem connectedHeads (positive : 0 < n) (fresh : Fresh start) (new : start.env.broker = {})
    (made : (start.make name (.supervisor t (.ofMilliseconds n))).Settles 0 up)
    (connected : up.clients ≠ []) :
    ∃ c, up.Heads c (.start t.plan (min n Instant.longestSleep) start.env.now) := by
  have pace : min (Duration.ofMilliseconds n).milliseconds Instant.longestSleep =
      min n Instant.longestSleep := by rw [millisecondsExact]
  have paced : 0 < min n Instant.longestSleep := Nat.lt_min.mpr ⟨positive, by decide⟩
  have blank : start.env.scene = ⟨{}, start.env.now, {}⟩ := by
    unfold Env.scene Env.account Env.declarations
    rw [new, fresh.journal]
    rfl
  have rises : (start.make name (.supervisor t (.ofMilliseconds n))).Rises name t
      (.ofMilliseconds n) := by
    refine .checking ?_ fresh.clients blank
    change start.openings ++ _ = _
    rw [fresh.openings]
    rfl
  have risen := (risesRun (pace ▸ paced) ⟨start, fresh, new, .single (.make ..)⟩ rises made.run).2
    made.time
  have time : up.env.now = start.env.now := made.time
  cases risen with
  | @risen c heads =>
    rw [pace, time] at heads
    exact ⟨c, heads⟩
  | checking _ none | establishing _ none | refused _ none => exact absurd none connected

/-- Whatever is asked of one supervisor and of its broker, each time that has been followed to rest
the supervisor shows what its machine says, and there always is such a time. -/
theorem lifecycleRefined (positive : 0 < n) (fresh : Fresh start) (new : start.env.broker = {})
    (made : (start.make name (.supervisor t (.ofMilliseconds n))).Settles 0 up)
    (connected : up.clients ≠ []) (asked : Asked rs up v) :
    (∃ c, v.clients = [c] ∧ v.Shows c (rs.foldl Lifecycle.respond
      (.start t.plan (min n Instant.longestSleep) start.env.now))) ∧
    ∀ r : Request, ∃ u, (r.begin v).Settles r.span u := by
  obtain ⟨c, heads⟩ := connectedHeads positive fresh new made connected
  obtain ⟨quiet, b, kept⟩ := headsFollow heads made.quiet asked
  refine ⟨⟨b, kept.alone, headsShow kept quiet⟩, fun r => ?_⟩
  obtain ⟨z, k, begun, -⟩ := headsAsked kept quiet r
  exact settlesAlways begun r.span

theorem settlesLater (waits : 0 < n → w.Quiet ∧ ∀ t ∈ w.timers, w.env.now + n ≤ t)
    (quiet : (w.advance (w.env.now + n)).settle.Quiet) :
    w.Settles n (w.advance (w.env.now + n)).settle := by
  have prompt : Prompt w (w.advance (w.env.now + n)) := fun later =>
    have waits := waits (Nat.lt_of_add_lt_add_left (n := w.env.now) later)
    ⟨waits.1, fun t mem _ => waits.2 t mem⟩
  refine ⟨?_, quiet, nowSettle _⟩
  exact (Run.single ⟨.time w (Nat.le_add_right _ n), prompt⟩).trans
    ((settleActs _).map fun _ _ made => ⟨.act made, promptAct made⟩)

def retrying (n : Nat) : World Memory :=
  (offline.make "orders" (.supervisor (Topology.new "orders") (.ofMilliseconds n))).settle

def followed (r : Request) (w : World Memory) : World Memory :=
  ((r.begin w).advance ((r.begin w).env.now + r.span)).settle

def retriedTwice : World Memory :=
  let w := followed (.failDials 1) (followed (.killConnection "gone") (retrying 20))
  followed (.advance 20) (followed (.advance 20) w)

theorem retriedTwiceAsked : Asked [.killConnection "gone", .failDials 1, .advance 20, .advance 20]
    (retrying 20) retriedTwice := by
  have lost : Asked [.killConnection "gone"] _ _ := .more (.none (retrying 20))
    (settlesLater nofun (quietSeen (by decide +kernel)))
  have refusing : Asked [.killConnection "gone", .failDials 1] _ _ := .more lost
    (settlesLater nofun (quietSeen (by decide +kernel)))
  have once : Asked [.killConnection "gone", .failDials 1, .advance 20] _ _ := .more refusing
    (settlesLater (fun _ => ⟨quietSeen (by decide +kernel), by decide +kernel⟩)
      (quietSeen (by decide +kernel)))
  exact .more once (settlesLater (fun _ => ⟨quietSeen (by decide +kernel), by decide +kernel⟩)
    (quietSeen (by decide +kernel)))

theorem retriedTwiceShown : ∃ c, retriedTwice.clients = [c] ∧
    c.supervisor.session.state = .connected ∧ c.supervisor.session.generation = 1 ∧
    retriedTwice.env.now = 40 ∧ retriedTwice.env.broker.dials = 3 ∧
    retriedTwice.env.broker.openConnections = 1 := by
  have made : (offline.make "orders" (.supervisor (Topology.new "orders")
      (.ofMilliseconds 20))).Settles 0 (retrying 20) :=
    settlesLater nofun (quietSeen (by decide +kernel))
  obtain ⟨c, alone, shows⟩ := (lifecycleRefined (by decide) ⟨rfl, rfl, rfl⟩ rfl made
    (by decide +kernel) retriedTwiceAsked).1
  have machine : [Request.killConnection "gone", .failDials 1, .advance 20, .advance 20].foldl
      Lifecycle.respond (.start (Topology.new "orders").plan (min 20 Instant.longestSleep) 0) =
      { plan := (Topology.new "orders").plan, pace := 20, now := 40, phase := .connected
        generation := 1
        account := {
          dials := 3
          declared := (Topology.new "orders").plan ++ (Topology.new "orders").plan } } := by
    decide +kernel
  rw [show offline.env.now = 0 from rfl, machine] at shows
  exact ⟨c, alone, shows.state, shows.generation, shows.time, shows.dials, shows.openConnections⟩

def longWait : Nat := Instant.longestSleep + 1

def dialedEarly : World Memory :=
  followed (.advance Instant.longestSleep) (followed (.killConnection "gone") (retrying longWait))

theorem dialedEarlyAsked : Asked [.killConnection "gone", .advance Instant.longestSleep]
    (retrying longWait) dialedEarly := by
  have lost : Asked [.killConnection "gone"] _ _ := .more (.none (retrying longWait))
    (settlesLater nofun (quietSeen (by decide +kernel)))
  exact .more lost (settlesLater (fun _ => ⟨quietSeen (by decide +kernel), by decide +kernel⟩)
    (quietSeen (by decide +kernel)))

theorem longWaitCutShort : ∃ c, (offline.make "orders" (.supervisor (Topology.new "orders")
      (.ofMilliseconds longWait))).Settles 0 (retrying longWait) ∧
    Asked [.killConnection "gone", .advance Instant.longestSleep] (retrying longWait) dialedEarly ∧
    dialedEarly.clients = [c] ∧
    ¬ dialedEarly.Shows c ([.killConnection "gone", .advance Instant.longestSleep].foldl
      Lifecycle.respond (.start (Topology.new "orders").plan longWait 0)) := by
  have made : (offline.make "orders" (.supervisor (Topology.new "orders")
      (.ofMilliseconds longWait))).Settles 0 (retrying longWait) :=
    settlesLater nofun (quietSeen (by decide +kernel))
  have one : dialedEarly.clients.length = 1 := by decide +kernel
  have connected : (dialedEarly.clients.all fun c =>
      c.supervisor.session.state == .connected) = true := by decide +kernel
  obtain ⟨c, alone⟩ := List.length_eq_one_iff.mp one
  have here := List.all_eq_true.mp connected c (alone ▸ List.mem_singleton_self c)
  refine ⟨c, made, dialedEarlyAsked, alone, fun shows => ?_⟩
  have waiting := Lifecycle.lostWaits "gone" (n := Instant.longestSleep)
    (m := .start (Topology.new "orders").plan longWait 0) rfl (Nat.lt_succ_self _)
  have state := shows.state
  rw [List.foldl_cons, List.foldl_cons, List.foldl_nil, waiting, beq_iff_eq.mp here] at state
  cases state

end World

end AmqpClient
