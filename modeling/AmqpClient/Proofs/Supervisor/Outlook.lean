import AmqpClient.Proofs.Supervisor.Dials
import AmqpClient.Proofs.Supervisor.Holdings
/-! Where a supervisor is going. While its tasks make steps at one instant, the phase in which it will
come to rest is settled already: no step of a task changes it, and each leaves fewer to make. -/
namespace AmqpClient

open Broker (Memory Store)

namespace Supervisor

variable {e f : Env Memory} {x : Scene} {s t : Supervisor} {m : Lifecycle}

def pace (s : Supervisor) : Nat := min s.reconnectDelay.milliseconds Instant.longestSleep

def view (x : Scene) (s : Supervisor) : Lifecycle where
  plan := s.topology.plan
  pace := s.pace
  now := x.now
  phase := .connected
  generation := s.session.generation
  account := x.account

structure Trusted (x : Scene) (s : Supervisor) : Prop where
  events : ∀ y ∈ s.events, y.generation < s.session.generation
  watchers : ∀ w ∈ s.watchers, w.phase = .watching → x.store.fired w.signal →
    w.generation < s.session.generation

inductive Guards (s : Supervisor) (c h : SignalId) : Prop where
  | arming (here : s.recovery = .arming s.session.generation c h)
  | watching (here : s.recovery = .announcing s.session.generation ∨ s.recovery = .listening)
      (there : ∀ w ∈ watchersFor s.session.generation c h, w ∈ s.watchers)

structure Whole (x : Scene) (s : Supervisor) (l : Link) (c h : SignalId) : Prop where
  connected : s.session.state = .connected
  connection : s.session.connection = some l.connection
  channel : s.session.channel = some l.channel
  guarded : l.Guarded x.store c h
  trusted : s.Trusted x
  guards : s.Guards c h

structure Lost (x : Scene) (s : Supervisor) : Prop where
  connected : s.session.state = .connected
  listening : s.recovery = .listening
  told : (∃ y ∈ s.events, y.generation = s.session.generation) ∨
    ∃ w ∈ s.watchers, w.generation = s.session.generation ∧ w.phase = .watching ∧
      x.store.fired w.signal

end Supervisor

def Recovery.Repairs (x : Scene) : Recovery → Prop
  | .releasing _ => True
  | .pausing _ => True
  | .establishing y => y.Fits x
  | _ => False

def Recovery.outlook (m : Lifecycle) : Recovery → Lifecycle
  | .pausing ends => if ends ≤ m.now then m.dial else { m with phase := .reconnecting ends }
  | .establishing y => m.conclude (y.outcome m.plan m.account)
  | _ => m.retry

namespace Supervisor

variable {e f : Env Memory} {x : Scene} {s t : Supervisor} {m : Lifecycle}

inductive Stage (x : Scene) (s : Supervisor) : Lifecycle → Prop where
  | whole {l c h} (whole : s.Whole x l c h) : Stage x s (s.view x)
  | lost (lost : s.Lost x) : Stage x s (s.view x).retry
  | repairing (reconnecting : s.session.state = .reconnecting) (repairs : s.recovery.Repairs x) :
      Stage x s (s.recovery.outlook (s.view x))

end Supervisor

def Watcher.watches (w : Watcher) : Bool := w.phase == .watching

def Recovery.load (plan : List Declaration) (now : Instant) (connected : Bool) : Recovery → Nat
  | .pausing ends => if ends ≤ now then plan.length + 19 else 2
  | .establishing y => y.load plan
  | .arming .. => 12
  | .announcing _ => 7
  | .listening => if connected then 6 else 1
  | .releasing r => r.size + 3
  | .abandoning _ => 0
  | .ended => 0

namespace Supervisor

variable {e f : Env Memory} {x : Scene} {s t : Supervisor} {m : Lifecycle}

def load (now : Instant) (s : Supervisor) : Nat :=
  s.recovery.load s.topology.plan now (s.session.state == .connected) + s.events.length +
    2 * s.watchers.countP Watcher.watches

structure Next (e : Env Memory) (s : Supervisor) (m : Lifecycle) (f : Env Memory)
    (t : Supervisor) : Prop where
  now : f.now = e.now
  stage : t.Stage f.scene m
  minds : e.Minds (s.owns .connection) (t.owns .connection) f
  smaller : t.load f.now < s.load e.now

def Within (s : Supervisor) : Prop := ∀ w ∈ s.watchers, w.generation ≤ s.session.generation

theorem eventWithin (coherent : s.Coherent) (within : s.Within) {y : CloseEvent}
    (mem : y ∈ s.events) : y.generation ≤ s.session.generation := by
  obtain ⟨w, there, same, -⟩ := coherent.events y mem
  exact same ▸ within w there

theorem handleStale {y : CloseEvent} (stale : s.session.state = .connected →
    y.generation ≠ s.session.generation) : s.handle y = s :=
  if_neg fun current => stale current.2 current.1.symm

theorem mindsSame (owns : ∀ n ∈ s.owns .connection, n ∈ t.owns .connection) :
    e.Minds (s.owns .connection) (t.owns .connection) e :=
  Env.mindsMore (fun _ => id) owns

theorem unheard {l : Link} {c h : SignalId} {g : Nat} {w : Watcher} (guarded : l.Guarded x.store c h)
    (mem : w ∈ watchersFor g c h) : ¬ x.store.fired w.signal := by
  simp only [watchersFor, List.mem_cons, List.not_mem_nil, or_false] at mem
  rcases mem with rfl | rfl
  · exact guarded.unfired.1
  · exact guarded.unfired.2

theorem wholeNext {l : Link} {c h : SignalId} (whole : s.Whole e.scene l c h)
    (running : s.stopped = false) (move : RecoveryMove true e s f t) :
    Next e s (s.view e.scene) f t := by
  have trusted := whole.trusted
  have silent : s.recovery.replacing = false := by
    cases whole.guards with
    | arming here => rw [here]; rfl
    | watching here => rcases here with here | here <;> rw [here] <;> rfl
  cases move with
  | quit _ stopped => rw [running] at stopped; cases stopped
  | @handle y rest here next =>
    have older := trusted.events y (next ▸ List.mem_cons_self)
    have same : ({ s with events := rest } : Supervisor).handle y = { s with events := rest } :=
      handleStale fun _ => Nat.ne_of_lt older
    rw [same]
    refine ⟨rfl, .whole (l := l) (c := c) (h := h) ?_, mindsSame fun _ => id, ?_⟩
    · refine { whole with trusted := ⟨fun z mem => ?_, trusted.watchers⟩, guards := ?_ }
      · exact trusted.events z (next ▸ List.mem_cons_of_mem y mem)
      · cases whole.guards with
        | arming here => exact .arming here
        | watching here there => exact .watching here there
    · simp only [load, next, List.length_cons]
      omega
  | leave _ _ unasked => cases unasked
  | @arm g c' h' here =>
    cases whole.guards with
    | watching other => rcases other with other | other <;> cases other.symm.trans here
    | arming there =>
      cases there.symm.trans here
      refine ⟨rfl, .whole (l := l) (c := c) (h := h) ?_, ?_, ?_⟩
      · refine {
          whole with
          trusted := ⟨trusted.events, fun w mem watches fired => ?_⟩
          guards := .watching (.inl rfl) fun w mem => List.mem_append_right _ mem }
        rcases List.mem_append.mp mem with old | new
        · exact trusted.watchers w old watches fired
        · exact absurd fired (unheard whole.guarded new)
      · refine mindsSame fun n mem => ?_
        unfold owns at mem ⊢
        rw [here] at mem
        exact mem
      · simp only [load, here, Recovery.load, watchersFor, List.countP_append, List.countP_cons,
          List.countP_nil, Watcher.watches, beq_self_eq_true, if_true]
        omega
  | @announce g here =>
    refine ⟨rfl, .whole (l := l) (c := c) (h := h) ?_, ?_, ?_⟩
    · refine { whole with trusted := ⟨trusted.events, trusted.watchers⟩, guards := ?_ }
      cases whole.guards with
      | arming other => cases other.symm.trans here
      | watching _ there => exact .watching (.inr rfl) there
    · refine mindsSame fun n mem => ?_
      unfold owns at mem ⊢
      rw [here] at mem
      exact mem
    · simp only [load, here, whole.connected, Recovery.load, beq_self_eq_true, if_true]
      omega
  | release here | released here | dial here | giveUp here | adopt here | failed here
  | establish here | abandon here | abandoned here =>
    rw [here] at silent
    cases silent

theorem lostNext (lost : s.Lost e.scene) (running : s.stopped = false)
    (move : RecoveryMove true e s f t) : Next e s (s.view e.scene).retry f t := by
  have listening := lost.listening
  cases move with
  | quit _ stopped => rw [running] at stopped; cases stopped
  | @handle y rest here next =>
    by_cases current : y.generation = s.session.generation
    · have taken : ({ s with events := rest } : Supervisor).handle y = { s with
          events := rest, session := s.session.vacate .reconnecting
          recovery := .releasing s.session.held } := if_pos ⟨current.symm, lost.connected⟩
      rw [taken]
      refine ⟨rfl, .repairing rfl trivial, mindsSame fun n mem => ?_, ?_⟩
      · unfold owns at mem ⊢
        rw [here] at mem
        exact List.mem_append.mpr ((List.mem_append.mp mem).symm)
      · have few := Release.sizeFew s.session.held
        simp only [load, here, next, lost.connected, Recovery.load, List.length_cons,
          beq_self_eq_true, if_true]
        omega
    · have same : ({ s with events := rest } : Supervisor).handle y = { s with events := rest } :=
        handleStale fun _ => current
      rw [same]
      refine ⟨rfl, .lost ⟨lost.connected, here, ?_⟩, mindsSame fun _ => id, ?_⟩
      · refine lost.told.imp_left fun ⟨z, mem, its⟩ => ?_
        rcases List.mem_cons.mp (next ▸ mem) with rfl | old
        · exact absurd its current
        · exact ⟨z, old, its⟩
      · simp only [load, next, List.length_cons]
        omega
  | leave _ _ unasked => cases unasked
  | release here | released here | dial here | giveUp here | adopt here | failed here
  | establish here | abandon here | abandoned here | arm here | announce here =>
    cases listening.symm.trans here

theorem viewSame {y : Scene} (now : y.now = x.now) (account : y.account = x.account) :
    s.view y = s.view x := by
  unfold view
  rw [now, account]

theorem pauseLater (paced : 0 < s.pace) : ¬ Instant.wake e.now s.reconnectDelay ≤ e.now :=
  Nat.not_le_of_lt (Nat.lt_add_of_pos_right paced)

theorem pauseOutlook (paced : 0 < s.pace) :
    (s.pause e).recovery.outlook (s.view e.scene) = (s.view e.scene).retry :=
  if_neg (pauseLater paced)

theorem pauseLoad (paced : 0 < s.pace) {plan : List Declaration} {connected : Bool} :
    (s.pause e).recovery.load plan e.now connected = 2 := if_neg (pauseLater paced)

theorem pausingStage {ends : Instant} (reconnecting : s.session.state = .reconnecting)
    (here : s.recovery = .pausing ends) : s.Stage x (if ends ≤ x.now then (s.view x).dial
      else { s.view x with phase := .reconnecting ends }) := by
  have stage := Stage.repairing (x := x) reconnecting (by rw [here]; trivial)
  rw [here] at stage
  exact stage

theorem waitingStage {ends : Instant} (reconnecting : s.session.state = .reconnecting)
    (here : s.recovery = .pausing ends) (later : x.now < ends) :
    s.Stage x { s.view x with phase := .reconnecting ends } := by
  have stage := pausingStage (x := x) reconnecting here
  rw [if_neg (Nat.not_le_of_lt later)] at stage
  exact stage

theorem repairNext (coherent : s.Coherent) (within : s.Within) (paced : 0 < s.pace)
    (running : s.stopped = false) (reconnecting : s.session.state = .reconnecting)
    (repairs : s.recovery.Repairs e.scene) (move : RecoveryMove true e s f t) :
    Next e s (s.recovery.outlook (s.view e.scene)) f t := by
  have nothing : s.session.owns .connection = [] := by
    unfold Session.owns
    rw [heldSession coherent (by rw [reconnecting]; nofun)]
    rfl
  have hands {r : Recovery} (here : s.recovery = r) : s.owns .connection = r.owns .connection := by
    unfold Supervisor.owns
    rw [nothing, here]
    rfl
  -- a step that leaves the session as it is
  have goes {r q : Recovery} {f : Env Memory} (here : s.recovery = r) (now : f.now = e.now)
      (repairs : q.Repairs f.scene)
      (outlook : q.outlook (s.view f.scene) = r.outlook (s.view e.scene))
      (minds : e.Minds (r.owns .connection) (q.owns .connection) f)
      (smaller : q.load s.topology.plan f.now false < r.load s.topology.plan e.now false) :
      Next e s (s.recovery.outlook (s.view e.scene)) f { s with recovery := q } := by
    refine ⟨now, ?_, ?_, ?_⟩
    · rw [here, ← outlook]
      exact .repairing reconnecting repairs
    · refine Env.mindsAmong minds (fun n mem other => ?_) fun n mem => List.mem_append_right _ mem
      rw [hands here] at mem
      exact absurd mem other
    · simp only [load, here, reconnecting]
      exact Nat.add_lt_add_right (Nat.add_lt_add_right smaller _) _
  cases move with
  | quit _ stopped | giveUp _ stopped => rw [running] at stopped; cases stopped
  | handle here | leave here | abandon here | abandoned here | arm here | announce here =>
    rw [here] at repairs
    exact repairs.elim
  | @release r q f here move =>
    have made := Release.next move
    refine goes here made.now trivial ?_ made.minds (Nat.add_lt_add_right made.smaller 3)
    exact congrArg Lifecycle.retry (viewSame made.now made.account)
  | @released r here empty =>
    refine goes here rfl trivial (pauseOutlook paced) ?_ ?_
    · refine Env.mindsMore (fun _ => id) fun n mem => ?_
      have mem : n ∈ r.owns .connection := mem
      rw [Release.handsOff empty] at mem
      exact mem
    · exact Nat.lt_of_le_of_lt (Nat.le_of_eq (pauseLoad paced)) (Nat.le_add_left 3 r.size)
  | @dial ends here due =>
    refine goes here rfl trivial (if_pos due).symm (Env.mindsMore (fun _ => id) fun _ => id) ?_
    exact Nat.lt_of_lt_of_eq (Nat.lt_succ_self _) (if_pos due).symm
  | @adopt l c h here =>
    have guarded : l.Guarded e.scene.store c h := by
      rw [here] at repairs
      exact repairs
    have renewed : s.adopt l c h = { s with
        session := s.session.renew l, recovery := .arming (s.session.generation + 1) c h } :=
      if_neg (by rw [reconnecting]; nofun)
    rw [renewed]
    refine ⟨rfl, ?_, mindsSame fun n mem => ?_, ?_⟩
    · rw [here]
      refine .whole (l := l) (c := c) (h := h) ⟨rfl, rfl, rfl, guarded, ⟨fun y mem => ?_, ?_⟩,
        .arming rfl⟩
      · exact Nat.lt_succ_of_le (eventWithin coherent within mem)
      · exact fun w mem _ _ => Nat.lt_succ_of_le (within w mem)
    · rw [hands here] at mem
      exact List.mem_append_left _ mem
    · simp only [load, here, Recovery.load, Establish.load]
      omega
  | @failed z here =>
    refine goes here rfl trivial (pauseOutlook paced) (Env.mindsMore (fun _ => id) fun _ => id) ?_
    exact Nat.lt_of_le_of_lt (Nat.le_of_eq (pauseLoad paced)) (Nat.lt_succ_self 2)
  | @establish y z f here move =>
    rw [here] at repairs
    have made := Establish.next move repairs
    refine goes here made.now made.fits ?_ made.minds made.smaller
    change (s.view f.scene).conclude (z.outcome s.topology.plan f.account) =
      (s.view e.scene).conclude (y.outcome s.topology.plan e.account)
    rw [made.outcome]
    unfold view Env.scene
    rw [made.now]
    rfl

theorem recoveryNext (coherent : s.Coherent) (within : s.Within) (paced : 0 < s.pace)
    (running : s.stopped = false) (stage : s.Stage e.scene m) (move : RecoveryMove true e s f t) :
    Next e s m f t := by
  cases stage with
  | whole whole => exact wholeNext whole running move
  | lost lost => exact lostNext lost running move
  | repairing reconnecting repairs =>
    exact repairNext coherent within paced running reconnecting repairs move

theorem watchesFewer {i : Nat} {w : Watcher} {p : WatcherPhase} (found : s.watchers[i]? = some w)
    (here : w.phase = .watching) (gone : p ≠ .watching) :
    (s.setWatcher i w p).watchers.countP Watcher.watches + 1 =
      s.watchers.countP Watcher.watches := by
  have counted := countSet (p := Watcher.watches) (y := { w with phase := p }) found
  rw [show w.watches = true from beq_iff_eq.mpr here,
    show Watcher.watches { w with phase := p } = false from beq_false_of_ne gone] at counted
  exact counted

theorem trustedReport {i : Nat} {w : Watcher} {reason : String} (trusted : s.Trusted x)
    (found : s.watchers[i]? = some w) (here : w.phase = .watching)
    (fired : x.store.fired w.signal) :
    Trusted x { s.setWatcher i w .reported with
      events := s.events ++ [⟨w.generation, w.resource, reason⟩] } := by
  refine ⟨fun y mem => ?_, fun v mem watches heard => ?_⟩
  · rcases List.mem_append.mp mem with old | new
    · exact trusted.events y old
    · cases List.mem_singleton.mp new
      exact trusted.watchers w (List.mem_of_getElem? found) here fired
  · rcases List.mem_or_eq_of_mem_set mem with old | rfl
    · exact trusted.watchers v old watches heard
    · cases watches

theorem ofGeneration {g : Nat} {c h : SignalId} {w : Watcher} (mem : w ∈ watchersFor g c h) :
    w.generation = g := by
  simp only [watchersFor, List.mem_cons, List.not_mem_nil, or_false] at mem
  rcases mem with rfl | rfl <;> rfl

theorem withinChange (coherent : s.Coherent) (within : s.Within) (change : Change e s f t) :
    t.Within := by
  have grows := generationChange coherent change
  have set {i : Nat} {w : Watcher} {p : WatcherPhase} (found : s.watchers[i]? = some w) :
      ∀ v ∈ (s.setWatcher i w p).watchers, v.generation ≤ s.session.generation := by
    intro v mem
    rcases List.mem_or_eq_of_mem_set mem with old | rfl
    · exact within v old
    · exact within w (List.mem_of_getElem? found)
  cases change with
  | same => exact within
  | watcher move => cases move <;> exact set (by assumption)
  | closing move => cases move <;> exact within
  | recovery move =>
    cases move with
    | handle =>
      unfold handle at grows ⊢
      split <;> exact within
    | adopt =>
      unfold adopt at grows ⊢
      split
      · exact within
      · exact fun w mem => Nat.le_succ_of_le (within w mem)
    | @arm g c h here =>
      intro w mem
      rcases List.mem_append.mp mem with old | new
      · exact within w old
      · exact Nat.le_of_eq ((ofGeneration new).trans (coherent.told g (by rw [here]; rfl)))
    | _ => exact within

theorem withinReachable {outside : Memory → Memory → Prop} {w : World Memory}
    (reached : World.Reachable outside w) {i : Nat} {c : Client} (found : w.clients[i]? = some c) :
    c.supervisor.Within := by
  refine (World.reachableClient (P := fun _ c => c.supervisor.Coherent ∧ c.supervisor.Within)
    (fun _ o l a b => ⟨coherentStart _ _ _ l a b, fun w mem => Nat.le_of_eq (ofGeneration mem)⟩)
    (fun e c f d change kept => ?_) reached found).2
  exact ⟨coherentChange kept.1 (changeOf change), withinChange kept.1 kept.2 (changeOf change)⟩

theorem watcherNext {i : Nat} (running : s.stopped = false) (stage : s.Stage e.scene m)
    (move : WatcherMove i e s t) : Next e s m e t := by
  cases move with
  | quit _ _ stopped => rw [running] at stopped; cases stopped
  | @report w found here fired =>
    have fewer := watchesFewer found here (p := .reported) nofun
    refine ⟨rfl, ?_, mindsSame fun _ => id, ?_⟩
    · cases stage with
      | @whole l c h whole =>
        have stale := whole.trusted.watchers w (List.mem_of_getElem? found) here fired
        refine .whole (l := l) (c := c) (h := h) { whole with
          trusted := trustedReport whole.trusted found here fired, guards := ?_ }
        cases whole.guards with
        | arming here => exact .arming here
        | watching here there =>
          refine .watching here fun v mem => otherStays found (there v mem) ?_
          rintro rfl
          exact Nat.ne_of_lt stale (ofGeneration mem)
      | lost lost =>
        refine .lost ⟨lost.connected, lost.listening, ?_⟩
        rcases lost.told with ⟨y, mem, its⟩ | ⟨v, mem, its, watches, heard⟩
        · exact .inl ⟨y, List.mem_append_left _ mem, its⟩
        · by_cases same : v = w
          · subst same
            exact .inl ⟨_, List.mem_append_right _ (List.mem_singleton_self _), its⟩
          · exact .inr ⟨v, otherStays found mem same, its, watches, heard⟩
      | repairing reconnecting repairs => exact .repairing reconnecting repairs
    · simp only [load, setWatcher, List.length_append, List.length_singleton] at fewer ⊢
      omega

end Supervisor

end AmqpClient
