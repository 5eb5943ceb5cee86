import AmqpClient.Proofs.Fates
import AmqpClient.Proofs.Hands
import AmqpClient.Proofs.Subscriptions
import AmqpClient.Proofs.Supervisor.Withdrawal
/-! Where a client is going that keeps a link and does nothing else. Until someone closes it, it goes
where its supervisor goes; from then on nothing is repaired. Each step brings it nearer, so that it
comes to rest, and at rest it is seen to be where it was going. -/
namespace AmqpClient

open Broker (Memory Store)

theorem Establish.alwaysGoesOn (client : String) (t : Topology) {e : Env Memory} {x : Establish}
    (fits : x.Fits e.scene) : (∃ l c h, x = .ready l c h) ∨ (∃ z, x = .failed z) ∨
      ∃ f y, x.step client t e = some (f, y) := by
  rcases waitsForDial client t e x with ready | failed | ⟨number, ends, rfl, early⟩ | made
  · exact .inl ready
  · exact .inr (.inl failed)
  · exact absurd early (Nat.not_lt_of_le fits)
  · exact .inr (.inr made)

namespace Supervisor

variable {e : Env Memory} {s : Supervisor}

theorem lostGoesOn (lost : s.Lost e.scene) (running : s.stopped = false) :
    s.recoveryStep true false e ≠ none ∨ ∃ i, s.watcherStep i false e ≠ none := by
  rcases lost.told with ⟨y, mem, -⟩ | ⟨w, mem, -, watches, fired⟩
  · refine .inl fun stuck => ?_
    obtain ⟨z, rest, same⟩ := List.exists_cons_of_ne_nil (List.ne_nil_of_mem mem)
    unfold recoveryStep at stuck
    rw [lost.listening, same, running] at stuck
    cases stuck
  · obtain ⟨i, found⟩ := List.getElem?_of_mem mem
    have heard : (Broker.signal e.broker w.signal).fired = true := fired
    refine .inr ⟨i, fun stuck => ?_⟩
    unfold watcherStep at stuck
    simp only [found, watches, heard, running, ne_eq, not_true_eq_false, if_false, Bool.not_false,
      Bool.and_self, if_true] at stuck
    cases stuck

theorem repairWaits (repairs : s.recovery.Repairs e.scene) (running : s.stopped = false)
    (stuck : s.recoveryStep true false e = none) :
    ∃ ends, s.recovery = .pausing ends ∧ e.now < ends := by
  unfold recoveryStep at stuck
  generalize s.recovery = r at stuck repairs
  cases r with
  | releasing r =>
    dsimp only at stuck
    split at stuck <;> cases stuck
  | pausing ends =>
    refine ⟨ends, rfl, Nat.lt_of_not_le fun due => ?_⟩
    simp only [due, running, decide_true, Bool.not_false, Bool.and_self, if_true] at stuck
    cases stuck
  | establishing y =>
    rcases Establish.alwaysGoesOn s.client s.topology repairs with
      ⟨l, a, b, rfl⟩ | ⟨z, rfl⟩ | ⟨f, z, made⟩
    · cases stuck
    · cases stuck
    · split at stuck
      case h_7 same =>
        cases same
        rw [made] at stuck
        cases stuck
      all_goals contradiction
  | _ => exact repairs.elim

end Supervisor

def Call.work : Call → Nat
  | .close x => x.work
  | _ => 0

namespace Client

variable {e f : Env Memory} {x : Scene} {c d : Client} {m : Lifecycle}

def work (now : Instant) (c : Client) : Nat := c.supervisor.load now + total Call.work c.calls

inductive Heading (x : Scene) (c : Client) : Lifecycle → Prop where
  | going {k} (uncalled : c.calls = []) (running : c.supervisor.stopped = false)
      (stage : c.supervisor.Stage x k) : Heading x c k
  | leaving (called : c.calls ≠ []) (leaves : c.supervisor.Leaves x) :
      Heading x c { c.supervisor.view x with phase := .closed }

structure Heads (x : Scene) (c : Client) (m : Lifecycle) : Prop where
  role : c.role = .supervisor
  held : c.held = true
  paced : 0 < c.supervisor.pace
  closes : ∀ y ∈ c.calls, ∃ a, y = .close a
  custody : ∀ n, x.store.openAt .connection n → n ∈ c.owns .connection
  heading : c.Heading x m

structure Nears (e : Env Memory) (c : Client) (m : Lifecycle) (f : Env Memory) (d : Client) : Prop where
  now : f.now = e.now
  heads : d.Heads f.scene m
  smaller : d.work f.now < c.work e.now

theorem nearsGoing {t : Supervisor} (heads : c.Heads e.scene m) (uncalled : c.calls = [])
    (next : Supervisor.Next e c.supervisor m f t) (running : t.stopped = false)
    (delay : t.reconnectDelay = c.supervisor.reconnectDelay) :
    Nears e c m f { c with supervisor := t } := by
  refine ⟨next.now, ?_, Nat.add_lt_add_right next.smaller _⟩
  refine {
    heads with
    paced := ?_
    custody := fun n isOpen => ?_
    heading := .going uncalled running next.stage }
  · have paced := heads.paced
    unfold Supervisor.pace at paced ⊢
    rw [delay]
    exact paced
  · rcases next.minds n isOpen with mine | ⟨old, other⟩
    · exact List.mem_append_left _ mine
    · have mem := heads.custody n old
      unfold owns at mem
      rw [uncalled] at mem
      exact absurd ((List.mem_append.mp mem).resolve_right nofun) other

theorem nearsLeaving {t : Supervisor}
    (heads : c.Heads e.scene { c.supervisor.view e.scene with phase := .closed })
    (called : c.calls ≠ []) (withdraws : Supervisor.Withdraws e c.supervisor t) :
    Nears e c { c.supervisor.view e.scene with phase := .closed } e { c with supervisor := t } := by
  refine ⟨rfl, ?_, Nat.add_lt_add_right withdraws.smaller _⟩
  have pace : t.pace = c.supervisor.pace := congrArg Lifecycle.pace withdraws.view
  rw [← withdraws.view]
  refine {
    heads with
    paced := pace ▸ heads.paced
    custody := fun n isOpen => ?_
    heading := .leaving called withdraws.leaves }
  have mem := heads.custody n isOpen
  unfold owns at mem ⊢
  rw [withdraws.owns]
  exact mem

theorem nearsClosing {i : Nat} {a b : Closing} {t : Supervisor}
    (heads : c.Heads e.scene { c.supervisor.view e.scene with phase := .closed })
    (here : c.calls[i]? = some (.close a)) (closes : Supervisor.Closes e c.supervisor a f t b) :
    Nears e c { c.supervisor.view e.scene with phase := .closed } f
      ({ c with supervisor := t }.setCall i (.close b)) := by
  have inside : i < c.calls.length := (List.getElem?_eq_some_iff.mp here).1
  refine ⟨closes.now, ?_, ?_⟩
  · have pace : t.pace = c.supervisor.pace := congrArg Lifecycle.pace closes.view
    rw [← closes.view]
    refine {
      heads with
      paced := pace ▸ heads.paced
      closes := fun y mem => ?_
      custody := fun n isOpen => ?_
      heading := .leaving (fun none => ?_) closes.leaves }
    · rcases List.mem_or_eq_of_mem_set mem with old | rfl
      · exact heads.closes y old
      · exact ⟨b, rfl⟩
    · rcases closes.minds n isOpen with mine | ⟨old, other⟩
      · rcases List.mem_append.mp mine with call | session
        · exact List.mem_append_right _
            (List.mem_flatMap.mpr ⟨_, List.mem_set inside _, call⟩)
        · exact List.mem_append_left _ session
      · -- somebody else of this client has it, and keeps it
        rcases List.mem_append.mp (heads.custody n old) with session | call
        · exact absurd (List.mem_append_right _ session) other
        · obtain ⟨z, mem, its⟩ := List.mem_flatMap.mp call
          refine List.mem_append_right _ (List.mem_flatMap.mpr ⟨z, otherStays here mem ?_, its⟩)
          rintro rfl
          exact other (List.mem_append_left _ its)
    · have empty : c.calls.length = 0 := List.length_set.symm.trans (congrArg List.length none)
      exact Nat.not_lt_zero i (empty ▸ inside)
  · have changed := totalSet (f := Call.work) (y := .close b) here
    have smaller := closes.smaller
    unfold work setCall
    dsimp only [Call.work] at changed ⊢
    omega

theorem nearsMove (coherent : c.supervisor.Coherent) (within : c.supervisor.Within)
    (closings : c.Closings) (heads : c.Heads e.scene m) (move : Move e c f d) :
    Nears e c m f d := by
  cases move with
  | loop role | worker role | retry role | start role | closeConsumer role =>
    cases heads.role.symm.trans role
  | publish here =>
    obtain ⟨a, same⟩ := heads.closes _ (List.mem_of_getElem? here)
    cases same
  | recovery made =>
    have asked : c.alive = true := by
      unfold alive
      rw [heads.held]
      rfl
    have move := Supervisor.recoveryMove made
    rw [asked] at move
    cases heads.heading with
    | going uncalled running stage =>
      have next := Supervisor.recoveryNext coherent within heads.paced running stage move
      exact nearsGoing heads uncalled next ((Supervisor.stoppedOfRecovery move).trans running)
        (Supervisor.delayOfRecovery move)
    | leaving called leaves =>
      obtain ⟨rfl, withdraws⟩ := Supervisor.recoveryWithdraws coherent leaves move
      exact nearsLeaving heads called withdraws
  | watcher made =>
    obtain ⟨rfl, move⟩ := Supervisor.watcherMove made
    cases heads.heading with
    | going uncalled running stage =>
      exact nearsGoing heads uncalled (Supervisor.watcherNext running stage move)
        ((Supervisor.stoppedOfWatcher move).trans running) (Supervisor.delayOfWatcher move)
    | leaving called leaves =>
      exact nearsLeaving heads called (Supervisor.watcherWithdraws leaves move)
  | @close i a _ _ _ here made =>
    have mem := List.mem_of_getElem? here
    have taken : 1 < a.stage → c.supervisor.session.state = .closed :=
      fun far => closings.taken _ mem far
    cases heads.heading with
    | going uncalled =>
      rw [uncalled] at mem
      cases mem
    | leaving called leaves =>
      exact nearsClosing heads here
        (Supervisor.closingCloses leaves taken (Supervisor.closingMove made))

inductive Rested (x : Scene) (c : Client) : Lifecycle → Prop where
  | connected {l a b} (uncalled : c.calls = []) (running : c.supervisor.stopped = false)
      (here : c.supervisor.recovery = .listening) (whole : c.supervisor.Whole x l a b) :
      Rested x c (c.supervisor.view x)
  | waiting {ends} (uncalled : c.calls = []) (running : c.supervisor.stopped = false)
      (reconnecting : c.supervisor.session.state = .reconnecting)
      (here : c.supervisor.recovery = .pausing ends) (later : x.now < ends) :
      Rested x c { c.supervisor.view x with phase := .reconnecting ends }
  | closed (called : c.calls ≠ []) (closed : c.supervisor.session.state = .closed)
      (here : c.supervisor.recovery = .ended)
      (returned : ∀ y ∈ c.calls, ∃ o, y = .close (.done o)) :
      Rested x c { c.supervisor.view x with phase := .closed }

theorem restedStage (running : c.supervisor.stopped = false) (uncalled : c.calls = [])
    (stage : c.supervisor.Stage e.scene m)
    (stuck : c.supervisor.recoveryStep true false e = none)
    (watching : ∀ i, c.supervisor.watcherStep i false e = none) : c.Rested e.scene m := by
  cases stage with
  | whole whole =>
    unfold Supervisor.recoveryStep at stuck
    cases whole.guards with
    | arming here =>
      rw [here] at stuck
      cases stuck
    | watching here =>
      rcases here with here | here
      · rw [here] at stuck
        cases stuck
      · exact .connected uncalled running here whole
  | lost lost =>
    rcases Supervisor.lostGoesOn lost running with goes | ⟨i, goes⟩
    · exact absurd stuck goes
    · exact absurd (watching i) goes
  | repairing reconnecting repairs =>
    obtain ⟨ends, here, later⟩ := Supervisor.repairWaits repairs running stuck
    rw [here, show Recovery.outlook (c.supervisor.view e.scene) (.pausing ends) =
      { c.supervisor.view e.scene with phase := .reconnecting ends } from
        if_neg (Nat.not_le_of_lt later)]
    exact .waiting uncalled running reconnecting here later

theorem restedLeft (closings : c.Closings) (called : c.calls ≠ [])
    (leaves : c.supervisor.Leaves e.scene)
    (returned : ∀ y ∈ c.calls, ∃ o, y = .close (.done o))
    (stuck : c.supervisor.recoveryStep true false e = none) :
    c.Rested e.scene { c.supervisor.view e.scene with phase := .closed } := by
  obtain ⟨y, rest, some_⟩ := List.exists_cons_of_ne_nil called
  have mem : y ∈ c.calls := some_ ▸ List.mem_cons_self
  obtain ⟨o, rfl⟩ := returned y mem
  have stopped := closings.raised _ mem (Nat.succ_pos 2)
  refine .closed called (closings.taken _ mem (show 1 < 3 by decide)) ?_ returned
  have idle := leaves.idle
  unfold Supervisor.recoveryStep at stuck
  cases here : c.supervisor.recovery with
  | ended => rfl
  | listening =>
    rw [here] at stuck
    dsimp only at stuck
    rw [stopped] at stuck
    split at stuck <;> cases stuck
  | pausing ends =>
    rw [here] at stuck
    dsimp only at stuck
    rw [stopped] at stuck
    split at stuck <;> cases stuck
  | _ =>
    rw [here] at idle
    exact idle.elim

theorem restedLater {n : Nat} (rested : c.Rested x m) (passes : 0 < n)
    (soon : ∀ ends, c.supervisor.recovery = .pausing ends → x.now + n ≤ ends) :
    c.Heading { x with now := x.now + n } (m.wait n) := by
  cases rested with
  | connected uncalled running here whole =>
    rw [Lifecycle.waitIdle (m := c.supervisor.view x) nofun]
    exact .going uncalled running (.whole
      { whole with trusted := ⟨whole.trusted.events, whole.trusted.watchers⟩ })
  | @waiting ends uncalled running reconnecting here later =>
    refine .going uncalled running ?_
    rcases Nat.eq_or_lt_of_le (soon ends here) with rfl | early
    · rw [Lifecycle.waitDue rfl passes]
      have stage := Supervisor.pausingStage (x := { x with now := x.now + n }) reconnecting here
      rw [if_pos (Nat.le_refl _)] at stage
      have same := Lifecycle.dialPhase (.reconnecting (x.now + n))
        (c.supervisor.view { x with now := x.now + n })
      exact same.symm ▸ stage
    · rw [Lifecycle.waitIdle fun due same => by cases same; exact .inr early]
      exact Supervisor.waitingStage reconnecting here early
  | closed called closed here =>
    rw [Lifecycle.waitIdle (m := { c.supervisor.view x with phase := .closed }) nofun]
    exact .leaving called (Supervisor.leavesEnded here closed)

theorem headsLost {y : Scene} (heads : c.Heads x m) (rested : c.Rested x m) (now : y.now = x.now)
    (account : y.account = x.account)
    (opened : ∀ n, y.store.openAt .connection n → x.store.openAt .connection n)
    (fires : ∀ l a b, Link.Guarded x.store l a b → y.store.fired a ∨ y.store.fired b) :
    c.Heads y m.lose := by
  refine { heads with custody := fun n isOpen => heads.custody n (opened n isOpen), heading := ?_ }
  have view : c.supervisor.view y = c.supervisor.view x := Supervisor.viewSame now account
  cases rested with
  | @connected l a b uncalled running here whole =>
    have stands : ∀ w ∈ Supervisor.watchersFor c.supervisor.session.generation a b,
        w ∈ c.supervisor.watchers := by
      cases whole.guards with
      | arming other => cases other.symm.trans here
      | watching _ there => exact there
    rw [show (c.supervisor.view x).lose = (c.supervisor.view y).retry from view ▸ if_pos rfl]
    refine .going uncalled running (.lost ⟨whole.connected, here, .inr ?_⟩)
    rcases fires l a b whole.guarded with fired | fired
    · exact ⟨_, stands _ List.mem_cons_self, rfl, rfl, fired⟩
    · exact ⟨_, stands _ (List.mem_cons_of_mem _ List.mem_cons_self), rfl, rfl, fired⟩
  | @waiting ends uncalled running reconnecting here later =>
    have stage := Supervisor.waitingStage (x := y) reconnecting here (now ▸ later)
    rw [view] at stage
    exact .going uncalled running stage
  | closed called closed here =>
    rw [← view]
    exact .leaving called (Supervisor.leavesEnded here closed)

theorem headsAccounted {a : Account} (heads : c.Heads x m) (rested : c.Rested x m) :
    c.Heads { x with account := a } { m with account := a } := by
  refine { heads with heading := ?_ }
  cases rested with
  | connected uncalled running here whole =>
    exact .going uncalled running (.whole
      { whole with trusted := ⟨whole.trusted.events, whole.trusted.watchers⟩ })
  | @waiting ends uncalled running reconnecting here later =>
    exact .going uncalled running (Supervisor.waitingStage reconnecting here later)
  | closed called closed here =>
    exact .leaving called (Supervisor.leavesEnded here closed)

theorem headsClosed (heads : c.Heads x m) (rested : c.Rested x m) :
    Heads x { c with calls := c.calls ++ [.close .raising] } { m with phase := .closed } := by
  have idle : c.supervisor.Leaves x := by
    cases rested with
    | connected _ _ here whole =>
      refine ⟨?_, fun _ => whole.trusted⟩
      rw [here]
      trivial
    | waiting _ _ reconnecting here later =>
      refine ⟨?_, fun connected => nomatch reconnecting.symm.trans connected⟩
      rw [here]
      exact later
    | closed _ closed here => exact Supervisor.leavesEnded here closed
  have view : { m with phase := .closed } = { c.supervisor.view x with phase := .closed } := by
    cases rested <;> rfl
  rw [view]
  refine {
    heads with
    closes := fun y mem => ?_
    custody := fun n isOpen => ?_
    heading := .leaving (List.append_ne_nil_of_right_ne_nil _ nofun) idle }
  · rcases List.mem_append.mp mem with old | new
    · exact heads.closes y old
    · exact ⟨_, List.mem_singleton.mp new⟩
  · have mem := heads.custody n isOpen
    unfold owns at mem ⊢
    rw [List.flatMap_append, ← List.append_assoc]
    exact List.mem_append_left _ mem

end Client

namespace World

variable {w v : World Memory} {c : Client} {m : Lifecycle}

structure Heads (c : Client) (m : Lifecycle) (w : World Memory) : Prop where
  exercised : w.Exercised
  openings : ∀ o ∈ w.openings, o.Over
  alone : w.clients = [c]
  client : c.Heads w.env.scene m

theorem sceneRecordEnd (i : Nat) (a : Activity) (d : Client) (e : Env Memory) :
    (recordEnd i a d e).scene = e.scene := by
  unfold recordEnd
  split
  · split <;> rfl
  · rfl

theorem headsFound (heads : w.Heads c m) : w.clients[0]? = some c := by
  rw [heads.alone]
  rfl

theorem headsAct (heads : w.Heads c m) (made : Acts w v) :
    ∃ d, v.Heads d m ∧ d.work v.env.now < c.work w.env.now := by
  have reached := exercisedReachable heads.exercised
  have after := exercisedRun heads.exercised (.single (.act made))
  obtain ⟨a, preferStop, made⟩ := made
  cases a with
  | opening i => cases (openingStill heads.openings i).symm.trans made
  | client i a =>
    obtain ⟨b, f, d, found, stepped, rfl⟩ := clientStepSource made
    have here : i = 0 := by
      have inside := (List.getElem?_eq_some_iff.mp found).1
      rw [heads.alone] at inside
      exact Nat.lt_one_iff.mp inside
    subst here
    cases (headsFound heads).symm.trans found
    obtain ⟨coherent, closings⟩ := Client.closingsReachable reached found
    have nears := Client.nearsMove coherent (Supervisor.withinReachable reached found) closings
      heads.client (Client.clientMove stepped)
    have scene := sceneRecordEnd 0 a d f
    refine ⟨d, ⟨after, heads.openings, ?_, ?_⟩, ?_⟩
    · dsimp only
      rw [heads.alone]
      rfl
    · exact scene ▸ nears.heads
    · have now : (recordEnd 0 a d f).now = f.now := congrArg Scene.now scene
      dsimp only
      rw [now]
      exact nears.smaller

theorem headsSettle (heads : w.Heads c m) :
    ∃ u d, Run (fun w v => Passing w v ∧ Prompt w v) w u ∧ u.Quiet ∧ u.env.now = w.env.now ∧
      u.Heads d m := by
  generalize left : c.work w.env.now = n
  induction n using Nat.strongRecOn generalizing w c with
  | ind n ih =>
    by_cases quiet : w.Quiet
    · exact ⟨w, c, .refl w, quiet, rfl, heads⟩
    · obtain ⟨v, made⟩ := actOf quiet
      obtain ⟨d, kept, less⟩ := headsAct heads made
      obtain ⟨u, z, run, rest, now, last⟩ := ih _ (left ▸ less) kept rfl
      have first := nowOfActs (.single made)
      exact ⟨u, z, (Run.single ⟨.act made, promptAct made⟩).trans run, rest, now.trans first, last⟩

theorem headsRested (heads : w.Heads c m) (quiet : w.Quiet) : c.Rested w.env.scene m := by
  have found := headsFound heads
  have reached := exercisedReachable heads.exercised
  obtain ⟨-, closings⟩ := Client.closingsReachable reached found
  have asked : c.alive = true := by
    unfold Client.alive
    rw [heads.client.held]
    rfl
  have stuck : c.supervisor.recoveryStep true false w.env = none := by
    have still := stillOf quiet found .recovery
    unfold Client.step at still
    rw [asked] at still
    exact Option.map_eq_none_iff.mp still
  cases heads.client.heading with
  | going uncalled running stage =>
    refine Client.restedStage running uncalled stage stuck fun i => ?_
    exact Option.map_eq_none_iff.mp (stillOf quiet found (.watcher i))
  | leaving called leaves =>
    refine Client.restedLeft closings called leaves (fun y mem => ?_) stuck
    obtain ⟨a, rfl⟩ := heads.client.closes y mem
    obtain ⟨o, rfl⟩ := ((quietHands reached quiet).2 c (List.mem_of_getElem? found)).2 _ mem a rfl
    exact ⟨o, rfl⟩

end World

end AmqpClient
