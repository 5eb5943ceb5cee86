import AmqpClient.Proofs.Consumer.Permits
import AmqpClient.Proofs.Subscriptions
/-! No started consumer is left idle. When nothing more can be done at an instant, its loop knows the
present generation, so it reads from the session's channel, or all permits are taken, or a timer that
is not far away wakes it. -/
namespace AmqpClient

open Broker (Memory Store Commanded)

variable {β : Type} [Broker β] {e f : Env β} {s t : Supervisor} {k m : Consumer} {c d : Client}

namespace Supervisor

structure Lent (s : Supervisor) (g : Nat) (ch : ChannelId) : Prop where
  older : g ≤ s.session.generation
  current : g = s.session.generation → s.session.state = .connected → s.session.channel = some ch

theorem lentOfChannel {b : β} {ch : ChannelId} (current : s.channel? b = .ok ch) :
    s.Lent s.session.generation ch := by
  refine ⟨Nat.le_refl _, fun _ _ => ?_⟩
  unfold channel? Session.channel? at current
  split at current
  · cases current
  · split at current
    · rename_i there
      split at current <;> cases current
      exact there
    · cases current

theorem lentSession {g : Nat} {ch : ChannelId} (lent : s.Lent g ch)
    (change : Session.Change s.session t.session) : t.Lent g ch := by
  obtain ⟨older, current⟩ := lent
  generalize after : t.session = u at change
  refine ⟨?_, ?_⟩ <;> rw [after] <;> cases change
  · exact older
  · exact older
  · exact Nat.le_succ_of_le older
  · exact older
  · exact current
  · exact fun _ => nofun
  · exact fun same => absurd (same ▸ older) (Nat.not_succ_le_self _)
  · exact fun _ => nofun

end Supervisor

namespace Consumer

def latestWake (now : Instant) (k : Consumer) : Instant :=
  now + max k.options.unavailableBackoff.milliseconds k.options.resubscribeDelay.milliseconds

theorem wakeBackoff (now : Instant) (k : Consumer) :
    Instant.wake now k.options.unavailableBackoff ≤ k.latestWake now :=
  Nat.add_le_add_left (Nat.le_trans (Nat.min_le_left _ _) (Nat.le_max_left _ _)) now

theorem wakeDelay (now : Instant) (k : Consumer) :
    Instant.wake now k.options.resubscribeDelay ≤ k.latestWake now :=
  Nat.add_le_add_left (Nat.le_trans (Nat.min_le_left _ _) (Nat.le_max_right _ _)) now

theorem pauseMove {i : Nat} {l l' : Loop} {ends : Instant} (found : k.loops[i]? = some l)
    (move : LoopMove i s e k l f m) (there : m.loops[i]? = some l')
    (timed : l'.timer? = some ends) : ends ≤ k.latestWake e.now := by
  have inside : i < k.loops.length := (List.getElem?_eq_some_iff.mp found).1
  have same {x : Loop} (loops : m.loops = k.loops.set i x) : x.timer? = some ends := by
    rw [loops, List.getElem?_set_self inside] at there
    cases there
    exact timed
  cases move with
  | unopened =>
    cases same rfl
    exact wakeBackoff e.now k
  | unprefetched _ answer | unsubscribed _ answer =>
    cases same rfl
    rw [← (Prod.mk.inj answer).1]
    exact wakeBackoff e.now k
  | broken _ _ _ answer | ended _ _ _ answer =>
    cases same rfl
    rw [← (Prod.mk.inj answer).1]
    exact wakeDelay e.now k
  | _ => cases same rfl

inductive Loop.Rests (s : Supervisor) (e : Env β) (k : Consumer) (l : Loop) : Prop where
  | reads {ch stream} (here : l.phase = .reading ch stream) (told : l.seen = s.announced)
      (empty : (e.poll stream).2 = .waiting) : Rests s e k l
  | full {ch stream d} (here : l.phase = .admitting ch stream d) (spent : k.permits = 0) :
      Rests s e k l
  | sleeps {ends stream} (here : l.phase = .pausing ends stream) (later : e.now < ends) :
      Rests s e k l

theorem restsOf {i : Nat} {l : Loop} (found : k.loops[i]? = some l) (running : k.stopped = false)
    (serving : l.phase.leaving = false) (stuck : k.loopStep i false s e = none) :
    l.Rests s e k := by
  unfold loopStep at stuck
  rw [found] at stuck
  dsimp only at stuck
  split at stuck
  case h_3 => split at stuck <;> cases stuck
  case h_4 => split at stuck <;> cases stuck
  case h_5 => split at stuck <;> cases stuck
  case h_6 ch stream here =>
    rw [if_neg (by rw [running]; decide)] at stuck
    split at stuck
    · cases stuck
    · rename_i told
      refine .reads here (Decidable.not_not.mp told) ?_
      split at stuck <;> rename_i answer <;> try cases stuck
      rw [answer]
  case h_7 ch stream d here =>
    refine .full here ?_
    rw [running] at stuck
    split at stuck
    · cases stuck
    · rename_i none
      simpa using none
  case h_8 ends stream here =>
    refine .sleeps here ?_
    rw [running] at stuck
    split at stuck
    · cases stuck
    · rename_i early
      simpa using early
  case h_9 here | h_10 here | h_11 here | h_12 here =>
    rw [here] at serving
    cases serving
  all_goals cases stuck

end Consumer

namespace Client

def Brief (now : Instant) (c : Client) : Prop :=
  ∀ (k : Consumer) (j : Nat) (l : Consumer.Loop) (ends : Instant), c.role = .consumer k →
    k.loops[j]? = some l → l.timer? = some ends → ends ≤ k.latestWake now

theorem briefMove (brief : c.Brief e.now) (move : Move e c f d) : d.Brief e.now := by
  intro m j l ends role there timed
  obtain ⟨k, was, options, source⟩ := loopFrom move role
  unfold Consumer.latestWake
  rw [options]
  cases source j l there with
  | kept before => exact brief k j l ends was before timed
  | spawned fresh =>
    subst fresh
    cases timed
  | moved before move => exact Consumer.pauseMove before move there timed

theorem briefLater {now later : Instant} (brief : c.Brief now) (order : now ≤ later) :
    c.Brief later := fun k j l ends role there timed =>
  Nat.le_trans (brief k j l ends role there timed) (Nat.add_le_add_right order _)

theorem briefChange (brief : c.Brief e.now) (change : Change e c f d) : d.Brief e.now := by
  cases change with
  | same | call | letGo => exact brief
  | step made => exact briefMove brief (clientMove made)

structure Current (e : Env β) (c : Client) : Prop where
  coherent : c.supervisor.Coherent
  tuned : c.Tuned (fun _ => c.supervisor.Lent) e

theorem currentChange (current : c.Current e) (change : Change e c f d) : d.Current f := by
  have coherent := current.coherent
  have session := Supervisor.sessionChange coherent (Supervisor.changeOf change)
  refine ⟨Supervisor.coherentChange coherent (Supervisor.changeOf change),
    tunedChange coherent current.tuned (fun _ _ _ lent => Supervisor.lentSession lent session) ?_
      change⟩
  exact fun k j l ch _ _ _ there =>
    Supervisor.lentSession (Supervisor.lentOfChannel there) session

end Client

namespace Consumer

inductive Engaged (w : World Memory) (c : Client) (k : Consumer) (l : Loop) : Prop where
  | reads {ch : ChannelId} {x : StreamId} {stream : Broker.Stream}
      (here : l.phase = .reading ch x)
      (present : c.supervisor.session.channel = some ch)
      (isOpen : w.env.broker.store.channelOpen ch = true)
      (found : w.env.broker.store.streams[x]? = some stream)
      (live : stream.live ch c.supervisor.topology.queueName = true)
      (drained : stream.items.length ≤ stream.taken)
      (empty : ∀ p ∈ w.env.broker.store.pending, p.1 ≠ c.supervisor.topology.queueName) :
      Engaged w c k l
  | full {ch : ChannelId} {x : StreamId} {d : Delivery} (here : l.phase = .admitting ch x d)
      (spent : k.permits = 0)
      (processing : k.processing = min k.options.maxInFlight.toNat maxPermits) : Engaged w c k l
  | sleeps {ends : Instant} {x : Option StreamId} (here : l.phase = .pausing ends x)
      (later : w.env.now < ends) (soon : ends ≤ k.latestWake w.env.now) : Engaged w c k l

end Consumer

namespace World

variable {outside : β → β → Prop}

theorem briefReachable {w : World β} (reached : Reachable outside w) {i : Nat} {c : Client}
    (found : w.clients[i]? = some c) : c.Brief w.env.now := by
  refine reachableTimed (P := Client.Brief) ?_ (fun _ _ _ before => Client.briefLater before)
    (fun _ _ _ _ change brief => Client.briefChange brief change) reached found
  intro now o l a b k j m ends role there
  -- a client is made without a loop
  obtain ⟨_, plan, _⟩ := o
  cases plan <;> cases role
  cases there

theorem currentReachable {w : World β} (reached : Reachable outside w) {i : Nat} {c : Client}
    (found : w.clients[i]? = some c) : c.Current w.env := by
  refine reachableClient (P := fun e c => c.Current e) ?_ ?_ reached found
  · intro e o l a b
    refine ⟨Supervisor.coherentStart .., fun k j m role there => ?_⟩
    obtain ⟨_, plan, _⟩ := o
    cases plan <;> cases role
    cases there
  · intro e c f d change current
    exact Client.currentChange current change

variable {w : World Memory} {i : Nat} {l : Consumer.Loop}

theorem streamWaits {s : Store} {x : StreamId} (empty : (s.poll x).2 = .waiting) :
    ∃ stream, s.streams[x]? = some stream ∧ stream.attached = true ∧
      stream.items.length ≤ stream.taken := by
  unfold Store.poll at empty
  split at empty
  · cases empty
  · rename_i stream found
    split at empty
    · cases empty
    · rename_i none
      refine ⟨stream, found, ?_, List.getElem?_eq_none_iff.mp none⟩
      split at empty
      · assumption
      · cases empty

theorem presentChannel {j : Nat} {ch : ChannelId} (quiet : w.Quiet)
    (found : w.clients[i]? = some c) (current : c.Current w.env) (role : c.role = .consumer k)
    (there : k.loops[j]? = some l) (told : l.seen = c.supervisor.announced)
    (works : l.phase.channel? = some ch) (connected : c.supervisor.session.state = .connected) :
    c.supervisor.session.channel = some ch := by
  have silent : c.supervisor.recovery.telling = false := by
    refine Bool.eq_false_iff.mpr fun telling => ?_
    obtain ⟨v, d, made, -⟩ := toldOf current.coherent found telling true
    cases made.symm.trans (quiet _ true)
  have announced := current.coherent.announced
  rw [silent] at announced
  change c.supervisor.announced = _ at announced
  obtain ⟨lent, order⟩ := (current.tuned k j l role there).channel ch works
  have older := lent.older
  exact lent.current (by omega) connected

theorem engagedOf (exercised : w.Exercised) (quiet : w.Quiet) (found : w.clients[i]? = some c)
    (role : c.role = .consumer k) {j : Nat} (there : k.loops[j]? = some l)
    (rests : l.Rests c.supervisor w.env k) (connected : c.supervisor.session.state = .connected) :
    Consumer.Engaged w c k l := by
  have reached := exercisedReachable exercised
  have subscribed := exercisedSubscribed exercised
  cases rests with
  | @reads ch x here told empty =>
    obtain ⟨stream, stands, fed, drained⟩ := streamWaits empty
    have holds := subscribed.holds i j _ l ⟨c, found, ⟨k, role, there⟩, rfl⟩
    obtain ⟨y, same, place⟩ := holds.reads ch x (by rw [here]; rfl)
    cases stands.symm.trans same
    obtain ⟨channel, queue, reader⟩ : stream.channel = ch ∧
        stream.queue = c.supervisor.topology.queueName ∧ stream.dropped = false :=
      ⟨congrArg Prod.fst place, congrArg (·.2.1) place, congrArg (·.2.2) place⟩
    have mem := List.mem_of_getElem? stands
    have present := presentChannel quiet found (currentReachable reached found) role there told
      (by rw [here]; rfl) connected
    refine .reads here present ?_ stands ?_ drained fun p waiting mine => ?_
    · exact channel ▸ subscribed.tidy.fed stream mem fed
    · unfold Broker.Stream.live
      rw [fed, reader, channel, queue]
      simp
    · have dropped := subscribed.tidy.waits p waiting stream mem (queue.trans mine.symm) fed
      rw [reader] at dropped
      cases dropped
  | full here spent =>
    have accounted := (permittedReachable reached found role).accounted
    rw [spent, Nat.zero_add] at accounted
    exact .full here spent accounted
  | @sleeps ends x here later =>
    exact .sleeps here later (briefReachable reached found k j l ends role there (by
      unfold Consumer.Loop.timer?
      rw [here]))

theorem neverIdle (exercised : w.Exercised) (quiet : w.Quiet) (found : w.clients[i]? = some c)
    (role : c.role = .consumer k) (started : .start (.done (.ok ())) ∈ c.calls)
    (unclosed : c.Unclosed) (connected : c.supervisor.session.state = .connected) :
    ∃ l, k.loops = [l] ∧ Consumer.Engaged w c k l := by
  have running := runsReachable (exercisedReachable exercised) found k role unclosed
  obtain ⟨l, alone⟩ := List.length_eq_one_iff.mp (running.started _ started rfl)
  have there : k.loops[0]? = some l := by rw [alone]; rfl
  have stuck := stillOf quiet found (.loop 0)
  change c.consumerStep _ _ = _ at stuck
  unfold Client.consumerStep at stuck
  rw [role] at stuck
  have rests := Consumer.restsOf there running.stopped
    (running.serving l (List.mem_of_getElem? there)) (Option.map_eq_none_iff.mp stuck)
  exact ⟨l, alone, engagedOf exercised quiet found role there rests connected⟩

theorem exercisedSettled (exercised : w.Exercised) : w.settle.Exercised :=
  exercisedRun exercised ((settleActs w).map fun _ _ made => .act made)

theorem exercisedTime (exercised : w.Exercised) {t : Instant} (later : w.env.now ≤ t) :
    (w.advance t).settle.Exercised :=
  exercisedSettled (exercisedRun exercised (.single (.time w later)))

theorem exercisedCommand (exercised : w.Exercised) (x : Scenario.MemoryCommand) :
    (w.command x).settle.Exercised :=
  exercisedSettled (exercisedRun exercised (.single (.broker w ⟨x, w.env, rfl, rfl⟩)))

def inboxResumed : World Memory :=
  let lost := (inbox.command (.killConnection "gone")).settle
  let late := (lost.command (.deliver "orders" "order" [1] [])).settle
  (((late.advance 2000).settle.advance 5000).settle.advance 7000).settle

theorem inboxResumedExercised : inboxResumed.Exercised := by
  have made : (offline.make "orders" (.consumer (((Topology.new "orders").withQueue
      "orders").underKey "order") {} {} fun _ _ => {})).settle.Exercised :=
    exercisedSettled ⟨offline, ⟨rfl, rfl, rfl⟩, rfl, .single (.make ..)⟩
  have started : inbox.Exercised :=
    exercisedSettled (exercisedRun made (.single (useCall (by decide +kernel) fun _ => trivial)))
  have lost := exercisedCommand started (.killConnection "gone")
  have late := exercisedCommand lost (.deliver "orders" "order" [1] [])
  have asleep := exercisedTime late (t := 2000) (by decide +kernel)
  have again := exercisedTime asleep (t := 5000) (by decide +kernel)
  exact exercisedTime again (by decide +kernel)

def begun (c : Client) : Bool :=
  match c.calls with
  | [.start (.done (.ok ()))] => true
  | _ => false

def readsOn (channel : ChannelId) (l : Consumer.Loop) : Bool :=
  match l.phase with
  | .reading c _ => c == channel
  | _ => false

theorem inboxEngaged : ∃ c k l x, inboxResumed.clients[0]? = some c ∧ c.role = .consumer k ∧
    k.loops = [l] ∧ l.phase = .reading 1 x ∧ k.handled.map Delivery.body = [[1]] ∧
    Consumer.Engaged inboxResumed c k l := by
  have quiet : inboxResumed.Quiet := quietSeen (by decide +kernel)
  have running : (inboxResumed.clients[0]?.any fun c =>
      c.supervisor.session.state == .connected && begun c) = true := by decide +kernel
  have reading : ((inboxResumed.clients[0]?.bind Client.consumer?).any fun k =>
      k.handled.map Delivery.body == [[1]] && k.loops.all (readsOn 1)) = true := by decide +kernel
  obtain ⟨b, there, running⟩ := (Option.any_eq_true _ _).mp running
  obtain ⟨connected, called⟩ := Bool.and_eq_true_iff.mp running
  obtain ⟨c, k, found, role, reading⟩ := consumerSeen reading
  cases Option.some.inj (there.symm.trans found)
  obtain ⟨handled, reading⟩ := Bool.and_eq_true_iff.mp reading
  have calls : b.calls = [.start (.done (.ok ()))] := by
    unfold begun at called
    split at called
    · assumption
    · cases called
  have started : .start (.done (.ok ())) ∈ b.calls := calls ▸ List.mem_singleton_self _
  have unclosed : b.Unclosed := fun x mem => ⟨_, List.mem_singleton.mp (calls ▸ mem)⟩
  obtain ⟨l, alone, engaged⟩ := neverIdle inboxResumedExercised quiet found role started unclosed
    (beq_iff_eq.mp connected)
  have here := List.all_eq_true.mp reading l (alone ▸ List.mem_singleton_self l)
  unfold readsOn at here
  split at here
  · rename_i ch x phase
    cases beq_iff_eq.mp here
    exact ⟨b, k, l, x, found, role, alone, phase, beq_iff_eq.mp handled, engaged⟩
  · cases here

end World

end AmqpClient
