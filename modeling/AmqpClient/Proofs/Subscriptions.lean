import AmqpClient.Proofs.Broker.Streams
import AmqpClient.Proofs.Swaps
/-! Whose stream is whose. A stream is in the hands of the one loop that was given it until that loop
drops it, so whatever else happens leaves it on its channel and its queue and not dropped. -/
namespace AmqpClient

open Broker (Memory Store Commanded)

variable {e f : Env Memory} {s t : Supervisor} {k m : Consumer}

abbrev Env.Carries (e f : Env Memory) : Prop :=
  Store.Carries (fun _ => False) e.broker.store f.broker.store

theorem Env.carriesOf {α : Type} {asked : Env Memory × α} {a : α} (answer : asked = (f, a))
    (carries : e.Carries asked.1) : e.Carries f := by
  rw [answer] at carries
  exact carries

theorem Release.carries {r q : Release} (move : Move e r f q) : e.Carries f := by
  cases move with
  | @channel c => exact Store.carriesShutChannel c .silent e.broker.store
  | @connection c => exact Store.carriesShutConnection c .silent e.broker.store

theorem Establish.carries {client : String} {t : Topology} {x y : Establish}
    (move : Move client t e x f y) : e.Carries f := by
  cases move with
  | dialed _ answer | refused _ answer =>
    exact Env.carriesOf answer Broker.Memory.carriesDial
  | declared answer | undeclared answer =>
    exact Env.carriesOf answer (Broker.Memory.carriesDeclare ..)
  | discard move => exact Release.carries move
  | watchConnection => exact Store.carriesWatchConnection ..
  | watchChannel => exact Store.carriesWatchChannel ..
  | start | installed | discarded => exact Store.carriesRefl _

theorem Supervisor.carriesRecovery {alive : Bool} (move : RecoveryMove alive e s f t) :
    e.Carries f := by
  cases move with
  | release _ move | abandon _ move => exact Release.carries move
  | establish _ move => exact Establish.carries move
  | _ => exact Store.carriesRefl _

theorem Supervisor.carriesClosing {x y : Closing} (move : ClosingMove e s x f t y) :
    e.Carries f := by
  cases move with
  | release move => exact Release.carries move
  | _ => exact Store.carriesRefl _

theorem Publication.carries {p q : Publication} (h : p.step s e = some (f, q)) : e.Carries f := by
  unfold step at h
  split at h
  case h_1 => split at h <;> cases h <;> exact Store.carriesRefl _
  case h_2 => split at h <;> cases h <;> exact Store.carriesRefl _
  case h_3 =>
    split at h <;> cases h
    · exact Store.carriesRefl _
    · exact Broker.Memory.carriesPublish ..
  case h_4 =>
    obtain ⟨o, -, same⟩ := Option.map_eq_some_iff.mp h
    cases same
    exact Store.carriesRefl _
  all_goals contradiction

namespace Consumer

theorem carriesWorker {i : Nat} {x : Worker} (move : WorkerMove i e k x f m) : e.Carries f := by
  cases move <;> exact Store.carriesRefl _

theorem carriesRetry {stopped : Bool} {r q : RetryTask} (move : RetryMove stopped s e r f q) :
    e.Carries f := by
  cases move with
  | send => exact Broker.Memory.carriesPublish ..
  | _ => exact Store.carriesRefl _

theorem carriesClose {call : Nat} {x y : ConsumerClosing} (move : CloseMove call e s k x f t m y) :
    e.Carries f := by
  cases move with
  | closing made => exact Supervisor.carriesClosing (Supervisor.closingMove made)
  | _ => exact Store.carriesRefl _

def LoopPhase.reads? : LoopPhase → Option (ChannelId × StreamId)
  | .reading ch stream => some (ch, stream)
  | .admitting ch stream _ => some (ch, stream)
  | _ => none

structure Loop.Holds (s : Store) (queue : String) (l : Loop) : Prop where
  inside : ∀ x, l.phase.stream? = some x → x < s.streams.length
  reads : ∀ ch x, l.phase.reads? = some (ch, x) →
    ∃ y, s.streams[x]? = some y ∧ y.place = (ch, queue, false)

variable {l l' : Loop} {queue : String}

theorem streamOfReads {p : LoopPhase} {ch : ChannelId} {x : StreamId}
    (reads : p.reads? = some (ch, x)) : p.stream? = some x := by
  cases p <;> cases reads <;> rfl

theorem holdsNone {u : Store} (none : l.phase.stream? = none) : l.Holds u queue := by
  refine ⟨fun x held => ?_, fun ch x reads => ?_⟩
  · rw [none] at held
    cases held
  · rw [streamOfReads reads] at none
    cases none

theorem holdsCarried {u v : Store} {gone : StreamId → Prop} (carries : Store.Carries gone u v)
    (stays : ∀ x, l.phase.stream? = some x → ¬ gone x) (holds : l.Holds u queue) :
    l.Holds v queue := by
  refine ⟨fun x held => Nat.lt_of_lt_of_le (holds.inside x held) carries.grown, fun ch x reads => ?_⟩
  obtain ⟨y, found, place⟩ := holds.reads ch x reads
  obtain ⟨z, there, same⟩ := carries.kept x y found (stays x (streamOfReads reads))
  exact ⟨z, there, same.trans place⟩

structure Turned (e f : Env Memory) (queue : String) (l l' : Loop) : Prop where
  carries : Store.Carries (fun x => l.phase.stream? = some x) e.broker.store f.broker.store
  holds : l.Holds e.broker.store queue → l'.Holds f.broker.store queue
  fresh : ∀ x, l'.phase.stream? = some x →
    l.phase.stream? = some x ∨ e.broker.store.streams.length ≤ x

theorem turnedNone (carries : Store.Carries (fun x => l.phase.stream? = some x) e.broker.store
    f.broker.store) (none : l'.phase.stream? = none) : Turned e f queue l l' :=
  ⟨carries, fun _ => holdsNone none, fun x held => by rw [none] at held; cases held⟩

theorem turnedSame (carries : e.Carries f)
    (same : ∀ x, l'.phase.stream? = some x → l.phase.stream? = some x)
    (reads : ∀ r, l'.phase.reads? = some r → l.phase.reads? = some r) : Turned e f queue l l' := by
  refine ⟨Store.carriesMore carries fun _ h => h.elim, fun holds => ?_, fun x held => .inl (same x held)⟩
  have holds := holdsCarried carries (fun _ _ => id) holds
  exact ⟨fun x held => holds.inside x (same x held), fun ch x read => holds.reads ch x (reads _ read)⟩

theorem turnedDropped {stream : StreamId} (held : l.phase.stream? = some stream)
    (none : l'.phase.stream? = none) : Turned e (e.dropStream stream) queue l l' := by
  refine turnedNone (Store.carriesMore (Store.carriesDrop stream e.broker.store) ?_) none
  rintro _ rfl
  exact held

theorem turnedMove {i : Nat} (move : LoopMove i s e k l f m) :
    ∃ l', m.loops = k.loops.set i l' ∧ Turned e f s.topology.queueName l l' := by
  have idle {l' : Loop} (none : l'.phase.stream? = none) : Turned e e s.topology.queueName l l' :=
    turnedNone (Store.carriesRefl _) none
  have polled {stream : StreamId} {p : Poll} {l' : Loop} (answer : e.poll stream = (f, p))
      (same : ∀ x, l'.phase.stream? = some x → l.phase.stream? = some x)
      (reads : ∀ r, l'.phase.reads? = some r → l.phase.reads? = some r) :
      Turned e f s.topology.queueName l l' :=
    turnedSame (Env.carriesOf answer (Store.carriesPoll ..)) same reads
  cases move with
  | prefetched _ answer | unprefetched _ answer =>
    refine ⟨_, rfl, turnedNone (Store.carriesMore (Env.carriesOf answer ?_) fun _ h => h.elim) rfl⟩
    exact Store.carriesRefl _
  | unsubscribed _ answer =>
    refine ⟨_, rfl, turnedNone (Store.carriesMore (Env.carriesOf answer ?_) fun _ h => h.elim) rfl⟩
    exact Broker.Memory.carriesConsume ..
  | @subscribed c _ stream here answer =>
    have carries : e.Carries f := Env.carriesOf answer (Broker.Memory.carriesConsume ..)
    have consumed : e.broker.consume c s.topology.queueName = (f.broker, .ok stream) :=
      congrArg (fun p => (p.1.broker, p.2)) answer
    obtain ⟨new, y, found, place⟩ := Broker.Memory.consumed consumed
    refine ⟨_, rfl, Store.carriesMore carries fun _ h => h.elim, fun _ => ⟨fun x held => ?_, ?_⟩,
      fun x held => ?_⟩
    · cases held
      exact (List.getElem?_eq_some_iff.mp found).1
    · intro ch x reads
      cases reads
      exact ⟨y, found, place⟩
    · cases held
      exact .inr (Nat.le_of_eq new.symm)
  | stop here | renew here | leave here =>
    exact ⟨_, rfl, turnedDropped (by rw [here]; rfl) rfl⟩
  | @resume _ stream here | @wake _ stream here =>
    cases stream with
    | none => exact ⟨_, rfl, idle rfl⟩
    | some stream => exact ⟨_, rfl, turnedDropped (by rw [here]; rfl) rfl⟩
  | take here _ _ answer =>
    exact ⟨_, rfl, polled answer (fun x held => by rw [here]; exact held)
      fun r reads => by rw [here]; exact reads⟩
  | broken here _ _ answer | ended here _ _ answer =>
    exact ⟨_, rfl, polled answer (fun x held => by rw [here]; exact held) fun r => nofun⟩
  | grant here =>
    exact ⟨_, rfl, turnedSame (Store.carriesRefl _) (fun x held => by rw [here]; exact held)
      fun r reads => by rw [here]; exact reads⟩
  | _ => exact ⟨_, rfl, idle rfl⟩

end Consumer

open Consumer (Turned)

namespace Client

variable {c d : Client}

def LoopAt (c : Client) (j : Nat) (l : Consumer.Loop) : Prop :=
  ∃ k, c.role = .consumer k ∧ k.loops[j]? = some l

inductive LoopsMove (e : Env Memory) (c : Client) (f : Env Memory) (d : Client) : Prop where
  | idle (carries : e.Carries f)
      (back : ∀ j l, d.LoopAt j l → c.LoopAt j l ∨ l.phase.stream? = none)
  | turn {j l l'} (was : c.LoopAt j l) (is : d.LoopAt j l')
      (turned : Turned e f c.supervisor.topology.queueName l l')
      (others : ∀ n m, n ≠ j → d.LoopAt n m → c.LoopAt n m)

theorem loopsMove (move : Move e c f d) : LoopsMove e c f d := by
  have along {k m : Consumer} (role : c.role = .consumer k) (after : d.role = .consumer m)
      (same : m.loops = k.loops) (carries : e.Carries f) : LoopsMove e c f d := by
    refine .idle carries fun j l there => .inl ?_
    obtain ⟨m', here, found⟩ := there
    cases after.symm.trans here
    exact ⟨k, role, same ▸ found⟩
  have same (role : d.role = c.role) (carries : e.Carries f) : LoopsMove e c f d :=
    .idle carries fun j l ⟨k, here, found⟩ => .inl ⟨k, role ▸ here, found⟩
  cases move with
  | recovery made => exact same rfl (Supervisor.carriesRecovery (Supervisor.recoveryMove made))
  | watcher made =>
    obtain ⟨rfl, -⟩ := Supervisor.watcherMove made
    exact same rfl (Store.carriesRefl _)
  | publish _ made => exact same rfl (Publication.carries made)
  | close _ made => exact same rfl (Supervisor.carriesClosing (Supervisor.closingMove made))
  | worker role made =>
    obtain ⟨x, -, move⟩ := Consumer.workerMove made
    exact along role rfl (Consumer.loopsOfWorker move) (Consumer.carriesWorker move)
  | retry role made =>
    obtain ⟨r, q, -, move, rfl⟩ := Consumer.retryStepSource made
    exact along role rfl rfl (Consumer.carriesRetry move)
  | closeConsumer role _ made =>
    have move := Consumer.closeMove made
    exact along role rfl (Consumer.loopsOfClose move) (Consumer.carriesClose move)
  | @start i x y k m role _ made =>
    rcases Consumer.loopsOfStart made with none | one
    · exact along role rfl none (Store.carriesRefl _)
    · refine .idle (Store.carriesRefl _) fun j l ⟨m', here, found⟩ => ?_
      cases here
      rw [one, List.getElem?_append] at found
      split at found
      · exact .inl ⟨k, role, found⟩
      · cases List.mem_singleton.mp (List.mem_of_getElem? found)
        exact .inr rfl
  | @loop i preferStop k m g role made =>
    obtain ⟨l, there, move⟩ := Consumer.loopMove made
    obtain ⟨l', loops, turned⟩ := Consumer.turnedMove move
    refine .turn ⟨k, role, there⟩ ⟨m, rfl, ?_⟩ turned fun n l'' other ⟨m', here, found⟩ => ?_
    · rw [loops]
      exact List.getElem?_set_self (List.getElem?_eq_some_iff.mp there).1
    · cases here
      rw [loops, List.getElem?_set_ne (Ne.symm other)] at found
      exact ⟨k, role, found⟩

end Client

namespace World

variable {w v : World Memory}

def LoopAt (w : World Memory) (i j : Nat) (queue : String) (l : Consumer.Loop) : Prop :=
  ∃ c, w.clients[i]? = some c ∧ c.LoopAt j l ∧ c.supervisor.topology.queueName = queue

theorem loopOnce {i j : Nat} {queue other : String} {l m : Consumer.Loop}
    (first : w.LoopAt i j queue l) (second : w.LoopAt i j other m) : queue = other ∧ l = m := by
  obtain ⟨c, found, ⟨k, role, here⟩, rfl⟩ := first
  obtain ⟨d, there, ⟨k', role', here'⟩, rfl⟩ := second
  cases found.symm.trans there
  cases role.symm.trans role'
  exact ⟨rfl, Option.some.inj (here.symm.trans here')⟩

structure Subscribed (w : World Memory) : Prop where
  tidy : w.env.broker.store.Tidy
  holds : ∀ i j queue l, w.LoopAt i j queue l → l.Holds w.env.broker.store queue
  apart : ∀ i i' j j' queue queue' l l' x, w.LoopAt i j queue l → w.LoopAt i' j' queue' l' →
    l.phase.stream? = some x → l'.phase.stream? = some x → i = i' ∧ j = j'

inductive LoopsUse (w v : World Memory) : Prop where
  | idle (carries : w.env.Carries v.env)
      (back : ∀ i j queue l, v.LoopAt i j queue l →
        w.LoopAt i j queue l ∨ l.phase.stream? = none)
  | turn {i j queue l l'} (was : w.LoopAt i j queue l) (is : v.LoopAt i j queue l')
      (turned : Turned w.env v.env queue l l')
      (others : ∀ i' j' queue' m, ¬ (i' = i ∧ j' = j) → v.LoopAt i' j' queue' m →
        w.LoopAt i' j' queue' m)

theorem subscribedIdle (subscribed : w.Subscribed) (carries : w.env.Carries v.env)
    (back : ∀ i j queue l, v.LoopAt i j queue l → w.LoopAt i j queue l ∨ l.phase.stream? = none) :
    v.Subscribed where
  tidy := carries.tidy subscribed.tidy
  holds i j queue l there := by
    rcases back i j queue l there with old | none
    · exact Consumer.holdsCarried carries (fun _ _ => id) (subscribed.holds i j queue l old)
    · exact Consumer.holdsNone none
  apart i i' j j' queue queue' l l' x here there held too := by
    rcases back i j queue l here with old | none
    · rcases back i' j' queue' l' there with older | none
      · exact subscribed.apart i i' j j' queue queue' l l' x old older held too
      · rw [none] at too; cases too
    · rw [none] at held; cases held

section

variable {i i' j j' : Nat} {queue queue' : String} {l l' m : Consumer.Loop} {x : StreamId}

theorem otherStream (subscribed : w.Subscribed) (was : w.LoopAt i j queue l)
    (turned : Turned w.env v.env queue l l') (place : ¬ (i' = i ∧ j' = j))
    (old : w.LoopAt i' j' queue' m) (held : m.phase.stream? = some x) :
    l.phase.stream? ≠ some x ∧ l'.phase.stream? ≠ some x := by
  have mine : l.phase.stream? ≠ some x := fun too =>
    place (subscribed.apart i' i j' j queue' queue m l x old was held too)
  refine ⟨mine, fun too => ?_⟩
  have inside := (subscribed.holds i' j' queue' m old).inside x held
  rcases turned.fresh x too with before | new
  · exact mine before
  · exact Nat.not_le_of_lt inside new

theorem subscribedTurn (subscribed : w.Subscribed) (was : w.LoopAt i j queue l)
    (is : v.LoopAt i j queue l') (turned : Turned w.env v.env queue l l')
    (others : ∀ i' j' queue' m, ¬ (i' = i ∧ j' = j) → v.LoopAt i' j' queue' m →
      w.LoopAt i' j' queue' m) : v.Subscribed where
  tidy := turned.carries.tidy subscribed.tidy
  holds i' j' queue' m there := by
    by_cases place : i' = i ∧ j' = j
    · obtain ⟨rfl, rfl⟩ := place
      obtain ⟨rfl, rfl⟩ := loopOnce there is
      exact turned.holds (subscribed.holds i' j' _ l was)
    · have old := others i' j' queue' m place there
      exact Consumer.holdsCarried turned.carries
        (fun x held => (otherStream subscribed was turned place old held).1)
        (subscribed.holds i' j' queue' m old)
  apart a a' b b' p p' m m' x here there held too := by
    by_cases first : a = i ∧ b = j
    · by_cases second : a' = i ∧ b' = j
      · exact ⟨first.1.trans second.1.symm, first.2.trans second.2.symm⟩
      · obtain ⟨rfl, rfl⟩ := first
        obtain ⟨rfl, rfl⟩ := loopOnce here is
        have old := others a' b' p' m' second there
        exact absurd held (otherStream subscribed was turned second old too).2
    · have old := others a b p m first here
      by_cases second : a' = i ∧ b' = j
      · obtain ⟨rfl, rfl⟩ := second
        obtain ⟨rfl, rfl⟩ := loopOnce there is
        exact absurd too (otherStream subscribed was turned first old held).2
      · exact subscribed.apart a a' b b' p p' m m' x old (others a' b' p' m' second there) held too

end

theorem subscribedUse (subscribed : w.Subscribed) (move : LoopsUse w v) : v.Subscribed := by
  cases move with
  | idle carries back => exact subscribedIdle subscribed carries back
  | turn was is turned others => exact subscribedTurn subscribed was is turned others

theorem loopsOpening {i : Nat} (made : w.openingStep i = some v) : LoopsUse w v := by
  obtain ⟨o, -, move⟩ := openingMove made
  cases move with
  | start | refuse | fail => exact .idle (Store.carriesRefl _) fun _ _ _ _ => .inl
  | establish _ move => exact .idle (Establish.carries move) fun _ _ _ _ => .inl
  | @opened l c h here =>
    refine .idle (Store.carriesRefl _) fun n j queue m there => .inl ?_
    obtain ⟨d, found, ⟨k, role, loop⟩, same⟩ := there
    rw [List.getElem?_append] at found
    split at found
    · exact ⟨d, found, ⟨k, role, loop⟩, same⟩
    · cases List.mem_singleton.mp (List.mem_of_getElem? found)
      -- a client is made without a loop
      obtain ⟨_, plan, _⟩ := o
      cases plan <;> cases role
      cases loop

theorem loopsClient {i : Nat} {c d : Client} {f : Env Memory} {g : Env Memory}
    (found : w.clients[i]? = some c) (move : Client.Move w.env c f d) (same : g.broker = f.broker) :
    LoopsUse w { w with env := g, clients := w.clients.set i d } := by
  have inside : i < w.clients.length := (List.getElem?_eq_some_iff.mp found).1
  have topology := Client.topologyOfMove move
  have mine : (w.clients.set i d)[i]? = some d := List.getElem?_set_self inside
  have elsewhere {n j : Nat} {queue : String} {m : Consumer.Loop} (other : n ≠ i)
      (there : LoopAt { w with env := g, clients := w.clients.set i d } n j queue m) :
      w.LoopAt n j queue m := by
    obtain ⟨b, here, rest⟩ := there
    exact ⟨b, (List.getElem?_set_ne (Ne.symm other)).symm.trans here, rest⟩
  cases Client.loopsMove move with
  | idle carries back =>
    refine .idle ?_ fun n j queue l there => ?_
    · unfold Env.Carries
      rw [same]
      exact carries
    · by_cases other : n = i
      · subst other
        obtain ⟨b, here, loop, queue⟩ := there
        cases Option.some.inj (mine.symm.trans here)
        exact (back j l loop).imp_left fun old => ⟨c, found, old, topology ▸ queue⟩
      · exact .inl (elsewhere other there)
  | @turn j l l' was is turned others =>
    refine .turn (l := l) ⟨c, found, was, rfl⟩ ⟨d, mine, is, by rw [topology]⟩ ?_
      fun n b queue m place there => ?_
    · exact ⟨by rw [same]; exact turned.carries, by rw [same]; exact turned.holds, turned.fresh⟩
    · by_cases other : n = i
      · subst other
        obtain ⟨b', here, loop, queue⟩ := there
        cases Option.some.inj (mine.symm.trans here)
        have apart : b ≠ j := fun same => place ⟨rfl, same⟩
        exact ⟨c, found, others b m apart loop, topology ▸ queue⟩
      · exact elsewhere other there

theorem loopsUse (used : Use Commanded w v) : LoopsUse w v := by
  have modified {i : Nat} {f : Client → Client} (role : ∀ c, (f c).role = c.role)
      (supervisor : ∀ c, (f c).supervisor = c.supervisor) :
      LoopsUse w { w with clients := w.clients.modify i f } := by
    refine .idle (Store.carriesRefl _) fun n j queue l ⟨d, found, ⟨k, here, loop⟩, same⟩ => .inl ?_
    rw [List.getElem?_modify] at found
    obtain ⟨c, before, rfl⟩ := Option.map_eq_some_iff.mp found
    refine ⟨c, before, ⟨k, ?_, loop⟩, ?_⟩
    · split at here
      · rw [← here, role]
      · exact here
    · split at same
      · rw [← same, supervisor]
      · exact same
  cases used with
  | act made =>
    obtain ⟨a, preferStop, made⟩ := made
    cases a with
    | opening i => exact loopsOpening made
    | client i a =>
      obtain ⟨c, e, d, found, stepped, rfl⟩ := clientStepSource made
      exact loopsClient found (Client.clientMove stepped) (brokerRecordEnd i a d e)
  | time | make => exact .idle (Store.carriesRefl _) fun _ _ _ _ => .inl
  | broker change => exact .idle (Broker.carriesCommand change) fun _ _ _ _ => .inl
  | call => exact modified (fun _ => rfl) fun _ => rfl
  | letGo => exact modified (fun _ => rfl) fun _ => rfl

def command (x : Scenario.MemoryCommand) (w : World Memory) : World Memory :=
  { w with env := w.env.withBroker (x.perform w.env).1.broker }

def Exercised (w : World Memory) : Prop :=
  ∃ start, Fresh start ∧ start.env.broker = {} ∧ Run (Use Commanded) start w

theorem exercisedRun (exercised : w.Exercised) (run : Run (Use Commanded) w v) : v.Exercised := by
  obtain ⟨start, fresh, new, before⟩ := exercised
  exact ⟨start, fresh, new, before.trans run⟩

theorem exercisedReachable (exercised : w.Exercised) : Reachable Commanded w := by
  obtain ⟨start, fresh, -, run⟩ := exercised
  exact ⟨start, fresh, run⟩

theorem exercisedSubscribed (exercised : w.Exercised) : w.Subscribed := by
  obtain ⟨start, fresh, new, run⟩ := exercised
  induction run with
  | refl =>
    have nobody {i j queue l} (there : start.LoopAt i j queue l) : False := by
      obtain ⟨c, found, -⟩ := there
      rw [fresh.clients] at found
      cases found
    refine ⟨?_, fun _ _ _ _ there => (nobody there).elim, ?_⟩
    · rw [new]
      exact ⟨fun x mem => (by cases mem), fun p mem => (by cases mem)⟩
    · exact fun _ _ _ _ _ _ _ _ _ there => (nobody there).elim
  | next _ last ih => exact subscribedUse ih (loopsUse last)

end World

end AmqpClient
