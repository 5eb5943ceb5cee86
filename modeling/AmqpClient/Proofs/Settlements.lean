import AmqpClient.Proofs.Broker.Placement
import AmqpClient.Proofs.Consumer.Serving
import AmqpClient.Proofs.Consumer.Settling
import AmqpClient.Proofs.Consumer.Tasks
import AmqpClient.Proofs.Engagement
import AmqpClient.Proofs.FailedMessages
import Mathlib.Data.List.Nodup
/-! Every delivery is settled once. A message that the broker has numbered is in one place at a time:
in a queue or a stream, in the hand of one loop, with one worker that has yet to settle it, or in the
journal as settled. Going from one place to the next it leaves the first. -/
namespace AmqpClient

open Broker (Memory Store Commanded)

def Env.settledTags {β : Type} (e : Env β) : List Nat := e.settlements.map fun x => x.2.1

namespace Consumer

def Worker.carried (y : Worker) : List Nat :=
  match y.phase with
  | .finishing _ => []
  | .done _ => []
  | _ => [y.delivery.tag]

def carried (k : Consumer) : List Nat :=
  k.hand.map Delivery.tag ++ k.workers.flatMap Worker.carried

def KeepsAll (k : Consumer) : Prop :=
  ∀ y ∈ k.workers, ∀ s x, y.phase = .settling s x → s ≠ .reject true

end Consumer

namespace Client

def carried (c : Client) : List Nat := (c.consumer?.map Consumer.carried).getD []

def KeepsAll (c : Client) : Prop := ∀ k, c.role = .consumer k → k.KeepsAll

end Client

theorem settlementsOther {β : Type} {e f : Env β} {writer : Fact.Writer}
    (grows : e.GrowsBy writer f) (other : writer ≠ .worker) : f.settlements = e.settlements := by
  obtain ⟨new, same, own⟩ := grows
  have none : new.filterMap (·.fact.settlement?) = [] := by
    refine List.filterMap_eq_nil_iff.mpr fun a mem => ?_
    have written := own a mem
    generalize a.fact = fact at written ⊢
    cases fact with
    | settled => exact absurd written.symm other
    | _ => rfl
  unfold Env.settlements
  rw [same, List.filterMap_append, none, List.nil_append]

namespace Consumer

variable {β : Type} [Broker β] {s t : Supervisor} {k m : Consumer} {i n : Nat}

theorem carriedCount (k : Consumer) (n : Nat) : k.carried.count n =
    total (fun l => (l.hand.map Delivery.tag).count n) k.loops +
      (k.workers.flatMap Worker.carried).count n := by
  unfold carried hand
  rw [List.count_append, List.map_flatMap, countParts]

theorem workerBalance {e f : Env β} {x : Worker} (found : k.workers[i]? = some x)
    (move : WorkerMove i e k x f m) (n : Nat) :
    m.carried.count n + f.settledTags.count n = k.carried.count n + e.settledTags.count n := by
  have along {y : Worker} (loops : m.loops = k.loops) (workers : m.workers = k.workers.set i y)
      (settled : y.carried.count n + f.settledTags.count n =
        x.carried.count n + e.settledTags.count n) :
      m.carried.count n + f.settledTags.count n = k.carried.count n + e.settledTags.count n := by
    have replaced := totalSet (f := fun y : Worker => y.carried.count n) (y := y) found
    rw [carriedCount, carriedCount, loops, workers, countParts, countParts]
    omega
  have kept {y : Worker} (loops : m.loops = k.loops) (workers : m.workers = k.workers.set i y)
      (carried : y.carried = x.carried) (settlements : f.settlements = e.settlements) :
      m.carried.count n + f.settledTags.count n = k.carried.count n + e.settledTags.count n := by
    refine along loops workers ?_
    unfold Env.settledTags
    rw [carried, settlements]
  cases move with
  | refuse here | succeed here | fail here | handle here | schedule here =>
    exact kept rfl rfl (by unfold Worker.carried; rw [here]; rfl) rfl
  | finish here => exact kept rfl rfl (by unfold Worker.carried; rw [here]; rfl) rfl
  | settle here =>
    refine along rfl rfl ?_
    have mine : x.carried = [x.delivery.tag] := by unfold Worker.carried; rw [here]
    rw [mine]
    change 0 + ([x.delivery.tag] ++ e.settledTags).count n = _
    rw [List.count_append, Nat.zero_add]

theorem carriedSame (loops : m.loops = k.loops) (workers : m.workers = k.workers) :
    m.carried = k.carried := by
  unfold carried hand
  rw [loops, workers]

theorem carriedStart {call : Nat} {x y : Starting}
    (made : k.startStep call s x = some (m, y)) : m.carried = k.carried := by
  obtain ⟨-, -, -, -, workers⟩ := startFrame made
  rcases loopsOfStart made with same | one
  · exact carriedSame same workers
  · unfold carried hand
    rw [one, workers, List.flatMap_append]
    exact congrArg (fun ds : List Delivery => ds.map Delivery.tag ++ _) (List.append_nil _)

theorem loopBalance {e f : Env Memory} {l : Loop} (found : k.loops[i]? = some l)
    (move : LoopMove i s e k l f m) (n : Nat) :
    f.broker.store.held.count n + m.carried.count n ≤
      e.broker.store.held.count n + k.carried.count n +
        Store.issued n e.broker.store f.broker.store := by
  have issues : Store.Issues e.broker.store f.broker.store :=
    loopCovered Broker.Memory.issuesCovers move
  have along {l' : Loop} (loops : m.loops = k.loops.set i l') (more : List Nat)
      (workers : m.workers.flatMap Worker.carried = k.workers.flatMap Worker.carried ++ more)
      (balance : f.broker.store.held.count n + (l'.hand.map Delivery.tag).count n + more.count n ≤
        e.broker.store.held.count n + (l.hand.map Delivery.tag).count n +
          Store.issued n e.broker.store f.broker.store) :
      f.broker.store.held.count n + m.carried.count n ≤
        e.broker.store.held.count n + k.carried.count n +
          Store.issued n e.broker.store f.broker.store := by
    have replaced := totalSet (f := fun l : Loop => (l.hand.map Delivery.tag).count n) (y := l') found
    rw [carriedCount, carriedCount, loops, workers, List.count_append]
    omega
  have empty {l' : Loop} (loops : m.loops = k.loops.set i l') (workers : m.workers = k.workers)
      (none : l'.hand = []) : f.broker.store.held.count n + m.carried.count n ≤
        e.broker.store.held.count n + k.carried.count n +
          Store.issued n e.broker.store f.broker.store := by
    refine along loops [] (by rw [workers, List.append_nil]) ?_
    have held := issues.held n
    rw [none, List.map_nil, List.count_nil]
    omega
  cases move with
  | @take _ stream _ d here _ _ answer =>
    have polled : e.broker.store.poll stream = (f.broker.store, .item (.ok d)) :=
      congrArg (fun p => (p.1.broker.store, p.2)) answer
    obtain ⟨-, held⟩ := Store.heldPoll polled
    refine along rfl [] (List.append_nil _).symm ?_
    have counted : e.broker.store.held.count n = f.broker.store.held.count n + [d.tag].count n :=
      (held n).symm
    change f.broker.store.held.count n + [d.tag].count n + 0 ≤ _
    omega
  | @grant _ _ d here =>
    refine along rfl [d.tag] List.flatMap_append ?_
    have mine : l.hand = [d] := by unfold Loop.hand; rw [here]
    rw [mine]
    change e.broker.store.held.count n + 0 + [d.tag].count n ≤ _
    exact Nat.le_add_right ..
  | _ => exact empty rfl rfl rfl

theorem workerKeepsAll {e f : Env β} {x : Worker} (found : k.workers[i]? = some x)
    (keeps : k.KeepsAll) (settled : ∀ a ∈ e.settlements, a.2.2.1 ≠ .reject true)
    (move : WorkerMove i e k x f m) :
    m.KeepsAll ∧ ∀ a ∈ f.settlements, a.2.2.1 ≠ .reject true := by
  have along {y : Worker} (workers : m.workers = k.workers.set i y)
      (clean : ∀ s z, y.phase = .settling s z → s ≠ .reject true) : m.KeepsAll := by
    unfold KeepsAll
    rw [workers]
    exact allSet keeps clean
  cases move with
  | refuse | succeed | schedule => exact ⟨along rfl fun s z here => by cases here; decide, settled⟩
  | handle | fail | finish => exact ⟨along rfl fun s z here => (nomatch here), settled⟩
  | settle here =>
    refine ⟨along rfl fun s z here => (nomatch here), fun a mem => ?_⟩
    rcases List.mem_cons.mp mem with rfl | old
    · exact keeps x (List.mem_of_getElem? found) _ _ here
    · exact settled a old

theorem keepsAllSame (keeps : k.KeepsAll) (workers : m.workers = k.workers) : m.KeepsAll := by
  unfold KeepsAll
  rw [workers]
  exact keeps

theorem loopKeepsAll {e f : Env β} {l : Loop} (keeps : k.KeepsAll)
    (move : LoopMove i s e k l f m) : m.KeepsAll := by
  rcases (loopFrame move).workers with same | ⟨d, c, more⟩
  · exact keepsAllSame keeps same
  · unfold KeepsAll
    rw [more]
    exact allMore keeps fun s z here => (nomatch here)

end Consumer

theorem Client.keepsAllMove {β : Type} [Broker β] {e f : Env β} {c d : Client} (keeps : c.KeepsAll)
    (settled : ∀ a ∈ e.settlements, a.2.2.1 ≠ .reject true) (move : Move e c f d) :
    d.KeepsAll ∧ ∀ a ∈ f.settlements, a.2.2.1 ≠ .reject true := by
  have others (role : d.KeepsAll) {writer : Fact.Writer} (grows : e.GrowsBy writer f)
      (other : writer ≠ .worker) : d.KeepsAll ∧ ∀ a ∈ f.settlements, a.2.2.1 ≠ .reject true := by
    rw [settlementsOther grows other]
    exact ⟨role, settled⟩
  have along {k m : Consumer} (role : c.role = .consumer k) (after : d.role = .consumer m)
      (next : k.KeepsAll → m.KeepsAll) : d.KeepsAll := by
    intro m' role'
    cases after.symm.trans role'
    exact next (keeps k role)
  cases move with
  | recovery made =>
    exact others keeps (Supervisor.growsOfRecovery (Supervisor.recoveryMove made)) (by decide)
  | watcher made =>
    obtain ⟨rfl, -⟩ := Supervisor.watcherMove made
    exact others keeps (Env.growsByRefl _ : Env.GrowsBy .link _ _) (by decide)
  | publish _ made => exact others keeps (Publication.growsOfStep made) (by decide)
  | close _ made =>
    exact others keeps (Supervisor.growsOfClosing (Supervisor.closingMove made)) (by decide)
  | retry role made =>
    obtain ⟨r, q, -, move, rfl⟩ := Consumer.retryStepSource made
    exact others (along role rfl (Consumer.keepsAllSame · rfl)) (Consumer.growsOfRetry move)
      (by decide)
  | closeConsumer role _ made =>
    have move := Consumer.closeMove made
    exact others (along role rfl (Consumer.keepsAllSame · (by cases move <;> rfl)))
      (Consumer.growsOfClose move) (by decide)
  | worker role made =>
    obtain ⟨x, found, move⟩ := Consumer.workerMove made
    obtain ⟨mine, all⟩ := Consumer.workerKeepsAll found (keeps _ role) settled move
    exact ⟨along role rfl fun _ => mine, all⟩
  | loop role made =>
    obtain ⟨l, -, move⟩ := Consumer.loopMove made
    exact others (along role rfl (Consumer.loopKeepsAll · move)) (Consumer.growsOfLoop move)
      (by decide)
  | start role _ made =>
    obtain ⟨-, -, -, -, workers⟩ := Consumer.startFrame made
    exact others (along role rfl (Consumer.keepsAllSame · workers))
      (Env.growsByRefl e : e.GrowsBy .link e) (by decide)

namespace Client

variable {e f : Env Memory} {c d : Client}

theorem balance (move : Move e c f d) (n : Nat) :
    f.broker.store.held.count n + d.carried.count n + f.settledTags.count n ≤
      e.broker.store.held.count n + c.carried.count n + e.settledTags.count n +
        Store.issued n e.broker.store f.broker.store := by
  have issues : Store.Issues e.broker.store f.broker.store := covered Broker.Memory.issuesCovers move
  have held := issues.held n
  have others (carried : d.carried = c.carried) {writer : Fact.Writer}
      (grows : e.GrowsBy writer f) (other : writer ≠ .worker) :
      f.broker.store.held.count n + d.carried.count n + f.settledTags.count n ≤
        e.broker.store.held.count n + c.carried.count n + e.settledTags.count n +
          Store.issued n e.broker.store f.broker.store := by
    unfold Env.settledTags
    rw [carried, settlementsOther grows other]
    omega
  have mine {k : Consumer} (role : c.role = .consumer k) : c.carried = k.carried := by
    unfold carried
    rw [consumerOf role]
    rfl
  have after (m : Consumer) : ({ c with role := .consumer m } : Client).carried = m.carried := rfl
  have along {k m : Consumer} (role : c.role = .consumer k) (after : d.role = .consumer m)
      (loops : m.loops = k.loops) (workers : m.workers = k.workers) : d.carried = c.carried := by
    unfold carried
    rw [consumerOf role, consumerOf after]
    exact Consumer.carriedSame loops workers
  cases move with
  | recovery made =>
    exact others rfl (Supervisor.growsOfRecovery (Supervisor.recoveryMove made)) (by decide)
  | watcher made =>
    obtain ⟨rfl, -⟩ := Supervisor.watcherMove made
    exact others rfl (Env.growsByRefl _ : Env.GrowsBy .link _ _) (by decide)
  | publish _ made => exact others rfl (Publication.growsOfStep made) (by decide)
  | close _ made =>
    exact others rfl (Supervisor.growsOfClosing (Supervisor.closingMove made)) (by decide)
  | retry role made =>
    obtain ⟨r, q, -, move, rfl⟩ := Consumer.retryStepSource made
    exact others (along role rfl rfl rfl) (Consumer.growsOfRetry move) (by decide)
  | closeConsumer role _ made =>
    have move := Consumer.closeMove made
    exact others (along role rfl (Consumer.loopsOfClose move) (by cases move <;> rfl))
      (Consumer.growsOfClose move) (by decide)
  | worker role made =>
    obtain ⟨x, found, move⟩ := Consumer.workerMove made
    have balance := Consumer.workerBalance found move n
    rw [mine role, after]
    omega
  | loop role made =>
    obtain ⟨l, found, move⟩ := Consumer.loopMove made
    have balance := Consumer.loopBalance found move n
    have settlements := settlementsOther (Consumer.growsOfLoop move) (by decide)
    unfold Env.settledTags
    rw [mine role, after, settlements]
    omega
  | @start _ _ _ k m role _ made =>
    have carried : m.carried = k.carried := Consumer.carriedStart made
    refine others ?_ (Env.growsByRefl e : e.GrowsBy .link e) (by decide)
    rw [mine role]
    exact carried

end Client

namespace World

variable {w v : World Memory}

def places (n : Nat) (w : World Memory) : Nat :=
  w.env.broker.store.held.count n + total (fun c => c.carried.count n) w.clients +
    w.env.settledTags.count n

theorem clientNew (o : Opening) (l : Link) (s t : SignalId) : (client o l s t).carried = [] := by
  obtain ⟨name, plan, phase⟩ := o
  cases plan <;> rfl

theorem issuesUse (used : Use Commanded w v) :
    Store.Issues w.env.broker.store v.env.broker.store :=
  useCovered Broker.Memory.issuesCovers used (fun _ _ _ => Store.issuesRefl _)
    fun _ _ => Broker.Memory.issuesCommand

theorem placesUse (used : Use Commanded w v) (n : Nat) :
    v.places n ≤ w.places n + Store.issued n w.env.broker.store v.env.broker.store := by
  have issues : Store.Issues w.env.broker.store v.env.broker.store :=
    issuesUse used
  have held := issues.held n
  have along (settled : v.env.settlements = w.env.settlements)
      (carried : total (fun c => c.carried.count n) v.clients =
        total (fun c => c.carried.count n) w.clients) :
      v.places n ≤ w.places n + Store.issued n w.env.broker.store v.env.broker.store := by
    unfold places Env.settledTags
    rw [settled, carried]
    omega
  cases used with
  | act made =>
    obtain ⟨a, preferStop, made⟩ := made
    cases a with
    | opening i =>
      obtain ⟨grows, same | ⟨o, l, s, t, more⟩⟩ := openingStepClients made
      · exact along (settlementsOther grows (by decide)) (by rw [same])
      · refine along (settlementsOther grows (by decide)) ?_
        rw [more, totalAppend, total, clientNew]
        rfl
    | client i a =>
      obtain ⟨c, e, d, found, stepped, rfl⟩ := clientStepSource made
      have balance := Client.balance (Client.clientMove stepped) n
      have ended := settlementsOther (growsRecordEnd i a d e) (by decide)
      have replaced := totalSet (f := fun c : Client => c.carried.count n) (y := d) found
      unfold places Env.settledTags at *
      rw [ended]
      dsimp only
      rw [brokerRecordEnd]
      omega
  | time | broker | make => exact along rfl rfl
  | call | letGo => exact along rfl (totalModify fun _ => rfl)

theorem placesExercised (exercised : w.Exercised) (n : Nat) :
    w.places n ≤ if n ≤ w.env.broker.store.lastTag then 1 else 0 := by
  obtain ⟨start, fresh, new, run⟩ := exercised
  induction run with
  | refl =>
    have none : start.places n = 0 := by
      unfold places Env.settledTags Env.settlements
      rw [new, fresh.clients, fresh.journal]
      rfl
    rw [none]
    exact Nat.zero_le _
  | @next w v _ last ih =>
    have step := placesUse last n
    have grown : Store.Issues w.env.broker.store v.env.broker.store :=
      issuesUse last
    have later := grown.grown
    unfold Store.issued at step
    split at ih <;> split at step <;> split <;> omega

theorem settledTagsOnce (exercised : w.Exercised) : w.env.settledTags.Nodup := by
  refine List.nodup_iff_count_le_one.mpr fun n => ?_
  have once := placesExercised exercised n
  unfold places at once
  split at once <;> omega

end World

namespace World

variable {β : Type} [Broker β] {outside : β → β → Prop} {w v : World β}

structure KeepsAll (w : World β) : Prop where
  clients : ∀ c ∈ w.clients, c.KeepsAll
  settled : ∀ x ∈ w.env.settlements, x.2.2.1 ≠ .reject true

theorem keepsAllUse (keeps : w.KeepsAll) (used : Use outside w v) : v.KeepsAll := by
  cases used with
  | act made =>
    obtain ⟨a, preferStop, made⟩ := made
    cases a with
    | opening i =>
      obtain ⟨grows, more⟩ := openingStepClients made
      refine ⟨?_, settlementsOther grows (by decide) ▸ keeps.settled⟩
      rcases more with same | ⟨o, l, s, t, more⟩
      · rw [same]
        exact keeps.clients
      · rw [more]
        refine allMore keeps.clients fun k role => ?_
        -- a client is made without a worker
        obtain ⟨name, plan, phase⟩ := o
        cases plan <;> cases role
        exact fun y mem => nomatch mem
    | client i a =>
      obtain ⟨c, e, d, found, stepped, rfl⟩ := clientStepSource made
      obtain ⟨mine, all⟩ := Client.keepsAllMove (keeps.clients c (List.mem_of_getElem? found))
        keeps.settled (Client.clientMove stepped)
      refine ⟨allSet keeps.clients mine, ?_⟩
      rw [settlementsOther (growsRecordEnd i a d e) (by decide)]
      exact all
  | time | broker | make => exact ⟨keeps.clients, keeps.settled⟩
  | call | letGo =>
    exact ⟨allModify keeps.clients fun _ => id, keeps.settled⟩

theorem keepsAllReachable (reached : Reachable outside w) : w.KeepsAll := by
  refine reachableInduction (fun w fresh => ⟨?_, ?_⟩) (fun w v _ used => (keepsAllUse · used)) reached
  · rw [fresh.clients]
    exact fun c mem => nomatch mem
  · unfold Env.settlements
    rw [fresh.journal]
    exact fun x mem => nomatch mem

theorem worksReachable (reached : Reachable outside w) {i : Nat} {c : Client}
    (found : w.clients[i]? = some c) {k : Consumer} (role : c.role = .consumer k) :
    k.Works w.env := by
  refine reachableWorkers (P := fun e k => k.Works e) ?_ ?_ ?_ ?_ reached found role
  · intro e k none j x there
    rw [none] at there
    cases there
  · exact fun _ _ _ _ _ works made => Consumer.worksWorker works made
  · exact fun _ _ _ _ _ _ _ works move => Consumer.worksLoop works move
  · exact fun _ _ _ _ works workers policy => Consumer.worksOthers works workers policy

structure SettledOnce (w : World Memory) : Prop where
  processed : ∀ (i : Nat) (b : Client) (k : Consumer), w.clients[i]? = some b →
    b.role = .consumer k → ∀ j x, k.workers[j]? = some x →
      ∃ (c : ChannelId) (n : Nat) (acts : List Consumer.Act) (e : Env Memory) (m : Consumer),
        m.workers[j]? = some (Consumer.worker x.delivery c) ∧
        Consumer.Processing j e m n acts w.env k ∧
        Consumer.Processed k.retry j x.delivery c n acts w.env k x
  once : w.env.settledTags.Nodup
  kept : ∀ c tag s o, (c, tag, s, o) ∈ w.env.settlements → s ≠ .reject true

theorem settledOnceExercised {w : World Memory} (exercised : w.Exercised) : w.SettledOnce where
  processed i b k found role j x there := by
    obtain ⟨c, n, acts, e, m, policy, given, processing⟩ :=
      worksReachable (exercisedReachable exercised) found role j x there
    obtain ⟨y, all⟩ := Consumer.processed policy given processing
    cases Option.some.inj (all.found.symm.trans there)
    exact ⟨c, n, acts, e, m, given, processing, all⟩
  once := settledTagsOnce exercised
  kept c tag s o := (keepsAllReachable (exercisedReachable exercised)).settled (c, tag, s, o)

/-- A delivery that a worker was given is settled once, in the way that its budget and its handling
call for. Among the clients of a broker in memory no number is settled twice, and nothing is given
back. -/
theorem deliveriesSettled {i n : Nat} {e f : Env β} {k l : Consumer} {d : Delivery} {c : ChannelId}
    {acts : List Consumer.Act} {u : World Memory}
    (given : k.workers[i]? = some (Consumer.worker d c))
    (processing : Consumer.Processing i e k n acts f l) (exercised : u.Exercised) :
    (∃ x, Consumer.Processed k.retry i d c n acts f l x) ∧ u.SettledOnce :=
  ⟨Consumer.processed rfl given processing, settledOnceExercised exercised⟩

theorem failedOnceExercised : failedOnce.Exercised := by
  have made : failing.Exercised :=
    exercisedSettled ⟨_, ⟨rfl, rfl, rfl⟩, rfl, .single (.make _ _ _)⟩
  have started : failingStarted.Exercised :=
    exercisedSettled (exercisedRun made (.single (useCall (by decide +kernel) fun _ => trivial)))
  exact exercisedSettled (exercisedRun started
    (.single (.broker _ ⟨.deliver "orders" "order" [] [], _, rfl, rfl⟩)))

theorem failedDeliverySettled : ∃ (b : Client) (k m : Consumer) (x : Consumer.Worker)
    (c : ChannelId) (n : Nat) (acts : List Consumer.Act) (e : Env Memory),
    failedOnce.clients[0]? = some b ∧ b.role = .consumer k ∧
    k.workers.countP Consumer.Worker.retried = 1 ∧
    m.workers[0]? = some (Consumer.worker x.delivery c) ∧
    Consumer.Processing 0 e m n acts failedOnce.env k ∧ failedOnce.Exercised ∧
    (∃ y, Consumer.Processed m.retry 0 x.delivery c n acts failedOnce.env k y) ∧
    failedOnce.SettledOnce := by
  obtain ⟨b, k, found, role, seen⟩ := consumerSeen (w := failedOnce) (i := 0)
    (p := fun k => k.workers[0]?.isSome && k.workers.countP Consumer.Worker.retried == 1)
    (by decide +kernel)
  obtain ⟨inside, retried⟩ := Bool.and_eq_true_iff.mp seen
  obtain ⟨x, there⟩ := Option.isSome_iff_exists.mp inside
  obtain ⟨c, n, acts, e, m, -, given, processing⟩ :=
    worksReachable (exercisedReachable failedOnceExercised) found role 0 x there
  exact ⟨b, k, m, x, c, n, acts, e, found, role, eq_of_beq retried, given, processing,
    failedOnceExercised, deliveriesSettled given processing failedOnceExercised⟩

end World

end AmqpClient
