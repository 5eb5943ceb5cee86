import AmqpClient.Broker.Memory
import AmqpClient.Broker.Scripted
import AmqpClient.Proofs.Consumer.Custody
import AmqpClient.Proofs.Use
/-! No failed message is lost while its consumer is not being stopped: in every world that can be
reached, on any broker and with any faults from outside. -/
namespace AmqpClient

def Call.Within (stopped : Bool) : Call → Prop
  | .start _ => True
  | .closeConsumer (.grace _) => stopped = true
  | .closeConsumer .collecting => stopped = true
  | .closeConsumer (.joining _) => stopped = true
  | .closeConsumer (.closing _) => stopped = true
  | .closeConsumer _ => True
  | _ => False

variable {β : Type}

structure Consumer.Keeping (e : Env β) (c : Client) (k : Consumer) : Prop where
  custody : k.Custody e c.supervisor.topology
  closed : c.supervisor.session.state = .closed → k.stopped = true
  calls : ∀ x ∈ c.calls, x.Within k.stopped

def Client.Keeps (e : Env β) (c : Client) : Prop := ∀ k, c.role = .consumer k → k.Keeping e c

theorem withinStopped {stopped : Bool} {x : Call} (within : x.Within stopped) :
    x.Within true := by
  unfold Call.Within at within ⊢
  split at within <;> trivial

theorem withinSet {stopped : Bool} {calls : List Call} {i : Nat} {y : Call}
    (within : ∀ x ∈ calls, x.Within stopped) (new : y.Within stopped) :
    ∀ x ∈ calls.set i y, x.Within stopped := by
  intro x mem
  rcases List.mem_or_eq_of_mem_set mem with old | rfl
  · exact within x old
  · exact new

theorem withinOpens {k : Consumer} {x : Call} (opens : x.Opens (.consumer k)) :
    x.Within k.stopped := by
  unfold Call.Opens at opens
  split at opens <;> trivial

namespace Client

variable [Broker β] {e f g : Env β} {c d : Client}

theorem keepsCloseConsumer {i : Nat} {k l : Consumer} {x y : Consumer.ConsumerClosing}
    {t : Supervisor} (keeping : k.Keeping e c) (here : c.calls[i]? = some (.closeConsumer x))
    (grows : e.Grows f) (move : k.CloseMove i e c.supervisor x f t l y) :
    l.Keeping f ({ c with supervisor := t, role := .consumer l }.setCall i (.closeConsumer y)) := by
  have within : Call.Within k.stopped (.closeConsumer x) :=
    keeping.calls _ (List.mem_of_getElem? here)
  have custody := Consumer.custodyLater grows (Consumer.custodyClose keeping.custody move)
  cases move with
  | lock | clear | unlock =>
    exact ⟨custody, keeping.closed, withinSet keeping.calls trivial⟩
  | raise =>
    exact ⟨custody, fun _ => rfl,
      withinSet (fun x mem => withinStopped (keeping.calls x mem)) rfl⟩
  | raised again => exact ⟨custody, keeping.closed, withinSet keeping.calls again⟩
  | grace | collect | joined =>
    exact ⟨custody, keeping.closed, withinSet keeping.calls within⟩
  | closing made =>
    have topology : t.topology = c.supervisor.topology := by
      cases Supervisor.closingMove made <;> rfl
    exact ⟨by rw [← topology] at custody; exact custody, fun _ => within,
      withinSet keeping.calls within⟩

theorem keepsMove (publish : Consumer.PublishSound β) (keeps : c.Keeps e) (move : Move e c f d) :
    d.Keeps f := by
  have grows := growsOfMove move
  cases move with
  | recovery made =>
    intro k role
    have keeping := keeps k role
    have move := Supervisor.recoveryMove made
    refine ⟨?_, fun closed => keeping.closed (Supervisor.openOfRecovery move closed), keeping.calls⟩
    dsimp only
    rw [Supervisor.topologyOfRecovery move]
    exact Consumer.custodyLater grows keeping.custody
  | watcher made =>
    intro k role
    have keeping := keeps k role
    obtain ⟨rfl, move⟩ := Supervisor.watcherMove made
    have topology := Supervisor.topologyOfWatcher move
    refine ⟨?_, fun closed => keeping.closed (Supervisor.sessionOfWatcher move ▸ closed),
      keeping.calls⟩
    dsimp only
    rw [topology]
    exact keeping.custody
  | loop role made =>
    rintro _ ⟨⟩
    have keeping := keeps _ role
    obtain ⟨j, -, move⟩ := Consumer.loopMove made
    have frame := Consumer.loopFrame move
    refine ⟨Consumer.custodyLater grows (Consumer.custodyLoop keeping.custody frame), ?_, ?_⟩
    · rw [frame.stopped]; exact keeping.closed
    · rw [frame.stopped]; exact keeping.calls
  | worker role made =>
    rintro _ ⟨⟩
    have keeping := keeps _ role
    obtain ⟨x, found, move⟩ := Consumer.workerMove made
    have stopped := (Consumer.workerEffect move).1
    refine ⟨Consumer.custodyLater grows (Consumer.custodyWorker keeping.custody found move), ?_, ?_⟩
    · rw [stopped]; exact keeping.closed
    · rw [stopped]; exact keeping.calls
  | retry role made =>
    rintro _ ⟨⟩
    have keeping := keeps _ role
    obtain ⟨r, q, found, move, rfl⟩ := Consumer.retryStepSource made
    exact ⟨Consumer.custodyRetry publish keeping.closed keeping.custody found move grows,
      keeping.closed, keeping.calls⟩
  | publish here =>
    intro k role
    exact ((keeps k role).calls _ (List.mem_of_getElem? here)).elim
  | close here =>
    intro k role
    exact ((keeps k role).calls _ (List.mem_of_getElem? here)).elim
  | start role here made =>
    rintro _ ⟨⟩
    have keeping := keeps _ role
    obtain ⟨retry, stopped, retries, -, workers⟩ := Consumer.startFrame made
    refine ⟨Consumer.custodyFrame keeping.custody retry stopped retries workers, ?_, ?_⟩
    · rw [stopped]; exact keeping.closed
    · rw [stopped]; exact withinSet keeping.calls trivial
  | closeConsumer role here made =>
    rintro _ ⟨⟩
    exact keepsCloseConsumer (keeps _ role) here grows (Consumer.closeMove made)

theorem keepsChange (publish : Consumer.PublishSound β) (keeps : c.Keeps e)
    (change : Change e c f d) : d.Keeps f := by
  have later {g h : Env β} {c : Client} (grows : g.Grows h) (keeps : c.Keeps g) : c.Keeps h :=
    fun k role => ⟨Consumer.custodyLater grows (keeps k role).custody, (keeps k role).closed,
      (keeps k role).calls⟩
  cases change with
  | same grows => exact later grows keeps
  | step made grows => exact later grows (keepsMove publish keeps (clientMove made))
  | call held opens =>
    intro k role
    refine ⟨(keeps k role).custody, (keeps k role).closed, ?_⟩
    intro x mem
    rcases List.mem_append.mp mem with old | new
    · exact (keeps k role).calls x old
    · cases List.mem_singleton.mp new
      have role : c.role = .consumer k := role
      rw [role] at opens
      exact withinOpens opens
  | letGo => exact fun k role => ⟨(keeps k role).custody, (keeps k role).closed, (keeps k role).calls⟩

end Client

def Fact.failure : Fact → Bool
  | .handled _ false => true
  | _ => false

def Env.failures (e : Env β) : Nat := e.journal.countP fun x => x.fact.failure

def Consumer.failures (k : Consumer) : Nat := k.workers.countP Worker.failed

def Client.failures (c : Client) : Nat :=
  match c.role with
  | .consumer k => k.failures
  | _ => 0

def World.failures (w : World β) : Nat := total Client.failures w.clients

theorem failuresOfOther {e f : Env β} {writer : Fact.Writer} (other : writer ≠ .worker)
    (grows : e.GrowsBy writer f) : f.failures = e.failures := by
  refine Env.countOther grows fun x failure => ?_
  unfold Fact.failure at failure
  split at failure
  · rename_i same; rw [same]; exact other.symm
  · cases failure

section

variable [Broker β] {e f : Env β}

theorem Consumer.failuresOfWorker {i : Nat} {x : Worker} {k l : Consumer}
    (found : k.workers[i]? = some x) (move : WorkerMove i e k x f l) :
    f.failures + k.failures = e.failures + l.failures := by
  have unchanged {y : Worker} {f : Env β} (set : l.workers = k.workers.set i y)
      (same : y.failed = x.failed) (kept : f.failures = e.failures) :
      f.failures + k.failures = e.failures + l.failures := by
    have count := countSet (p := Worker.failed) (y := y) found
    rw [same] at count
    unfold Consumer.failures
    rw [set, kept, Nat.add_right_cancel count]
  cases move with
  | @fail ends failure here =>
    have count := countSet (p := Worker.failed) (y := ((x.note (.exception failure)).note
      (.failed failure)).goto (.scheduling failure)) found
    have before : x.failed = false := by simp only [Worker.failed, Worker.retried, here]
    rw [before] at count
    have more : (e.record (.handled x.delivery.tag false)).failures = e.failures + 1 :=
      List.countP_cons_of_pos rfl
    rw [more, Nat.add_assoc, Nat.add_comm 1]
    exact congrArg (e.failures + ·) count.symm
  | @settle _ disposition here | @finish disposition here =>
    refine unchanged rfl ?_ (List.countP_cons_of_neg Bool.false_ne_true)
    cases disposition <;> simp only [Worker.failed, Worker.retried, Worker.goto, here]
  | schedule here =>
    refine unchanged rfl ?_ rfl
    simp only [Worker.failed, Worker.retried, Worker.goto, here]
  | refuse here =>
    refine unchanged rfl ?_ rfl
    simp only [Worker.failed, Worker.retried, Worker.goto, here]
  | handle here | succeed here =>
    refine unchanged rfl ?_ (List.countP_cons_of_neg Bool.false_ne_true)
    simp only [Worker.failed, Worker.retried, Worker.goto, here]

theorem Client.failuresOfMove {c d : Client} (move : Move e c f d) :
    f.failures + c.failures = e.failures + d.failures := by
  have workersKept {k l : Consumer} (role : c.role = .consumer k)
      (become : d.role = .consumer l) (same : l.failures = k.failures) :
      d.failures = c.failures := by
    unfold Client.failures; rw [role, become]; exact same
  rcases growsByMove move with ⟨k, l, i, x, role, become, found, move⟩ | ⟨writer, other, grows⟩
  · have balance := Consumer.failuresOfWorker found move
    have before : c.failures = k.failures := by unfold Client.failures; rw [role]
    rw [become, before]
    exact balance
  rw [failuresOfOther other grows]
  congr 1
  cases move with
  | recovery | watcher | publish | close => rfl
  | loop role made =>
    obtain ⟨j, -, move⟩ := Consumer.loopMove made
    refine (workersKept role rfl ?_).symm
    unfold Consumer.failures
    rcases (Consumer.loopFrame move).workers with same | ⟨d, c, grown⟩
    · rw [same]
    · rw [grown, List.countP_append]; rfl
  | worker role made =>
    obtain ⟨x, found, move⟩ := Consumer.workerMove made
    have balance := Consumer.failuresOfWorker found move
    rw [failuresOfOther other grows] at balance
    exact (workersKept role rfl (Nat.add_left_cancel balance).symm).symm
  | retry role made =>
    obtain ⟨r, q, -, -, rfl⟩ := Consumer.retryStepSource made
    exact (workersKept role rfl rfl).symm
  | start role here made =>
    obtain ⟨-, -, -, -, workers⟩ := Consumer.startFrame made
    refine (workersKept role rfl ?_).symm
    unfold Consumer.failures
    rw [workers]
  | closeConsumer role here made =>
    refine (workersKept role rfl ?_).symm
    cases Consumer.closeMove made <;> rfl

namespace World

variable {outside : β → β → Prop} {w v : World β}

theorem failuresOfUse (h : Use outside w v) (counted : w.env.failures = w.failures) :
    v.env.failures = v.failures := by
  cases h with
  | act made =>
    obtain ⟨a, preferStop, made⟩ := made
    cases a with
    | opening i =>
      have kept : v.env.failures = w.env.failures :=
        failuresOfOther (by decide) (openingStepClients made).1
      rw [kept, counted]
      unfold failures
      rcases (openingStepClients made).2 with same | ⟨o, l, c, h, grown⟩
      · rw [same]
      · rw [grown, totalAppend]
        cases o with
        | mk client plan phase => cases plan <;> rfl
    | client i a =>
      obtain ⟨c, e, d, found, stepped, rfl⟩ := clientStepSource made
      have balance := Client.failuresOfMove (Client.clientMove stepped)
      have changed := totalSet (f := Client.failures) (y := d) found
      have ended : (recordEnd i a d e).failures = e.failures :=
        failuresOfOther (by decide) (growsRecordEnd i a d e)
      unfold failures at counted ⊢
      dsimp only at *
      omega
  | time | broker | make => exact counted
  | call | letGo =>
    refine counted.trans ?_
    unfold failures
    first | unfold World.call | unfold World.letGo
    rw [totalModify fun _ => by rfl]

theorem failuresCounted (reached : Reachable outside w) : w.env.failures = w.failures := by
  refine reachableInduction (P := fun w => w.env.failures = w.failures) ?_ ?_ reached
  · intro w fresh
    unfold Env.failures failures
    rw [fresh.journal, fresh.clients]
    rfl
  · intro w v _ used counted
    exact failuresOfUse used counted

theorem reachableKeeps (publish : Consumer.PublishSound β) (reached : Reachable outside w) {i : Nat}
    {c : Client} (found : w.clients[i]? = some c) : c.Keeps w.env := by
  refine reachableClient (P := fun e c => c.Keeps e) ?_ ?_ reached found
  · intro e o l connectionSignal channelSignal k role
    cases o with
    | mk client plan phase =>
      cases plan with
      | consumer t p options h =>
        cases role
        exact ⟨⟨fun _ => rfl, rfl, fun x mem => (by cases mem), fun r mem => (by cases mem),
            fun r mem => (by cases mem)⟩,
          fun closed => (by cases closed), fun x mem => (by cases mem)⟩
      | _ => cases role
  · intro e c f d change keeps
    exact Client.keepsChange publish keeps change

end World

end

structure Consumer.Accounts [Broker β] (e : Env β) (t : Topology) (k : Consumer) : Prop where
  budget : ∀ x ∈ k.workers, x.failed = true → Retry.count x.delivery.headers < k.retry.maxRetries
  scheduling : ∀ n x failure, k.workers[n]? = some x → x.phase = .scheduling failure →
    k.owned n = [] ∧ ∀ g : Env β, ∃ l r, k.workerStep n g = some (g.freshId.1, l) ∧
      l.owned n = [r] ∧ CopyOf x.delivery r.envelope ∧ r.phase.finished = false
  retried : ∀ n x, k.workers[n]? = some x → x.retried = true →
    ∃ r, k.owned n = [r] ∧ CopyOf x.delivery r.envelope
  others : ∀ n, k.retriedAt n = false → k.owned n = []
  confirmed : ∀ r ∈ k.retries, r.confirmations = if r.phase.finished then 1 else 0
  answered : ∀ r ∈ k.retries, ∀ x ∈ r.tries, x.confirmed = true →
    ∃ come ≤ x.ended, r.Answered e t x.attempt come (.ok ())
  balance : k.workers.countP Worker.retried =
    total RetryTask.confirmations k.retries + k.retries.countP fun r => !r.phase.finished

namespace Consumer

variable {e : Env β} {t : Topology} {k : Consumer}

theorem confirmedOrUnfinished {tasks : List RetryTask}
    (once : ∀ r ∈ tasks, r.confirmations = if r.phase.finished then 1 else 0) :
    tasks.length = total RetryTask.confirmations tasks +
      tasks.countP fun r => !r.phase.finished := by
  induction tasks with
  | nil => rfl
  | cons r rest ih =>
    have rest := ih fun q mem => once q (List.mem_cons_of_mem r mem)
    have here := once r List.mem_cons_self
    simp only [List.length_cons, total, List.countP_cons]
    cases ended : r.phase.finished <;> rw [ended] at here <;> simp at here ⊢ <;> omega

theorem confirmedWhenFinished {r : RetryTask} (sound : r.Sound e t false) :
    r.confirmations = if r.phase.finished then 1 else 0 := by
  rw [sound.confirmed]
  cases phase : r.phase with
  | done confirmed =>
    cases confirmed with
    | true => rfl
    | false => cases sound.givenUp (by rw [phase]; rfl) (by rw [phase]; rfl)
  | _ => rfl

theorem ownedAlone {n : Nat} (custody : k.Custody e t) (retried : k.retriedAt n = true) :
    ∃ r, k.owned n = [r] ∧ r ∈ k.retries ∧ r.origin = n := by
  have one := custody.owned n
  rw [retried, if_pos rfl] at one
  obtain ⟨r, alone⟩ := List.length_eq_one_iff.mp one
  have mem : r ∈ k.owned n := by rw [alone]; exact List.mem_singleton_self r
  exact ⟨r, alone, (List.mem_filter.mp mem).1, eq_of_beq (List.mem_filter.mp mem).2⟩

theorem ownedNone {n : Nat} (custody : k.Custody e t) (other : k.retriedAt n = false) :
    k.owned n = [] := by
  have none := custody.owned n
  rw [other] at none
  exact List.length_eq_zero_iff.mp none

theorem accounts [Broker β] (custody : k.Custody e t) (running : k.stopped = false) :
    k.Accounts e t where
  budget x mem failed := by
    refine custody.budget x mem ?_
    unfold Worker.unsolved
    split
    · rfl
    · exact failed
  scheduling n x failure found here := by
    -- before the copy is scheduled the message owns no task, and the step adds one
    have before : k.retriedAt n = false := by
      unfold retriedAt
      rw [found]
      simp only [Option.any_some, Worker.retried, here]
    have none := ownedNone custody before
    refine ⟨none, fun g => ?_⟩
    let copy := Envelope.json g.freshId.2 x.delivery.body
      (some (copyHeaders x.delivery failure g.unix))
    let ends := Instant.wake g.now (Retry.delay (Retry.count x.delivery.headers) k.retry)
    refine ⟨_, ⟨n, copy, .waiting ends, []⟩, by simp only [workerStep, found, here]; rfl, ?_,
      ⟨_, _, _, rfl⟩, rfl⟩
    unfold owned at none ⊢
    simp only [setWorker, schedule, List.filter_append, none]
    simp only [List.nil_append, List.filter_cons, List.filter_nil, beq_self_eq_true, if_true]
    rfl
  retried n x found retried := by
    have here : k.retriedAt n = true := by unfold retriedAt; rw [found]; exact retried
    obtain ⟨r, alone, mem, origin⟩ := ownedAlone custody here
    obtain ⟨y, there, copy⟩ := custody.copies r mem
    rw [origin] at there
    cases Option.some.inj (found.symm.trans there)
    exact ⟨r, alone, copy⟩
  others n other := ownedNone custody other
  confirmed r mem := by
    have sound := custody.sound r mem
    rw [running] at sound
    exact confirmedWhenFinished sound
  answered r mem := (custody.sound r mem).witnessed
  balance := by
    rw [custody.counted]
    refine confirmedOrUnfinished fun r mem => ?_
    have sound := custody.sound r mem
    rw [running] at sound
    exact confirmedWhenFinished sound

end Consumer

/-- Every failed message of a consumer that is not being stopped is accounted for. -/
theorem failedMessagesKept [Broker β] {outside : β → β → Prop} {w : World β}
    (publish : Consumer.PublishSound β) (reached : World.Reachable outside w) :
    w.env.failures = w.failures ∧
      ∀ (i : Nat) (c : Client) (k : Consumer), w.clients[i]? = some c → c.role = .consumer k →
        k.stopped = false → k.Accounts w.env c.supervisor.topology := by
  refine ⟨World.failuresCounted reached, fun i c k found role running => ?_⟩
  exact Consumer.accounts (World.reachableKeeps publish reached found k role).custody running

theorem Broker.Memory.publishSound : Consumer.PublishSound Broker.Memory := by
  intro m c exchange key envelope n o reply closed
  subst closed
  change (m.publish c exchange key envelope).2 = _ at reply
  unfold Broker.Memory.publish at reply
  repeat' split at reply
  all_goals cases reply

theorem Broker.Scripted.publishSound : Consumer.PublishSound Broker.Scripted := by
  intro m c exchange key envelope n o reply closed
  subst closed
  change (m.publish c exchange key envelope).2 = _ at reply
  unfold Broker.Scripted.publish at reply
  repeat' split at reply
  all_goals cases reply

namespace World

def failing : World Broker.Memory :=
  let t := ((Topology.new "orders").withQueue "orders").underKey "order"
  let start : World Broker.Memory := { env := { broker := {}, wallClock := fun _ => 0 } }
  (start.make "reader" (.consumer t {} {} fun _ _ => ⟨0, .error "rejected"⟩)).settle

def failingStarted : World Broker.Memory := (failing.call 0 (.start .locking)).settle

def failedOnce : World Broker.Memory :=
  let w := failingStarted
  { w with env := w.env.withBroker (w.env.broker.deliver "orders" "order" [] []) }.settle

theorem failedOnceReached : Reachable (fun _ _ => True) failedOnce := by
  have made : Reachable (fun _ _ => True) failing := reachableMade ⟨rfl, rfl, rfl⟩ _ _
  have started : Reachable (fun _ _ => True) failingStarted :=
    reachableSettled (reachableCall made (by decide +kernel) fun _ => trivial)
  exact reachableSettled (reachableBroker started trivial)

end World

theorem failedMessageKeptOnce :
    World.failedOnce.env.failures = 1 ∧ ∃ c k,
      World.failedOnce.clients[0]? = some c ∧ c.role = .consumer k ∧ k.stopped = false ∧
        k.workers.countP Consumer.Worker.retried = 1 ∧
        k.Accounts World.failedOnce.env c.supervisor.topology := by
  refine ⟨by decide +kernel, ?_⟩
  obtain ⟨c, k, found, role, seen⟩ := World.consumerSeen (w := World.failedOnce) (i := 0)
    (p := fun k => k.stopped == false && k.workers.countP Consumer.Worker.retried == 1)
    (by decide +kernel)
  obtain ⟨running, one⟩ := Bool.and_eq_true_iff.mp seen
  exact ⟨c, k, found, role, eq_of_beq running, eq_of_beq one,
    (failedMessagesKept Broker.Memory.publishSound World.failedOnceReached).2 0 c k found role
      (eq_of_beq running)⟩

end AmqpClient
