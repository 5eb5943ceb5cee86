import AmqpClient.Proofs.Counts
import AmqpClient.Proofs.Journal
/-! Custody of failed messages. A delivery that failed within its budget is given to one retry task
before it is acknowledged, and while the consumer is not being stopped that task ends with one
confirmed attempt and not before. -/
namespace AmqpClient.Consumer

def Worker.retried (x : Worker) : Bool :=
  match x.phase with
  | .settling _ (.retried ..) => true
  | .finishing (.retried ..) => true
  | .done (.retried ..) => true
  | _ => false

def Worker.failed (x : Worker) : Bool :=
  match x.phase with
  | .scheduling _ => true
  | _ => x.retried

def Worker.unsolved (x : Worker) : Bool :=
  match x.phase with
  | .handling .. => true
  | _ => x.failed

def retriedAt (k : Consumer) (n : Nat) : Bool := k.workers[n]?.any Worker.retried

def CopyOf (d : Delivery) (m : Envelope) : Prop :=
  ∃ id failure unix, m = .json id d.body (some (copyHeaders d failure unix))

def owned (k : Consumer) (n : Nat) : List RetryTask := k.retries.filter fun r => r.origin == n

def Tried.confirmed (t : Tried) : Bool :=
  match t.outcome with
  | .ok () => true
  | .error _ => false

def RetryTask.confirmations (r : RetryTask) : Nat := r.tries.countP Tried.confirmed

def RetryPhase.confirmed : RetryPhase → Bool
  | .done confirmed => confirmed
  | _ => false

def RetryPhase.attempt? : RetryPhase → Option Attempted
  | .opening a => some a
  | .sending a _ => some a
  | .confirming a _ => some a
  | _ => none

/-- A client that is closed is known by its session alone: no broker answers a publish so. -/
def PublishSound (β : Type) [Broker β] : Prop :=
  ∀ (b : β) (c : ChannelId) (exchange key : String) (m : Envelope) (n : Nat) (o : Outcome),
    (Broker.publish c exchange key m b).2 = .after n o → o ≠ .error .closed

variable {β : Type} {e f : Env β} {s : Supervisor} {k l : Consumer} {t : Topology}

def RetryTask.Answered (e : Env β) (t : Topology) (r : RetryTask) (a : Attempted) (come : Instant)
    (o : Outcome) : Prop :=
  ∃ x ∈ e.journal, ∃ c n, a.channel = some c ∧ x.time + n = come ∧
    x.fact = .published c t.exchangeName t.routingKey r.envelope (.after n o)

structure RetryTask.Sound (e : Env β) (t : Topology) (stopped : Bool) (r : RetryTask) : Prop where
  confirmed : r.confirmations = if r.phase.confirmed then 1 else 0
  givenUp : r.phase.finished = true → r.phase.confirmed = false → stopped = true
  sampled : ∀ a, r.phase.attempt? = some a → a.stopping = true → stopped = true
  through : ∀ a c, r.phase = .sending a c → a.channel = some c
  answered : ∀ a c come o, r.phase = .confirming a c → c.answered = some (come, o) →
    o ≠ .error .closed ∧ r.Answered e t a come o
  witnessed : ∀ x ∈ r.tries, x.confirmed = true →
    ∃ come ≤ x.ended, r.Answered e t x.attempt come (.ok ())

structure Custody (e : Env β) (t : Topology) (k : Consumer) : Prop where
  owned : ∀ n, (k.owned n).length = if k.retriedAt n then 1 else 0
  counted : k.workers.countP Worker.retried = k.retries.length
  budget : ∀ x ∈ k.workers, x.unsolved = true → Retry.count x.delivery.headers < k.retry.maxRetries
  copies : ∀ r ∈ k.retries, ∃ x, k.workers[r.origin]? = some x ∧ CopyOf x.delivery r.envelope
  sound : ∀ r ∈ k.retries, r.Sound e t k.stopped

theorem confirmationAnswer {c : Confirmation} {now : Instant} {o : Outcome}
    (h : c.result? now = some o) :
    o = .error .publishTimeout ∨ ∃ come ≤ now, c.answered = some (come, o) := by
  have late (h : (if c.deadline ≤ now then some (Except.error Error.publishTimeout) else none)
      = some o) : o = .error .publishTimeout := by
    by_cases due : c.deadline ≤ now
    · rw [if_pos due] at h; cases h; rfl
    · rw [if_neg due] at h; cases h
  unfold Confirmation.result? at h
  dsimp only at h
  split at h
  · rename_i come answer found
    by_cases due : come ≤ now
    · rw [if_pos due] at h; cases h; exact .inr ⟨come, due, found⟩
    · rw [if_neg due] at h; exact .inl (late h)
  · exact .inl (late h)

theorem soundLater {stopped : Bool} {r : RetryTask} (grows : e.Grows f)
    (sound : r.Sound e t stopped) : r.Sound f t stopped := by
  have later {a : Attempted} {come : Instant} {o : Outcome} (answered : r.Answered e t a come o) :
      r.Answered f t a come o := by
    obtain ⟨x, mem, rest⟩ := answered
    exact ⟨x, Env.growsMem grows mem, rest⟩
  refine ⟨sound.confirmed, sound.givenUp, sound.sampled, sound.through, ?_, ?_⟩
  · intro a c come o here answer
    obtain ⟨other, answered⟩ := sound.answered a c come o here answer
    exact ⟨other, later answered⟩
  · intro x mem won
    obtain ⟨come, due, answered⟩ := sound.witnessed x mem won
    exact ⟨come, due, later answered⟩

theorem soundStopped {stopped : Bool} {r : RetryTask} (sound : r.Sound e t stopped) :
    r.Sound e t true :=
  ⟨sound.confirmed, fun _ _ => rfl, fun _ _ _ => rfl, sound.through, sound.answered,
    sound.witnessed⟩

theorem soundBetween {stopped : Bool} {r : RetryTask} {p : RetryPhase}
    (none : r.confirmations = 0)
    (witnessed : ∀ x ∈ r.tries, x.confirmed = true →
      ∃ come ≤ x.ended, r.Answered e t x.attempt come (.ok ()))
    (idle : p.attempt? = Option.none) (running : p.finished = false) :
    RetryTask.Sound e t stopped { r with phase := p } := by
  refine ⟨?_, ?_, ?_, ?_, ?_, witnessed⟩
  · refine none.trans ?_
    cases p <;> first | rfl | cases running
  · intro ended; rw [running] at ended; cases ended
  · intro a found; rw [idle] at found; cases found
  · intro a c here; cases here; cases idle
  · intro a c come o here; cases here; cases idle

theorem concludeSound {stopped : Bool} {r : RetryTask} {a : Attempted} {o : Outcome}
    {now : Instant} {delay : Duration} (none : r.confirmations = 0)
    (witnessed : ∀ x ∈ r.tries, x.confirmed = true →
      ∃ come ≤ x.ended, r.Answered e t x.attempt come (.ok ()))
    (sampled : a.stopping = true → stopped = true)
    (closed : o = .error .closed → stopped = true)
    (won : o = .ok () → ∃ come ≤ now, r.Answered e t a come (.ok ())) :
    (r.conclude now delay a o).Sound e t stopped := by
  have tries : ∀ x ∈ (r.conclude now delay a o).tries, x.confirmed = true →
      ∃ come ≤ x.ended, r.Answered e t x.attempt come (.ok ()) := by
    intro x mem confirmed
    rcases List.mem_cons.mp mem with rfl | old
    · cases o with
      | ok u => exact won rfl
      | error x => cases confirmed
    · exact witnessed x old confirmed
  cases o with
  | ok u =>
    have once : (r.conclude now delay a (.ok u)).confirmations = r.confirmations + 1 :=
      List.countP_cons_of_pos rfl
    refine ⟨?_, ?_, ?_, ?_, ?_, tries⟩
    · rw [once, none]; rfl
    · intro _ open_; cases open_
    all_goals intros; contradiction
  | error x =>
    have same : (r.conclude now delay a (.error x)).confirmations = 0 := by
      exact (List.countP_cons_of_neg (by simp [Tried.confirmed])).trans none
    by_cases last : (a.stopping || decide (x = .closed)) = true
    · have phase : (r.conclude now delay a (.error x)).phase = .done false := by
        simp only [RetryTask.conclude, afterAttempt, last, if_true]
      refine ⟨by rw [same, phase]; rfl, ?_, ?_, ?_, ?_, tries⟩
      · intro _ _
        rcases Bool.or_eq_true_iff.mp last with stopping | was
        · exact sampled stopping
        · exact closed (by rw [of_decide_eq_true was])
      · intro b found; rw [phase] at found; cases found
      · intro b c found; rw [phase] at found; cases found
      · intro b c come o found; rw [phase] at found; cases found
    · have phase : (r.conclude now delay a (.error x)).phase =
          .pausing (Instant.wake now delay) := by
        simp only [RetryTask.conclude, afterAttempt, last]; rfl
      have sound : RetryTask.Sound e t stopped
          { r.conclude now delay a (.error x) with phase := .pausing (Instant.wake now delay) } :=
        soundBetween same tries rfl rfl
      rw [← phase] at sound
      exact sound

theorem custodyLater (grows : e.Grows f) (custody : k.Custody e t) : k.Custody f t :=
  ⟨custody.owned, custody.counted, custody.budget, custody.copies,
    fun r mem => soundLater grows (custody.sound r mem)⟩

theorem retriedAtSet {i n : Nat} {x y : Worker} (found : k.workers[i]? = some x)
    (set : l.workers = k.workers.set i y) :
    l.retriedAt n = if n = i then y.retried else k.retriedAt n := by
  have inside : i < k.workers.length := (List.getElem?_eq_some_iff.mp found).1
  unfold retriedAt
  rw [set]
  by_cases here : n = i
  · subst here; rw [if_pos rfl, List.getElem?_set_self inside]; rfl
  · rw [if_neg here, List.getElem?_set_ne (Ne.symm here)]

theorem custodyFrame (custody : k.Custody e t) (retry : l.retry = k.retry)
    (stopped : l.stopped = k.stopped) (retries : l.retries = k.retries)
    (workers : l.workers = k.workers) : l.Custody e t := by
  refine ⟨fun n => ?_, ?_, ?_, ?_, ?_⟩
  · unfold owned retriedAt
    rw [retries, workers]
    exact custody.owned n
  · rw [retries, workers]
    exact custody.counted
  · rw [retry, workers]
    exact custody.budget
  · rw [retries, workers]
    exact custody.copies
  · rw [retries, stopped]
    exact custody.sound

theorem custodyLoop (custody : k.Custody e t) (frame : LoopFrame k l) : l.Custody e t := by
  refine ⟨fun n => ?_, ?_, ?_, ?_, ?_⟩
  · have same : l.retriedAt n = k.retriedAt n := by
      unfold retriedAt
      rcases frame.workers with same | ⟨d, c, grown⟩
      · rw [same]
      · rw [grown, List.getElem?_append]
        split
        · rfl
        · rename_i beyond
          rw [List.getElem?_eq_none (Nat.le_of_not_lt beyond)]
          cases n - k.workers.length <;> rfl
    unfold owned
    rw [frame.retries, same]
    exact custody.owned n
  · rw [frame.retries, ← custody.counted]
    rcases frame.workers with same | ⟨d, c, grown⟩
    · rw [same]
    · rw [grown, List.countP_append]; rfl
  · rw [frame.retry]
    intro x mem unsolved
    rcases frame.workers with same | ⟨d, c, grown⟩
    · exact custody.budget x (same ▸ mem) unsolved
    · rcases List.mem_append.mp (grown ▸ mem) with old | new
      · exact custody.budget x old unsolved
      · cases List.mem_singleton.mp new; cases unsolved
  · rw [frame.retries]
    intro r mem
    obtain ⟨x, found, copy⟩ := custody.copies r mem
    rcases frame.workers with same | ⟨d, c, grown⟩
    · exact ⟨x, same ▸ found, copy⟩
    · refine ⟨x, ?_, copy⟩
      rw [grown, List.getElem?_append_left (List.getElem?_eq_some_iff.mp found).1]
      exact found
  · rw [frame.retries, frame.stopped]
    exact custody.sound

variable [Broker β]

theorem retrySound {stopped : Bool} {r q : RetryTask} (publish : PublishSound β)
    (closed : s.session.state = .closed → stopped = true)
    (sound : r.Sound e s.topology stopped) (move : RetryMove stopped s e r f q) :
    q.Sound f s.topology stopped ∧ q.origin = r.origin ∧ q.envelope = r.envelope := by
  have unconfirmed (running : r.phase.confirmed = false) : r.confirmations = 0 := by
    rw [sound.confirmed, running]; rfl
  cases move with
  | wake here due =>
    refine ⟨soundBetween (unconfirmed ?_) sound.witnessed rfl rfl, rfl, rfl⟩
    rcases here with here | here <;> rw [here] <;> rfl
  | sample here =>
    refine ⟨⟨unconfirmed (by rw [here]; rfl), ?_, ?_, ?_, ?_, sound.witnessed⟩, rfl, rfl⟩
    · intro ended; cases ended
    · intro a found; cases found; exact id
    all_goals intros; contradiction
  | @unopened a x here gone =>
    refine ⟨concludeSound (unconfirmed (by rw [here]; rfl)) sound.witnessed
      (sound.sampled a (by rw [here]; rfl)) ?_ (by intro won; cases won), rfl, rfl⟩
    intro was
    cases was
    exact closed (Supervisor.closedOfChannel gone)
  | @opened a c here current =>
    refine ⟨⟨unconfirmed (by rw [here]; rfl), ?_, ?_, ?_, ?_, sound.witnessed⟩, rfl, rfl⟩
    · intro ended; cases ended
    · intro b found; cases found; exact sound.sampled a (by rw [here]; rfl)
    · intro b d found; cases found; rfl
    · intros; contradiction
  | @send a c here =>
    have grows : e.Grows (e.publish c s.topology.exchangeName s.topology.routingKey r.envelope).1 :=
      List.suffix_cons _ _
    refine ⟨⟨unconfirmed (by rw [here]; rfl), ?_, ?_, ?_, ?_, (soundLater grows sound).witnessed⟩,
      rfl, rfl⟩
    · intro ended; cases ended
    · intro b found; cases found; exact sound.sampled a (by rw [here]; rfl)
    · intros; contradiction
    · intro b d come o found answer
      cases found
      cases reply : (e.publish c s.topology.exchangeName s.topology.routingKey r.envelope).2 with
      | after n o' =>
        rw [reply] at answer
        cases answer
        refine ⟨publish _ _ _ _ _ _ _ reply, _, List.mem_cons_self, c, n, sound.through a c here,
          rfl, ?_⟩
        rw [← reply]
        rfl
      | never => rw [reply] at answer; cases answer
  | @conclude a c o here answer =>
    refine ⟨concludeSound (unconfirmed (by rw [here]; rfl)) sound.witnessed
      (sound.sampled a (by rw [here]; rfl)) ?_ ?_, rfl, rfl⟩
    all_goals
      intro was
      rcases confirmationAnswer answer with late | ⟨come, due, found⟩
    · rw [late] at was; cases was
    · exact absurd was (sound.answered a c come o here found).1
    · rw [late] at was; cases was
    · subst was; exact ⟨come, due, (sound.answered a c come _ here found).2⟩

theorem workerEffect {i : Nat} {x : Worker} (move : WorkerMove i e k x f l) :
    l.stopped = k.stopped ∧ ∃ y, l.workers = k.workers.set i y ∧ y.delivery = x.delivery ∧
      ((y.retried = x.retried ∧ l.retries = k.retries ∧ l.unreaped = k.unreaped) ∨
        (x.retried = false ∧ y.retried = true ∧ ∃ copy ends, CopyOf x.delivery copy ∧
          l.retries = k.retries ++ [{ origin := i, envelope := copy, phase := .waiting ends }] ∧
          l.unreaped = (k.unreaped.filter fun j => !k.retryFinished j) ++ [k.retries.length])) := by
  cases move with
  | schedule here =>
    refine ⟨rfl, _, rfl, rfl, .inr ⟨?_, rfl, _, _, ⟨_, _, _, rfl⟩, rfl, rfl⟩⟩
    simp only [Worker.retried, here]
  | settle here =>
    refine ⟨rfl, _, rfl, deliveryNoted _ x, .inl ⟨?_, rfl, rfl⟩⟩
    simp only [Worker.retried, here, Worker.goto]
    split <;> split <;> simp_all
  | finish here =>
    refine ⟨rfl, _, rfl, rfl, .inl ⟨?_, rfl, rfl⟩⟩
    simp only [Worker.retried, here, Worker.goto]
    split <;> split <;> simp_all
  | refuse here | handle here | succeed here | fail here =>
    refine ⟨rfl, _, rfl, rfl, .inl ⟨?_, rfl, rfl⟩⟩
    simp only [Worker.retried, here, Worker.goto]

theorem workerBudget {i : Nat} {x : Worker} (move : WorkerMove i e k x f l)
    (within : x.unsolved = true → Retry.count x.delivery.headers < k.retry.maxRetries) :
    l.retry = k.retry ∧ ∃ y, l.workers = k.workers.set i y ∧
      (y.unsolved = true → Retry.count y.delivery.headers < k.retry.maxRetries) := by
  have within {p : WorkerPhase} (here : x.phase = p)
      (open_ : ({ x with phase := p } : Worker).unsolved = true) :
      Retry.count x.delivery.headers < k.retry.maxRetries := by
    subst here
    exact within open_
  cases move with
  | handle _ left => exact ⟨rfl, _, rfl, fun _ => UInt32.not_le.mp left⟩
  | fail here => exact ⟨rfl, _, rfl, fun _ => within here rfl⟩
  | schedule here => exact ⟨rfl, _, rfl, fun _ => within here rfl⟩
  | @settle a disposition here =>
    refine ⟨rfl, _, rfl, fun unsolved => ?_⟩
    simp only [Worker.goto, deliveryNoted]
    cases disposition with
    | retried => exact within here rfl
    | _ => cases unsolved
  | @finish disposition here =>
    refine ⟨rfl, _, rfl, fun unsolved => ?_⟩
    cases disposition with
    | retried => exact within here rfl
    | _ => cases unsolved
  | refuse | succeed => exact ⟨rfl, _, rfl, fun unsolved => by cases unsolved⟩

theorem custodyWorker {i : Nat} {x : Worker} (custody : k.Custody e t)
    (found : k.workers[i]? = some x) (move : WorkerMove i e k x f l) : l.Custody e t := by
  have before : k.retriedAt i = x.retried := by unfold retriedAt; rw [found]; rfl
  obtain ⟨stopped, y, set, kept, effect⟩ := workerEffect move
  have copies : ∀ r ∈ k.retries, ∃ x, l.workers[r.origin]? = some x ∧
      CopyOf x.delivery r.envelope := by
    intro r mem
    obtain ⟨z, there, copy⟩ := custody.copies r mem
    by_cases here : r.origin = i
    · rw [here] at there ⊢
      cases Option.some.inj (found.symm.trans there)
      rw [set, List.getElem?_set_self (List.getElem?_eq_some_iff.mp found).1]
      exact ⟨y, rfl, kept ▸ copy⟩
    · rw [set, List.getElem?_set_ne (Ne.symm here)]
      exact ⟨z, there, copy⟩
  rcases effect with ⟨same, retries, -⟩ | ⟨was, now, copy, ends, isCopy, retries, -⟩
  all_goals
    obtain ⟨retry, z, again, within⟩ :=
      workerBudget move (custody.budget x (List.mem_of_getElem? found))
    have budget : ∀ y ∈ l.workers, y.unsolved = true →
        Retry.count y.delivery.headers < l.retry.maxRetries := by
      rw [retry, again]
      intro y mem unsolved
      rcases List.mem_or_eq_of_mem_set mem with old | rfl
      · exact custody.budget y old unsolved
      · exact within unsolved
  · refine ⟨fun n => ?_, ?_, budget, retries ▸ copies, ?_⟩
    · have unchanged : l.retriedAt n = k.retriedAt n := by
        rw [retriedAtSet found set]
        split
        · rename_i here; rw [same, here, before]
        · rfl
      unfold owned
      rw [retries, unchanged]
      exact custody.owned n
    · have count := countSet (p := Worker.retried) (y := y) found
      rw [same] at count
      rw [set, retries, ← custody.counted]
      exact Nat.add_right_cancel count
    · rw [retries, stopped]
      exact custody.sound
  · refine ⟨fun n => ?_, ?_, budget, ?_, ?_⟩
    · have old := custody.owned n
      unfold owned at old ⊢
      rw [retries, retriedAtSet found set, List.filter_append, List.length_append, old]
      by_cases here : n = i
      · subst here
        rw [before, was, if_pos rfl, now]
        simp
      · rw [if_neg here]
        simp [Ne.symm here]
    · have count := countSet (p := Worker.retried) (y := y) found
      rw [was, now, custody.counted] at count
      rw [set, retries, List.length_append]
      exact count
    · rw [retries]
      intro r mem
      rcases List.mem_append.mp mem with old | new
      · exact copies r old
      · cases List.mem_singleton.mp new
        rw [set, List.getElem?_set_self (List.getElem?_eq_some_iff.mp found).1]
        exact ⟨y, rfl, kept ▸ isCopy⟩
    · rw [retries, stopped]
      intro r mem
      rcases List.mem_append.mp mem with old | new
      · exact custody.sound r old
      · cases List.mem_singleton.mp new
        have fresh : RetryTask.Sound e t k.stopped ⟨i, copy, .waiting ends, []⟩ :=
          soundBetween (r := ⟨i, copy, .waiting ends, []⟩) rfl (fun x mem => by cases mem) rfl rfl
        exact fresh

theorem custodyRetry {i : Nat} {r q : RetryTask} (publish : PublishSound β)
    (closed : s.session.state = .closed → k.stopped = true) (custody : k.Custody e s.topology)
    (found : k.retries[i]? = some r) (move : RetryMove k.stopped s e r f q) (grows : e.Grows f) :
    Custody f s.topology { k with retries := k.retries.set i q } := by
  obtain ⟨sound, origin, envelope⟩ :=
    retrySound publish closed (custody.sound r (List.mem_of_getElem? found)) move
  refine ⟨fun n => ?_, ?_, custody.budget, ?_, ?_⟩
  · have count := countSet (p := fun r => r.origin == n) (y := q) found
    rw [origin] at count
    have same := Nat.add_right_cancel count
    rw [List.countP_eq_length_filter, List.countP_eq_length_filter] at same
    exact same.trans (custody.owned n)
  · exact custody.counted.trans List.length_set.symm
  · intro p mem
    rcases List.mem_or_eq_of_mem_set mem with old | rfl
    · exact custody.copies p old
    · rw [origin, envelope]
      exact custody.copies r (List.mem_of_getElem? found)
  · intro p mem
    rcases List.mem_or_eq_of_mem_set mem with old | rfl
    · exact soundLater grows (custody.sound p old)
    · exact sound

theorem custodyClose {call : Nat} {u : Supervisor} {x y : ConsumerClosing}
    (custody : k.Custody e t) (move : CloseMove call e s k x f u l y) : l.Custody e t := by
  cases move with
  | raise =>
    exact ⟨custody.owned, custody.counted, custody.budget, custody.copies,
      fun r mem => soundStopped (custody.sound r mem)⟩
  | _ => exact ⟨custody.owned, custody.counted, custody.budget, custody.copies, custody.sound⟩

end AmqpClient.Consumer
