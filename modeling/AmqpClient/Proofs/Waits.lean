import AmqpClient.Proofs.Consumer.Custody
import AmqpClient.Proofs.Use
/-! The waits of a client whose length comes from its settings: before it dials again, before its
loop subscribes again, before a copy is published or published again, and for the answer to a copy.
Each is a sleep of just that length, or of thirty years if that is less, so however long it was to be
it has an end, and nobody sleeps beyond it. -/
namespace AmqpClient

namespace Instant

def Slept (now : Instant) (d : Duration) (ends : Instant) : Prop :=
  ∃ since, since ≤ now ∧ ends = wake since d

variable {now later ends : Instant} {d : Duration}

theorem sleptLater (slept : Slept now d ends) (order : now ≤ later) : Slept later d ends := by
  obtain ⟨since, began, same⟩ := slept
  exact ⟨since, Nat.le_trans began order, same⟩

theorem sleptSoon (slept : Slept now d ends) : ends ≤ now + longestSleep := by
  obtain ⟨since, began, rfl⟩ := slept
  exact Nat.add_le_add began (Nat.min_le_right ..)

end Instant

theorem Confirmation.timerInTime (x : Confirmation) : x.timer ≤ x.deadline := by
  unfold timer
  split
  · exact Nat.min_le_right ..
  · exact Nat.le_refl _

variable {β : Type} [Broker β] {e f : Env β} {s t : Supervisor} {k m : Consumer} {c d : Client}

def ConsumerOptions.loopDelay (o : ConsumerOptions) : Option StreamId → Duration
  | none => o.unavailableBackoff
  | some _ => o.resubscribeDelay

namespace Consumer

def copyDelay (k : Consumer) (r : RetryTask) : Duration :=
  Retry.delay ((k.workers[r.origin]?.map fun x => Retry.count x.delivery.headers).getD 0) k.retry

def Sourced (k : Consumer) : Prop := ∀ r ∈ k.retries, r.origin < k.workers.length

inductive RetryFrom (e : Env β) (s : Supervisor) (k : Consumer) (f : Env β) (j : Nat)
    (r : RetryTask) : Prop where
  | kept (before : k.retries[j]? = some r)
  | scheduled (inside : r.origin < k.workers.length)
      (waits : r.phase = .waiting (Instant.wake e.now (k.copyDelay r)))
  | moved {was} (before : k.retries[j]? = some was) (move : RetryMove k.stopped s e was f r)

def WorkersStay (k m : Consumer) : Prop :=
  ∀ (n : Nat) (x : Worker), k.workers[n]? = some x →
    ∃ y, m.workers[n]? = some y ∧ y.delivery = x.delivery

omit [Broker β] in
theorem workersSame (same : m.workers = k.workers) : k.WorkersStay m :=
  fun _ x found => ⟨x, same ▸ found, rfl⟩

omit [Broker β] in
theorem delayStays {r : RetryTask} (policy : m.retry = k.retry) (stay : k.WorkersStay m)
    (inside : r.origin < k.workers.length) : m.copyDelay r = k.copyDelay r := by
  obtain ⟨y, there, same⟩ := stay r.origin _ (List.getElem?_eq_getElem inside)
  unfold copyDelay
  rw [policy, there, List.getElem?_eq_getElem inside, Option.map_some, Option.map_some, same]

theorem stayLoop {i : Nat} {l : Loop} (move : LoopMove i s e k l f m) : k.WorkersStay m := by
  rcases (loopFrame move).workers with same | ⟨d, ch, more⟩
  · exact workersSame same
  · intro n x found
    refine ⟨x, ?_, rfl⟩
    rw [more, List.getElem?_append_left (List.getElem?_eq_some_iff.mp found).1]
    exact found

theorem stayWorker {i : Nat} {x : Worker} (found : k.workers[i]? = some x)
    (move : WorkerMove i e k x f m) : k.WorkersStay m := by
  obtain ⟨-, y, set, same, -⟩ := workerEffect move
  intro n z there
  by_cases here : i = n
  · subst here
    cases found.symm.trans there
    exact ⟨y, set ▸ List.getElem?_set_self (List.getElem?_eq_some_iff.mp found).1, same⟩
  · exact ⟨z, set ▸ (List.getElem?_set_ne here).trans there, rfl⟩

theorem pauseFrom {i : Nat} {l l' : Loop} {ends : Instant} {stream : Option StreamId}
    (found : k.loops[i]? = some l) (move : LoopMove i s e k l f m)
    (there : m.loops[i]? = some l') (here : l'.phase = .pausing ends stream) :
    ends = Instant.wake e.now (k.options.loopDelay stream) := by
  have same {x : Loop} (loops : m.loops = k.loops.set i x) : x.phase = .pausing ends stream := by
    rw [loops, List.getElem?_set_self (List.getElem?_eq_some_iff.mp found).1] at there
    exact Option.some.inj there ▸ here
  cases move with
  | unopened => cases same rfl; rfl
  | unprefetched _ answer | unsubscribed _ answer | broken _ _ _ answer | ended _ _ _ answer =>
    cases same rfl
    rw [← (Prod.mk.inj answer).1]
    rfl
  | _ => cases same rfl

def RetryPhase.WaitsAnew (now : Instant) (pause : Duration) : RetryPhase → Prop
  | .waiting _ => False
  | .pausing ends => ends = Instant.wake now pause
  | .confirming _ x => x.deadline = Instant.wake now defaultPublishTimeout
  | _ => True

omit [Broker β] in
theorem attemptWaits (now : Instant) (pause : Duration) (stopping : Bool) (o : Outcome) :
    (afterAttempt now pause stopping o).WaitsAnew now pause := by
  unfold afterAttempt
  split
  · trivial
  · split
    · trivial
    · rfl

theorem retryWaits {stopped : Bool} {q r : RetryTask} (move : RetryMove stopped s e q f r) :
    r.phase.WaitsAnew e.now s.reconnectDelay := by
  cases move with
  | wake | sample | opened => trivial
  | send =>
    change Confirmation.deadline _ = _
    unfold Confirmation.ofReply
    split <;> rfl
  | @unopened a x => exact attemptWaits e.now s.reconnectDelay a.stopping (.error x)
  | @conclude a _ o => exact attemptWaits e.now s.reconnectDelay a.stopping o

theorem originKept {stopped : Bool} {q r : RetryTask} (move : RetryMove stopped s e q f r) :
    r.origin = q.origin := by
  cases move <;> rfl

theorem retryFromWorker {i j : Nat} {x : Worker} {r : RetryTask} (found : k.workers[i]? = some x)
    (move : WorkerMove i e k x f m) (there : m.retries[j]? = some r) :
    RetryFrom e s k f j r := by
  cases move with
  | schedule =>
    change (k.retries ++ [_])[j]? = some r at there
    rw [List.getElem?_append] at there
    split at there
    · exact .kept there
    · cases List.mem_singleton.mp (List.mem_of_getElem? there)
      refine .scheduled (List.getElem?_eq_some_iff.mp found).1 ?_
      unfold copyDelay
      rw [found, Option.map_some, Option.getD_some]
  | _ => exact .kept there

end Consumer

namespace Client

theorem retryFrom (move : Move e c f d) (role : d.role = .consumer m) :
    ∃ k, c.role = .consumer k ∧ m.retry = k.retry ∧ k.WorkersStay m ∧
      ∀ j r, m.retries[j]? = some r → Consumer.RetryFrom e c.supervisor k f j r := by
  have same {k : Consumer} (was : c.role = .consumer k) (policy : m.retry = k.retry)
      (workers : m.workers = k.workers) (retries : m.retries = k.retries) :
      ∃ k, c.role = .consumer k ∧ m.retry = k.retry ∧ k.WorkersStay m ∧
        ∀ j r, m.retries[j]? = some r → Consumer.RetryFrom e c.supervisor k f j r :=
    ⟨k, was, policy, Consumer.workersSame workers, fun j r there => .kept (retries ▸ there)⟩
  cases move with
  | recovery | watcher | publish | close => exact same role rfl rfl rfl
  | loop was made =>
    cases role
    obtain ⟨l, -, move⟩ := Consumer.loopMove made
    have frame := Consumer.loopFrame move
    exact ⟨_, was, frame.retry, Consumer.stayLoop move,
      fun j r there => .kept (frame.retries ▸ there)⟩
  | worker was made =>
    cases role
    obtain ⟨x, found, move⟩ := Consumer.workerMove made
    refine ⟨_, was, by cases move <;> rfl, Consumer.stayWorker found move, fun j r there => ?_⟩
    exact Consumer.retryFromWorker found move there
  | @retry i k m g was made =>
    cases role
    obtain ⟨q, p, found, move, rfl⟩ := Consumer.retryStepSource made
    refine ⟨k, was, rfl, Consumer.workersSame rfl, fun j r there => ?_⟩
    by_cases here : i = j
    · subst here
      rw [List.getElem?_set_self (List.getElem?_eq_some_iff.mp found).1] at there
      cases there
      exact .moved found move
    · exact .kept ((List.getElem?_set_ne here).symm.trans there)
  | start was here made =>
    cases role
    obtain ⟨policy, -, retries, -, workers⟩ := Consumer.startFrame made
    exact same was policy workers retries
  | closeConsumer was here made =>
    cases role
    have move := Consumer.closeMove made
    refine same was ?_ ?_ ?_
    all_goals cases move <;> rfl

inductive Waits (c : Client) : Activity → Duration → Instant → Prop where
  | reconnect {ends} (here : c.supervisor.recovery = .pausing ends) :
      Waits c .recovery c.supervisor.reconnectDelay ends
  | subscribe {k j l ends stream} (role : c.role = .consumer k) (there : k.loops[j]? = some l)
      (here : l.phase = .pausing ends stream) :
      Waits c (.loop j) (k.options.loopDelay stream) ends
  | backoff {k j r ends} (role : c.role = .consumer k) (there : k.retries[j]? = some r)
      (here : r.phase = .waiting ends) : Waits c (.retry j) (k.copyDelay r) ends
  | again {k j r ends} (role : c.role = .consumer k) (there : k.retries[j]? = some r)
      (here : r.phase = .pausing ends) : Waits c (.retry j) c.supervisor.reconnectDelay ends
  | answer {k j r a x} (role : c.role = .consumer k) (there : k.retries[j]? = some r)
      (here : r.phase = .confirming a x) : Waits c (.retry j) defaultPublishTimeout x.deadline

theorem reconnectFrom {ends : Instant} (move : Move e c f d)
    (here : d.supervisor.recovery = .pausing ends) : c.supervisor.recovery = .pausing ends ∨
      ends = Instant.wake e.now c.supervisor.reconnectDelay := by
  have paused {s : Supervisor} (here : (s.pause e).recovery = .pausing ends) :
      ends = Instant.wake e.now s.reconnectDelay := by
    cases here
    rfl
  cases move with
  | recovery made =>
    dsimp only at here
    cases Supervisor.recoveryMove made with
    | released | failed => exact .inr (paused here)
    | handle was =>
      unfold Supervisor.handle at here
      split at here
      · cases here
      · exact .inl here
    | adopt =>
      unfold Supervisor.adopt at here
      split at here <;> cases here
    | _ => cases here
  | watcher made => cases (Supervisor.watcherMove made).2 <;> exact .inl here
  | close _ made =>
    exact .inl ((Supervisor.recoveryOfClosing (Supervisor.closingMove made)).symm.trans here)
  | closeConsumer _ _ made =>
    cases Consumer.closeMove made with
    | closing stepped =>
      exact .inl ((Supervisor.recoveryOfClosing (Supervisor.closingMove stepped)).symm.trans here)
    | _ => exact .inl here
  | _ => exact .inl here

theorem waitsFrom {a : Activity} {length : Duration} {ends : Instant} (move : Move e c f d)
    (sourced : ∀ k, c.role = .consumer k → k.Sourced) (waits : d.Waits a length ends) :
    c.Waits a length ends ∨ ends = Instant.wake e.now length := by
  have delay := delayOfMove move
  cases waits with
  | reconnect here => rw [delay]; exact (reconnectFrom move here).imp_left .reconnect
  | subscribe role there here =>
    obtain ⟨k, was, options, source⟩ := loopFrom move role
    rw [options]
    cases source _ _ there with
    | kept before => exact .inl (.subscribe was before here)
    | spawned fresh => rw [fresh] at here; cases here
    | moved before move => exact .inr (Consumer.pauseFrom before move there here)
  | backoff role there here =>
    obtain ⟨k, was, policy, stay, source⟩ := retryFrom move role
    cases source _ _ there with
    | kept before =>
      -- the worker it comes from still has its delivery, so the length is the same
      rw [Consumer.delayStays policy stay (sourced k was _ (List.mem_of_getElem? before))]
      exact .inl (.backoff was before here)
    | scheduled inside waits =>
      rw [Consumer.delayStays policy stay inside]
      exact .inr (Consumer.RetryPhase.waiting.inj (here.symm.trans waits))
    | moved before made =>
      have anew := Consumer.retryWaits made
      rw [here] at anew
      cases anew
  | again role there here =>
    obtain ⟨k, was, -, -, source⟩ := retryFrom move role
    rw [delay]
    cases source _ _ there with
    | kept before => exact .inl (.again was before here)
    | scheduled _ waits => exact nomatch here.symm.trans waits
    | moved before made =>
      have anew := Consumer.retryWaits made
      rw [here] at anew
      exact .inr anew
  | answer role there here =>
    obtain ⟨k, was, -, -, source⟩ := retryFrom move role
    cases source _ _ there with
    | kept before => exact .inl (.answer was before here)
    | scheduled _ waits => exact nomatch here.symm.trans waits
    | moved before made =>
      have anew := Consumer.retryWaits made
      rw [here] at anew
      exact .inr anew

theorem sourcedMove (move : Move e c f d) (sourced : ∀ k, c.role = .consumer k → k.Sourced) :
    ∀ m, d.role = .consumer m → m.Sourced := by
  intro m role r mem
  obtain ⟨k, was, -, stay, source⟩ := retryFrom move role
  obtain ⟨j, there⟩ := List.getElem?_of_mem mem
  have inside : r.origin < k.workers.length := by
    cases source j r there with
    | kept before => exact sourced k was r (List.mem_of_getElem? before)
    | scheduled inside => exact inside
    | moved before made =>
      have origin : r.origin = _ := Consumer.originKept made
      exact origin ▸ sourced k was _ (List.mem_of_getElem? before)
  obtain ⟨y, same, -⟩ := stay r.origin _ (List.getElem?_eq_getElem inside)
  exact (List.getElem?_eq_some_iff.mp same).1

structure Sleeps (now : Instant) (c : Client) : Prop where
  sourced : ∀ k, c.role = .consumer k → k.Sourced
  slept : ∀ a length ends, c.Waits a length ends → Instant.Slept now length ends

theorem sleepsMove (sleeps : c.Sleeps e.now) (move : Move e c f d) : d.Sleeps e.now where
  sourced := sourcedMove move sleeps.sourced
  slept a length ends waits := by
    rcases waitsFrom move sleeps.sourced waits with old | rfl
    · exact sleeps.slept a length ends old
    · exact ⟨e.now, Nat.le_refl _, rfl⟩

omit [Broker β] in
theorem sleepsLater {now later : Instant} (sleeps : c.Sleeps now) (order : now ≤ later) :
    c.Sleeps later :=
  ⟨sleeps.sourced, fun a length ends waits =>
    Instant.sleptLater (sleeps.slept a length ends waits) order⟩

theorem waitsRouse {a : Activity} {length : Duration} {ends : Instant}
    (waits : c.Waits a length ends) (stuck : c.step a false e = none) : e.now < ends := by
  refine Nat.lt_of_not_le fun due => ?_
  have now : decide (ends ≤ e.now) = true := decide_eq_true due
  have consumer {g : Supervisor → Env β → Consumer → Option (Env β × Consumer)} {k : Consumer}
      (role : c.role = .consumer k) (stuck : c.consumerStep g e = none) :
      g c.supervisor e k = none := by
    unfold consumerStep at stuck
    rw [role] at stuck
    exact Option.map_eq_none_iff.mp stuck
  have retry {j : Nat} {k : Consumer} {r : Consumer.RetryTask} (role : c.role = .consumer k)
      (there : k.retries[j]? = some r) (stuck : c.step (.retry j) false e = none) :
      r.step k.stopped c.supervisor e = none := by
    have stuck := consumer role stuck
    unfold Consumer.retryStep at stuck
    rw [there] at stuck
    exact Option.map_eq_none_iff.mp stuck
  cases waits with
  | reconnect here =>
    have stuck := Option.map_eq_none_iff.mp stuck
    unfold Supervisor.recoveryStep at stuck
    rw [here] at stuck
    simp [now] at stuck
  | subscribe role there here =>
    have stuck := consumer role stuck
    unfold Consumer.loopStep at stuck
    rw [there] at stuck
    dsimp only at stuck
    rw [here] at stuck
    simp [now] at stuck
  | backoff role there here | again role there here =>
    have stuck := retry role there stuck
    unfold Consumer.RetryTask.step at stuck
    rw [here] at stuck
    simp [Consumer.RetryTask.wake, now] at stuck
  | @answer k j r a x role there here =>
    have stuck := retry role there stuck
    unfold Consumer.RetryTask.step at stuck
    rw [here] at stuck
    have silent : x.result? e.now = none := Option.map_eq_none_iff.mp stuck
    unfold Confirmation.result? at silent
    rw [if_pos due] at silent
    dsimp only at silent
    split at silent
    · split at silent <;> cases silent
    · cases silent

theorem waitsTimer {a : Activity} {length : Duration} {ends : Instant}
    (waits : c.Waits a length ends) : ∃ t ∈ c.timers, t ≤ ends := by
  have loop {k : Consumer} {j : Nat} {l : Consumer.Loop} {t : Instant}
      (role : c.role = .consumer k) (there : k.loops[j]? = some l) (timed : l.timer? = some t) :
      t ∈ c.timers := by
    refine List.mem_append_left _ (List.mem_append_right _ ?_)
    rw [consumerOf role]
    exact List.mem_append_left _ (List.mem_append_left _
      (List.mem_filterMap.mpr ⟨l, List.mem_of_getElem? there, timed⟩))
  have retry {k : Consumer} {j : Nat} {r : Consumer.RetryTask} {t : Instant}
      (role : c.role = .consumer k) (there : k.retries[j]? = some r) (timed : r.timer? = some t) :
      t ∈ c.timers := by
    refine List.mem_append_left _ (List.mem_append_right _ ?_)
    rw [consumerOf role]
    exact List.mem_append_right _
      (List.mem_filterMap.mpr ⟨r, List.mem_of_getElem? there, timed⟩)
  cases waits with
  | reconnect here =>
    refine ⟨ends, List.mem_append_right _ ?_, Nat.le_refl _⟩
    unfold Supervisor.timer?
    rw [here]
    exact List.mem_singleton_self ends
  | subscribe role there here =>
    refine ⟨ends, loop role there ?_, Nat.le_refl _⟩
    unfold Consumer.Loop.timer?
    rw [here]
  | backoff role there here | again role there here =>
    refine ⟨ends, retry role there ?_, Nat.le_refl _⟩
    unfold Consumer.RetryTask.timer?
    rw [here]
  | @answer k j r a x role there here =>
    refine ⟨x.timer, retry role there ?_, ?_⟩
    · unfold Consumer.RetryTask.timer?
      rw [here]
    · exact x.timerInTime

end Client

namespace World

theorem sleepsReachable {outside : β → β → Prop} {w : World β} (reached : Reachable outside w)
    {i : Nat} (found : w.clients[i]? = some c) : c.Sleeps w.env.now := by
  refine reachableTimed (P := Client.Sleeps) ?_ (fun _ _ _ before => Client.sleepsLater before) ?_
    reached found
  · intro now o l a b
    -- a client is made without a task that could wait
    have idle {k : Consumer} (role : (World.client o l a b).role = .consumer k) :
        k.loops = [] ∧ k.retries = [] := by
      obtain ⟨_, plan, _⟩ := o
      cases plan <;> cases role
      exact ⟨rfl, rfl⟩
    refine ⟨fun k role r mem => ?_, fun a length ends waits => ?_⟩
    · rw [(idle role).2] at mem
      cases mem
    · cases waits with
      | reconnect here => cases here
      | subscribe role there =>
        rw [(idle role).1] at there
        cases there
      | backoff role there | again role there | answer role there =>
        rw [(idle role).2] at there
        cases there
  · intro e f c d change sleeps
    cases change with
    | step made => exact Client.sleepsMove sleeps (Client.clientMove made)
    | same => exact sleeps
    | call | letGo =>
      refine ⟨sleeps.sourced, fun a length ends waits => sleeps.slept a length ends ?_⟩
      cases waits with
      | reconnect here => exact .reconnect here
      | subscribe role there here => exact .subscribe role there here
      | backoff role there here => exact .backoff role there here
      | again role there here => exact .again role there here
      | answer role there here => exact .answer role there here

structure Sleeping (w : World β) (length : Duration) (ends : Instant) : Prop where
  slept : Instant.Slept w.env.now length ends
  soon : ends ≤ w.env.now + Instant.longestSleep
  later : w.Quiet → w.env.now < ends
  timed : ∃ t ∈ w.timers, t ≤ ends

theorem waitsSleeping {outside : β → β → Prop} {w : World β} (reached : Reachable outside w)
    {i : Nat} (found : w.clients[i]? = some c) {a : Activity} {length : Duration} {ends : Instant}
    (waits : c.Waits a length ends) : w.Sleeping length ends where
  slept := (sleepsReachable reached found).slept a length ends waits
  soon := Instant.sleptSoon ((sleepsReachable reached found).slept a length ends waits)
  later quiet := Client.waitsRouse waits (stillOf quiet found a)
  timed := by
    obtain ⟨t, mem, early⟩ := Client.waitsTimer waits
    exact ⟨t, List.mem_append_right _ (List.mem_flatMap.mpr ⟨c, List.mem_of_getElem? found, mem⟩),
      early⟩

end World

end AmqpClient
