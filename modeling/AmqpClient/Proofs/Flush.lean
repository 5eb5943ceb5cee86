import AmqpClient.Broker.Memory
import AmqpClient.Proofs.Consumer.Custody
import AmqpClient.Proofs.Use
/-! What a call that closes a consumer has flushed when it goes on to close the supervisor. It waits
for the retry tasks that there were when it took them. Copies scheduled after that, and those that
another such call has taken, it does not wait for, though their originals are acknowledged. -/
namespace AmqpClient

def Call.awaits : Call → List Nat
  | .closeConsumer (.joining tasks) => tasks
  | _ => []

namespace Consumer

def Worker.acknowledged (x : Worker) : Bool :=
  match x.phase with
  | .finishing (.retried ..) => true
  | .done (.retried ..) => true
  | _ => false

def soleHolder (k : Consumer) (r : RetryTask) : Bool :=
  !r.phase.finished && k.workers[r.origin]?.any Worker.acknowledged

def Flushed (k : Consumer) : Prop := ∀ r ∈ k.retries, k.soleHolder r = false

def RetryTask.Concluded (r : RetryTask) : Prop :=
  r.phase.finished = true → ∃ x rest, r.tries = x :: rest ∧
    (x.outcome = .ok () ∨
      ∃ y, x.outcome = .error y ∧ (x.attempt.stopping = true ∨ y = .closed))

variable {β : Type} [Broker β] {e f : Env β} {s : Supervisor} {k l : Consumer}

omit [Broker β] in
theorem conclusion (now : Instant) (delay : Duration) (a : Attempted) (o : Outcome)
    (r : RetryTask) : (r.conclude now delay a o).Concluded := by
  intro ended
  refine ⟨⟨a, now, o⟩, r.tries, rfl, ?_⟩
  cases o with
  | ok => exact .inl rfl
  | error y =>
    refine .inr ⟨y, rfl, ?_⟩
    by_cases last : (a.stopping || decide (y = .closed)) = true
    · rcases Bool.or_eq_true_iff.mp last with stopping | closed
      · exact .inl stopping
      · exact .inr (of_decide_eq_true closed)
    · simp only [RetryTask.conclude, afterAttempt, last] at ended
      cases ended

theorem retryConcluded {stopped : Bool} {r q : RetryTask} (move : RetryMove stopped s e r f q) :
    q.Concluded := by
  cases move with
  | unopened | conclude => exact conclusion _ _ _ _ _
  | _ => intro ended; cases ended

end Consumer

namespace Client

structure Flushing (c : Client) (k : Consumer) : Prop where
  held : ∀ (n : Nat) (r : Consumer.RetryTask), k.retries[n]? = some r → r.phase.finished = false →
    n ∈ k.unreaped ∨ ∃ x ∈ c.calls, n ∈ x.awaits
  concluded : ∀ r ∈ k.retries, r.Concluded

def Flushes (c : Client) : Prop := ∀ k, c.role = .consumer k → c.Flushing k

variable {β : Type} [Broker β] {e f : Env β} {c d : Client} {k l : Consumer}

theorem awaitsSet {calls : List Call} {i n : Nat} {x y : Call} (here : calls[i]? = some x)
    (awaited : ∃ z ∈ calls, n ∈ z.awaits) (kept : n ∈ x.awaits → n ∈ y.awaits) :
    ∃ z ∈ calls.set i y, n ∈ z.awaits := by
  obtain ⟨z, mem, waits⟩ := awaited
  obtain ⟨j, inside, same⟩ := List.getElem_of_mem mem
  have inside' : i < calls.length := (List.getElem?_eq_some_iff.mp here).1
  by_cases at_ : j = i
  · subst at_
    have same : x = z := (List.getElem?_eq_some_iff.mp here).2.symm.trans same
    exact ⟨y, List.mem_set inside' y, kept (same ▸ waits)⟩
  · refine ⟨z, ?_, waits⟩
    subst same
    exact List.mem_of_getElem? (i := j)
      ((List.getElem?_set_ne (Ne.symm at_)).trans (List.getElem?_eq_getElem inside))

theorem flushingFrame (flushing : c.Flushing k) (retries : l.retries = k.retries)
    (unreaped : l.unreaped = k.unreaped) (calls : ∀ n, (∃ x ∈ c.calls, n ∈ x.awaits) →
      ∃ x ∈ d.calls, n ∈ x.awaits) : d.Flushing l := by
  refine ⟨?_, retries ▸ flushing.concluded⟩
  intro n r found unfinished
  rw [retries] at found
  rw [unreaped]
  exact (flushing.held n r found unfinished).imp_right (calls n)

theorem flushingWorker {i : Nat} {x : Consumer.Worker} (flushing : c.Flushing k)
    (move : k.WorkerMove i e x f l) : { c with role := .consumer l }.Flushing l := by
  -- the next failure drops ended tasks from the list and puts its own there
  obtain ⟨-, y, -, -, ⟨-, retries, unreaped⟩ | ⟨-, -, copy, ends, -, retries, unreaped⟩⟩ :=
    Consumer.workerEffect move
  · exact flushingFrame flushing retries unreaped fun n => id
  · refine ⟨?_, ?_⟩
    · intro n r found unfinished
      rw [retries, List.getElem?_append] at found
      rw [unreaped]
      split at found
      · rename_i inside
        refine (flushing.held n r found unfinished).imp_left fun mem => ?_
        refine List.mem_append_left _ (List.mem_filter.mpr ⟨mem, ?_⟩)
        unfold Consumer.retryFinished
        rw [found]
        simpa using unfinished
      · rename_i beyond
        have inside := (List.getElem?_eq_some_iff.mp found).1
        simp only [List.length_singleton] at inside
        exact .inl (List.mem_append_right _ (List.mem_singleton.mpr (by omega)))
    · rw [retries]
      intro r mem
      rcases List.mem_append.mp mem with old | new
      · exact flushing.concluded r old
      · cases List.mem_singleton.mp new
        intro ended
        cases ended

theorem flushingRetry {i : Nat} {r q : Consumer.RetryTask} {s : Supervisor}
    (flushing : c.Flushing k) (found : k.retries[i]? = some r)
    (move : Consumer.RetryMove k.stopped s e r f q) :
    let l := { k with retries := k.retries.set i q }
    { c with role := .consumer l }.Flushing l := by
  refine ⟨?_, ?_⟩
  · intro n p there unfinished
    by_cases here : n = i
    · subst here
      exact flushing.held n r found (Consumer.retryUnfinished move)
    · exact flushing.held n p ((List.getElem?_set_ne (Ne.symm here)).symm.trans there) unfinished
  · intro p mem
    rcases List.mem_or_eq_of_mem_set mem with old | rfl
    · exact flushing.concluded p old
    · exact Consumer.retryConcluded move

theorem flushingClose {i : Nat} {x y : Consumer.ConsumerClosing} {t : Supervisor}
    (flushing : c.Flushing k) (here : c.calls[i]? = some (.closeConsumer x))
    (move : k.CloseMove i e c.supervisor x f t l y) :
    ({ c with supervisor := t, role := .consumer l }.setCall i (.closeConsumer y)).Flushing l := by
  have frame (retries : l.retries = k.retries) (unreaped : l.unreaped = k.unreaped)
      (idle : (Call.closeConsumer x).awaits = []) :
      ({ c with supervisor := t, role := .consumer l }.setCall i (.closeConsumer y)).Flushing l :=
    flushingFrame flushing retries unreaped fun n awaited =>
      awaitsSet here awaited fun mem => by rw [idle] at mem; cases mem
  cases move with
  | lock | clear | unlock | raise | raised | grace | closing => exact frame rfl rfl rfl
  | collect =>
    have inside : i < c.calls.length := (List.getElem?_eq_some_iff.mp here).1
    -- from now on this call waits for all that were listed
    refine ⟨?_, flushing.concluded⟩
    intro n r found unfinished
    refine .inr ?_
    rcases flushing.held n r found unfinished with mem | awaited
    · exact ⟨_, List.mem_set inside _, mem⟩
    · exact awaitsSet here awaited fun mem => by cases mem
  | joined finished =>
    refine ⟨?_, flushing.concluded⟩
    intro n r found unfinished
    refine (flushing.held n r found unfinished).imp_right fun awaited => ?_
    refine awaitsSet here awaited fun mem => ?_
    have ended := List.all_eq_true.mp finished n mem
    unfold Consumer.retryFinished at ended
    rw [found] at ended
    exact absurd ended (by simp [unfinished])

theorem flushesMove (flushes : c.Flushes) (move : Move e c f d) : d.Flushes := by
  cases move with
  | recovery | watcher =>
    exact fun k role => flushingFrame (flushes k role) rfl rfl fun n => id
  | loop role made =>
    rintro _ ⟨⟩
    obtain ⟨j, -, move⟩ := Consumer.loopMove made
    have frame := Consumer.loopFrame move
    exact flushingFrame (flushes _ role) frame.retries frame.unreaped fun n => id
  | worker role made =>
    rintro _ ⟨⟩
    obtain ⟨x, -, move⟩ := Consumer.workerMove made
    exact flushingWorker (flushes _ role) move
  | retry role made =>
    rintro _ ⟨⟩
    obtain ⟨r, q, found, move, rfl⟩ := Consumer.retryStepSource made
    exact flushingRetry (flushes _ role) found move
  | publish here =>
    exact fun k role => flushingFrame (flushes k role) rfl rfl fun n awaited =>
      awaitsSet here awaited fun mem => by cases mem
  | close here =>
    exact fun k role => flushingFrame (flushes k role) rfl rfl fun n awaited =>
      awaitsSet here awaited fun mem => by cases mem
  | start role here made =>
    rintro _ ⟨⟩
    obtain ⟨-, -, retries, unreaped, -⟩ := Consumer.startFrame made
    exact flushingFrame (flushes _ role) retries unreaped fun n awaited =>
      awaitsSet here awaited fun mem => by cases mem
  | closeConsumer role here made =>
    rintro _ ⟨⟩
    exact flushingClose (flushes _ role) here (Consumer.closeMove made)

theorem flushesChange (flushes : c.Flushes) (change : Change e c f d) : d.Flushes := by
  cases change with
  | same => exact flushes
  | step made => exact flushesMove flushes (clientMove made)
  | call =>
    refine fun k role => flushingFrame (flushes k role) rfl rfl fun n awaited => ?_
    obtain ⟨x, mem, waits⟩ := awaited
    exact ⟨x, List.mem_append_left _ mem, waits⟩
  | letGo => exact fun k role => flushingFrame (flushes k role) rfl rfl fun n => id

end Client

namespace World

variable {β : Type} [Broker β] {outside : β → β → Prop} {w v : World β}

theorem reachableFlushes (reached : Reachable outside w) {i : Nat} {c : Client}
    (found : w.clients[i]? = some c) : c.Flushes := by
  refine reachableClient (P := fun _ c => c.Flushes) ?_ ?_ reached found
  · intro e o l connectionSignal channelSignal k role
    cases o with
    | mk client plan phase =>
      cases plan with
      | consumer t p options h =>
        cases role
        exact ⟨fun n r found => (by cases found), fun r mem => (by cases mem)⟩
      | _ => cases role
  · intro e c f d change flushes
    exact Client.flushesChange flushes change

theorem closeStepJoined {i j : Nat} {c : Client} {k : Consumer} {tasks : List Nat}
    {preferStop : Bool} (found : w.clients[i]? = some c) (role : c.role = .consumer k)
    (waiting : c.calls[j]? = some (.closeConsumer (.joining tasks)))
    (goes : w.step (.client i (.call j)) preferStop = some v) :
    ∃ d, v.clients[i]? = some d ∧ d.role = .consumer k ∧
      d.calls = c.calls.set j (.closeConsumer (.closing .raising)) := by
  obtain ⟨b, e, d, same, made, rfl⟩ := clientStepSource goes
  cases Option.some.inj (found.symm.trans same)
  have inside : i < w.clients.length := (List.getElem?_eq_some_iff.mp found).1
  refine ⟨d, List.getElem?_set_self inside, ?_⟩
  change c.callStep j w.env = some (e, d) at made
  unfold Client.callStep at made
  rw [waiting, role] at made
  obtain ⟨⟨f, t, l, y⟩, stepped, eq⟩ := Option.map_eq_some_iff.mp made
  cases eq
  cases Consumer.closeMove stepped
  exact ⟨rfl, rfl⟩

/-- When a call that closes the consumer goes on to close the supervisor, all copies of acknowledged
messages have been flushed exactly if none is unfinished of those scheduled since the tasks were
last taken and of those that another call has taken. -/
theorem flushedAtClose (reached : Reachable outside w) {i j : Nat} {c : Client} {k : Consumer}
    {tasks : List Nat} {preferStop : Bool} (found : w.clients[i]? = some c)
    (role : c.role = .consumer k) (waiting : c.calls[j]? = some (.closeConsumer (.joining tasks)))
    (goes : w.step (.client i (.call j)) preferStop = some v) :
    ∃ d, v.clients[i]? = some d ∧ d.role = .consumer k ∧
      d.calls = c.calls.set j (.closeConsumer (.closing .raising)) ∧
      (k.Flushed ↔ ∀ (n : Nat) (r : Consumer.RetryTask), k.retries[n]? = some r →
        (n ∈ k.unreaped ∨ ∃ x ∈ d.calls, n ∈ x.awaits) → k.soleHolder r = false) ∧
      ∀ r ∈ k.retries, r.Concluded := by
  obtain ⟨d, here, same, calls⟩ := closeStepJoined found role waiting goes
  have flushing : d.Flushing k :=
    reachableFlushes (reachableNext reached (.act ⟨_, _, goes⟩)) here k same
  refine ⟨d, here, same, calls, ⟨?_, ?_⟩, flushing.concluded⟩
  · intro flushed n r there _
    exact flushed r (List.mem_of_getElem? there)
  · intro others r mem
    obtain ⟨n, there⟩ := List.mem_iff_getElem?.mp mem
    cases ended : r.phase.finished with
    | true => unfold Consumer.soleHolder; rw [ended]; rfl
    | false => exact others n r there (flushing.held n r there ended)

def pairMade : World Broker.Memory :=
  let t := ((Topology.new "orders").withQueue "orders").underKey "order"
  let handler : Handler := fun _ d => ⟨if d.body = [] then 0 else 1000, .error "rejected"⟩
  let start : World Broker.Memory := { env := { broker := {}, wallClock := fun _ => 0 } }
  (start.make "reader" (.consumer t {} { maxInFlight := 2 } handler)).settle

def pair : World Broker.Memory := (pairMade.call 0 (.start .locking)).settle

def pairDelivered (bodies : List Bytes) : World Broker.Memory :=
  let b := bodies.foldl (fun b body => b.deliver "orders" "order" body []) pair.env.broker
  { pair with env := pair.env.withBroker { b with stalled := true } }.settle

def lateFailure : World Broker.Memory :=
  let closing := ((pairDelivered [[], [0]]).call 0 (.closeConsumer .locking)).settle
  let later := ((closing.advance 100).settle.advance 1000).settle.advance 5000
  (drive (.client 0 (.retry 0)) 1 false later).2

def closedTwice : World Broker.Memory :=
  let first := (pairDelivered [[]]).call 0 (.closeConsumer .locking)
  let second := (first.call 0 (.closeConsumer .locking)).settle
  (drive (.client 0 (.call 1)) 2 false (second.advance 100)).2

theorem pairDeliveredReached (bodies : List Bytes) :
    Reachable (fun _ _ => True) (pairDelivered bodies) := by
  have made : Reachable (fun _ _ => True) pairMade := reachableMade ⟨rfl, rfl, rfl⟩ _ _
  have started : Reachable (fun _ _ => True) pair :=
    reachableSettled (reachableCall made (by decide +kernel) fun _ => trivial)
  exact reachableSettled (reachableBroker started trivial)

def cutsOff (j : Nat) (c : Client) : Bool :=
  match c.role, c.calls[j]? with
  | .consumer k, some (.closeConsumer (.joining tasks)) =>
    tasks.all k.retryFinished && k.retries.any k.soleHolder
  | _, _ => false

theorem cutOffStep {j : Nat} (seen : (w.clients[0]?.any (cutsOff j)) = true) :
    ∃ c k tasks v, w.clients[0]? = some c ∧ c.role = .consumer k ∧
      c.calls[j]? = some (.closeConsumer (.joining tasks)) ∧
      w.step (.client 0 (.call j)) false = some v ∧ ¬ k.Flushed := by
  obtain ⟨c, found, seen⟩ := (Option.any_eq_true _ _).mp seen
  unfold cutsOff at seen
  split at seen
  · rename_i k tasks role waiting
    obtain ⟨finished, sole⟩ := Bool.and_eq_true_iff.mp seen
    obtain ⟨r, mem, sole⟩ := List.any_eq_true.mp sole
    have made : (c.callStep j w.env).isSome = true := by
      simp only [Client.callStep, waiting, role, Consumer.closeStep, finished, if_true]
      rfl
    obtain ⟨⟨e, d⟩, made⟩ := Option.isSome_iff_exists.mp made
    have goes : (w.step (.client 0 (.call j)) false).isSome = true := by
      simp only [World.step, World.clientStep, found, Client.step, made]
      rfl
    obtain ⟨v, goes⟩ := Option.isSome_iff_exists.mp goes
    refine ⟨c, k, tasks, v, found, role, waiting, goes, fun flushed => ?_⟩
    rw [flushed r mem] at sole
    cases sole
  · cases seen

theorem lateFailureReached : Reachable (fun _ _ => True) lateFailure := by
  have called := reachableSettled (reachableCall (x := .closeConsumer .locking)
    (pairDeliveredReached [[], [0]]) (i := 0) (by decide +kernel) fun _ => trivial)
  have grace := reachableSettled (reachableTime called (t := 100) (by decide +kernel))
  have failed := reachableSettled (reachableTime grace (t := 1000) (by decide +kernel))
  have late := reachableTime failed (t := 5000) (by decide +kernel)
  exact reachableRun late ((driveActs _ _ _ _).map fun _ _ made => .act made)

/-- The copy of a failure during the close is cut off, though its original is acknowledged. -/
theorem lateCopyCutOff : ∃ (v : World Broker.Memory) (d : Client) (k : Consumer),
    Reachable (fun _ _ => True) v ∧ v.clients[0]? = some d ∧ d.role = .consumer k ∧
      d.calls[1]? = some (.closeConsumer (.closing .raising)) ∧ ¬ k.Flushed := by
  obtain ⟨c, k, tasks, v, found, role, waiting, goes, cut⟩ :=
    cutOffStep (w := lateFailure) (j := 1) (by decide +kernel)
  obtain ⟨d, here, same, calls, -⟩ := flushedAtClose lateFailureReached found role waiting goes
  refine ⟨v, d, k, reachableNext lateFailureReached (.act ⟨_, _, goes⟩), here, same, ?_, cut⟩
  rw [calls, List.getElem?_set_self (List.getElem?_eq_some_iff.mp waiting).1]

/-- The copy that a second call waits for is cut off by the first. -/
theorem takenCopyCutOff : ∃ (v : World Broker.Memory) (d : Client) (k : Consumer),
    Reachable (fun _ _ => True) v ∧ v.clients[0]? = some d ∧ d.role = .consumer k ∧
      d.calls[1]? = some (.closeConsumer (.closing .raising)) ∧ ¬ k.Flushed := by
  have first := reachableCall (x := .closeConsumer .locking) (pairDeliveredReached [[]])
    (i := 0) (by decide +kernel) fun _ => trivial
  have second := reachableSettled (reachableCall (x := .closeConsumer .locking) first
    (i := 0) (by decide +kernel) fun _ => trivial)
  have reached : Reachable (fun _ _ => True) closedTwice :=
    reachableRun (reachableTime second (t := 100) (by decide +kernel))
      ((driveActs _ _ _ _).map fun _ _ made => .act made)
  obtain ⟨c, k, tasks, v, found, role, waiting, goes, cut⟩ :=
    cutOffStep (w := closedTwice) (j := 1) (by decide +kernel)
  obtain ⟨d, here, same, calls⟩ := closeStepJoined found role waiting goes
  refine ⟨v, d, k, reachableNext reached (.act ⟨_, _, goes⟩), here, same, ?_, cut⟩
  rw [calls, List.getElem?_set_self (List.getElem?_eq_some_iff.mp waiting).1]

end World

end AmqpClient
