import AmqpClient.Proofs.Consumer.Copies
/-! A consumer that can make no step has nothing left in its hands but copies that wait, and time
passes over it. -/
namespace AmqpClient

open Broker (Memory Store)
open Consumer

variable {x : Desk} {e : Env Memory} {since : List Entry} {unread : List Delivery} {k : Consumer}
  {s : Supervisor} {now t : Instant} {announced : Nat}

namespace Consumer

def RetryTask.Idle (now : Instant) (r : RetryTask) : Prop :=
  match r.phase with
  | .waiting ends => now < ends
  | .done _ => True
  | _ => False

structure Resting (now : Instant) (unread : List Delivery) (k : Consumer) : Prop where
  unread : unread = []
  hand : k.hand = []
  workers : ∀ y ∈ k.workers, y.phase.finished = true
  retries : ∀ r ∈ k.retries, r.Idle now

theorem workerStopped {i : Nat} {y : Worker} (serving : k.Serving x e.now announced)
    (found : k.workers[i]? = some y) (stuck : k.workerStep i e = none) :
    y.phase.finished = true := by
  have steady := serving.workers y (List.mem_of_getElem? found)
  unfold Worker.Steady at steady
  unfold workerStep at stuck
  rw [found] at stuck
  dsimp only at stuck
  cases here : y.phase with
  | starting =>
    rw [here] at stuck
    dsimp only at stuck
    split at stuck <;> cases stuck
  | handling ends result =>
    simp only [here] at steady stuck
    rw [if_neg (Nat.not_lt.mpr (Nat.le_of_eq steady.1))] at stuck
    cases result <;> cases stuck
  | scheduling failure => rw [here] at stuck; cases stuck
  | settling s disposition => rw [here] at stuck; cases stuck
  | finishing disposition => rw [here] at stuck; cases stuck
  | done disposition => rfl

theorem retryStopped {i : Nat} {r : RetryTask} (serving : k.Serving x e.now announced)
    (found : k.retries[i]? = some r) (stuck : k.retryStep i s e = none) : r.Idle e.now := by
  have steady := serving.retries r (List.mem_of_getElem? found)
  unfold RetryTask.Steady at steady
  unfold retryStep at stuck
  rw [found] at stuck
  have stuck := Option.map_eq_none_iff.mp stuck
  unfold RetryTask.step at stuck
  unfold RetryTask.Idle
  cases here : r.phase with
  | waiting ends =>
    rw [here] at stuck
    dsimp only at stuck
    unfold RetryTask.wake at stuck
    split at stuck
    · cases stuck
    · rename_i early
      exact Nat.lt_of_not_le fun due => early (by rw [decide_eq_true due, Bool.true_or])
  | sampling => rw [here] at stuck; cases stuck
  | opening a =>
    rw [here] at stuck
    dsimp only at stuck
    split at stuck <;> cases stuck
  | sending a c => rw [here] at stuck; cases stuck
  | confirming a c =>
    simp only [here] at steady stuck
    obtain ⟨t, past, answered⟩ := steady
    unfold Confirmation.result? at stuck
    rw [answered] at stuck
    dsimp only at stuck
    rw [if_pos past] at stuck
    cases stuck
  | pausing ends => simp only [here] at steady
  | done confirmed => trivial

end Consumer

namespace Desk

theorem restingOf (books : x.Books e since unread k) (serving : k.Serving x e.now s.announced)
    (loop : ∀ i, k.loopStep i false s e = none) (worker : ∀ i, k.workerStep i e = none)
    (retry : ∀ i, k.retryStep i s e = none) : k.Resting e.now unread := by
  have workers : ∀ y ∈ k.workers, y.phase.finished = true := by
    intro y mem
    obtain ⟨i, found⟩ := List.getElem?_of_mem mem
    exact workerStopped serving found (worker i)
  have retries : ∀ r ∈ k.retries, r.Idle e.now := by
    intro r mem
    obtain ⟨i, found⟩ := List.getElem?_of_mem mem
    exact retryStopped serving found (retry i)
  obtain ⟨l, alone, steady⟩ := serving.loop
  have stuck := loop 0
  unfold loopStep at stuck
  rw [alone] at stuck
  dsimp only [List.getElem?_cons_zero] at stuck
  unfold Loop.Steady at steady
  cases here : l.phase with
  | reading c i =>
    simp only [here] at steady stuck
    obtain ⟨⟨rfl, rfl⟩, fresh⟩ := steady
    rw [if_neg (by rw [serving.running]; exact Bool.false_ne_true),
      if_neg (not_not_intro fresh)] at stuck
    refine ⟨?_, by rw [handOf alone, Loop.hand, here], workers, retries⟩
    have reads : k.subscribed = true := by rw [subscribedOf alone, Loop.subscribed, here]
    rcases polled books reads with ⟨empty, -⟩ | ⟨d, rest, t, -, -, -, answer⟩
    · exact empty
    · rw [answer] at stuck
      cases stuck
  | admitting c i d =>
    simp only [here] at stuck
    -- all workers have ended, so that a permit is back for what the loop holds
    have idle : k.workers.countP (fun y => !y.phase.finished) = 0 := by
      refine List.countP_eq_zero.mpr fun y mem => ?_
      rw [workers y mem]
      exact Bool.false_ne_true
    have permitted := serving.permitted
    rw [idle, Nat.add_zero] at permitted
    have free : (decide (0 < k.permits) && !(k.stopped && false)) = true := by
      rw [Bool.and_false, decide_eq_true permitted]
      rfl
    rw [if_pos free] at stuck
    cases stuck
  | checking => rw [here] at stuck; cases stuck
  | marking => rw [here] at stuck; cases stuck
  | opening =>
    simp only [here] at stuck
    split at stuck <;> cases stuck
  | prefetching c =>
    simp only [here] at stuck
    split at stuck <;> cases stuck
  | subscribing c =>
    simp only [here] at stuck
    split at stuck <;> cases stuck
  | _ => simp only [here] at steady

theorem futureWorker {y : Worker} (finished : y.phase.finished = true) : y.future x now = [] := by
  unfold WorkerPhase.finished at finished
  unfold Worker.future
  split at finished
  · rename_i here
    rw [here]
  · cases finished

theorem futureRetry {r : RetryTask} (idle : r.Idle now) : r.future x t = r.future x now := by
  unfold RetryTask.Idle at idle
  unfold RetryTask.future
  cases here : r.phase with
  | waiting ends => rfl
  | done confirmed => rfl
  | _ => simp only [here] at idle

theorem pendingResting (rest : k.Resting now unread) (a : Event) :
    k.pending x t unread a = total (fun r => (r.future x now).count a) k.retries := by
  have none : total (fun y => (y.future x t).count a) k.workers = 0 :=
    totalZero fun y mem => by rw [futureWorker (rest.workers y mem)]; rfl
  have same : total (fun r => (r.future x t).count a) k.retries =
      total (fun r => (r.future x now).count a) k.retries :=
    totalSame fun r mem => by rw [futureRetry (rest.retries r mem)]
  unfold Consumer.pending
  rw [rest.hand, rest.unread, none, same]
  simp only [List.append_nil, total, Nat.zero_add]

theorem booksLater (books : x.Books e since unread k) (rest : k.Resting e.now unread)
    (later : e.now ≤ t) : x.Books { e with now := t } since unread k where
  feeds := books.feeds
  accepting := books.accepting
  distinct := books.distinct
  numbered := books.numbered
  settled := books.settled
  past a mem := Nat.le_trans (books.past a mem) later
  balance a := by
    have balance := books.balance a
    rw [pendingResting rest] at balance ⊢
    exact balance

theorem servingLater (serving : k.Serving x now announced) (rest : k.Resting now unread)
    (timers : ∀ ends ∈ k.retries.filterMap RetryTask.timer?, now < ends → t ≤ ends) :
    k.Serving x t announced where
  policy := serving.policy
  handler := serving.handler
  running := serving.running
  loop := serving.loop
  permitted := serving.permitted
  workers y mem := by
    have finished := rest.workers y mem
    unfold WorkerPhase.finished at finished
    unfold Worker.Steady
    split at finished
    · rename_i here
      rw [here]
      trivial
    · cases finished
  retries r mem := by
    have idle := rest.retries r mem
    unfold RetryTask.Idle at idle
    unfold RetryTask.Steady
    cases here : r.phase with
    | waiting ends =>
      simp only [here] at idle
      refine timers ends (List.mem_filterMap.mpr ⟨r, mem, ?_⟩) idle
      unfold RetryTask.timer?
      rw [here]
    | done confirmed => trivial
    | _ => simp only [here] at idle

theorem dueCount {r : RetryTask} (idle : r.Idle now) {a : Event} (past : a.time ≤ now) :
    (r.future x now).count a = 0 := by
  refine List.count_eq_zero.mpr fun mem => ?_
  unfold RetryTask.Idle at idle
  unfold RetryTask.future at mem
  cases here : r.phase with
  | waiting ends =>
    simp only [here] at idle mem
    have later : ends ≤ a.time := by
      rcases List.mem_cons.mp mem with rfl | mem
      · exact Nat.le_refl ends
      · exact dueLater mem
    exact absurd (Nat.le_trans later past) (Nat.not_le.mpr idle)
  | done confirmed =>
    rw [here] at mem
    cases mem
  | _ => simp only [here] at idle

theorem eventPast (books : x.Books e since unread k) {a : Event}
    (mem : a ∈ x.events k.received since) : a.time ≤ e.now := by
  obtain ⟨b, there, made⟩ := List.mem_filterMap.mp mem
  have past := books.past b there
  unfold event? at made
  split at made
  · cases made
    exact past
  · split at made <;> cases made
    exact past
  · obtain ⟨d, -, rfl⟩ := Option.map_eq_some_iff.mp made
    exact past
  · cases made

theorem countFates (ps : List Posted) (a : Event) :
    (ps.flatMap x.fate).count a = total (fun p => (x.fate p).count a) ps := by
  induction ps with
  | nil => rfl
  | cons p ps ih => rw [List.flatMap_cons, List.count_append, ih, total]

theorem doneByNow (books : x.Books e since unread k) (rest : k.Resting e.now unread) :
    (x.events k.received since).Perm
      (((x.posted since).flatMap x.fate).filter fun a => a.time ≤ e.now) := by
  refine List.perm_iff_count.mpr fun a => ?_
  have balance := books.balance a
  rw [pendingResting rest, ← countFates] at balance
  by_cases past : a.time ≤ e.now
  -- what the waiting copies will do lies after now
  · have none : total (fun r => (r.future x e.now).count a) k.retries = 0 :=
      totalZero fun r mem => dueCount (rest.retries r mem) past
    rw [List.count_filter (p := fun a : Event => decide (a.time ≤ e.now)) (decide_eq_true past)]
    omega
  · have out : a ∉ x.events k.received since := fun mem => past (eventPast books mem)
    have away : a ∉ ((x.posted since).flatMap x.fate).filter fun a => a.time ≤ e.now :=
      fun mem => past (of_decide_eq_true (List.mem_filter.mp mem).2)
    rw [List.count_eq_zero.mpr out, List.count_eq_zero.mpr away]

theorem futureOver {r : RetryTask} (idle : r.Idle now) (elapsed : r.timer? = none) :
    r.future x now = [] := by
  unfold RetryTask.Idle at idle
  unfold RetryTask.timer? at elapsed
  unfold RetryTask.future
  cases here : r.phase with
  | waiting ends =>
    rw [here] at elapsed
    cases elapsed
  | done confirmed => rfl
  | _ => simp only [here] at idle

theorem allDone (books : x.Books e since unread k) (rest : k.Resting e.now unread)
    (elapsed : k.retries.filterMap RetryTask.timer? = []) :
    (x.events k.received since).Perm ((x.posted since).flatMap x.fate) := by
  refine List.perm_iff_count.mpr fun a => ?_
  have balance := books.balance a
  have none : total (fun r => (r.future x e.now).count a) k.retries = 0 :=
    totalZero fun r mem => by
      rw [futureOver (rest.retries r mem) (List.filterMap_eq_nil_iff.mp elapsed r mem)]
      rfl
  rw [pendingResting rest, none, ← countFates] at balance
  exact balance

end Desk

end AmqpClient
