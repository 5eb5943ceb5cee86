import AmqpClient.Proofs.Broker.Links
import AmqpClient.Proofs.Consumer.Copies
import AmqpClient.Proofs.Consumer.Locking
import AmqpClient.Proofs.Counts
import AmqpClient.Proofs.Journal
/-! A consumer that is told to stop while no delivery is in process, and whose channel is sound. Each
copy that waits is handed to the broker then and there, and taken; the loop goes home without
taking up anything. -/
namespace AmqpClient

open Broker (Memory Store)

namespace Consumer

def RetryPhase.unsent : RetryPhase → Bool
  | .confirming .. => false
  | .done _ => false
  | _ => true

def RetryPhase.rests : RetryPhase → Bool
  | .waiting _ => true
  | .pausing _ => true
  | _ => false

def RetryTask.due (r : RetryTask) : List Envelope := if r.phase.unsent then [r.envelope] else []

def unsent (k : Consumer) : List Envelope := k.retries.flatMap RetryTask.due

inductive RetryPhase.Hastens (now : Instant) (c : ChannelId) : RetryPhase → Prop where
  | waiting (ends) : Hastens now c (.waiting ends)
  | pausing (ends) : Hastens now c (.pausing ends)
  | sampling : Hastens now c .sampling
  | opening (a) : Hastens now c (.opening a)
  | sending (a) : Hastens now c (.sending a c)
  | confirming (a ends) : Hastens now c (.confirming a ⟨some (now, .ok ()), ends⟩)
  | done (confirmed) : Hastens now c (.done confirmed)

def LoopPhase.winds (permits : Nat) : LoopPhase → Bool
  | .marking => false
  | .opening => false
  | .prefetching _ => false
  | .subscribing _ => false
  | .admitting .. => permits == 0
  | _ => true

structure Hastened (told : Instant) (c : ChannelId) (k : Consumer) : Prop where
  stopped : k.stopped = true
  loops : ∀ l ∈ k.loops, l.phase.winds k.permits = true
  workers : ∀ x ∈ k.workers, x.phase.finished = true
  retries : ∀ r ∈ k.retries, r.phase.Hastens told c

section

variable {β : Type} [Broker β] {e f : Env β} {s : Supervisor} {k m : Consumer} {told : Instant}
  {c : ChannelId}

theorem hastenedLoop {i : Nat} {l : Loop} (hastened : k.Hastened told c)
    (found : k.loops[i]? = some l) (move : LoopMove i s e k l f m) :
    m.Hastened told c ∧ m.retries = k.retries ∧ f.journal = e.journal := by
  have winds := hastened.loops l (List.mem_of_getElem? found)
  have goes {p : LoopPhase} (on : p.winds k.permits = true) :
      ∀ y ∈ k.loops.set i (l.goto p), y.phase.winds k.permits = true :=
    allSet hastened.loops on
  have kept (loops : ∀ y ∈ m.loops, y.phase.winds m.permits = true) (frame : LoopFrame k m)
      (workers : m.workers = k.workers) : m.Hastened told c :=
    ⟨frame.stopped.trans hastened.stopped, loops, workers ▸ hastened.workers,
      frame.retries ▸ hastened.retries⟩
  have running (none : k.stopped = false) : False := by
    rw [hastened.stopped] at none
    cases none
  have frame := loopFrame move
  cases move with
  | check _ none | renew _ none | take _ none | broken _ none | ended _ none =>
    exact (running none).elim
  | mark here | opened here | closed here | unopened here | prefetched here | unprefetched here
  | subscribed here | unsubscribed here =>
    rw [here] at winds
    cases winds
  | grant here permitted =>
    rw [here] at winds
    exact absurd (beq_iff_eq.mp winds) (Nat.ne_of_gt permitted)
  | resume | wake =>
    refine ⟨kept (goes rfl) frame rfl, rfl, ?_⟩
    unfold dropStream?
    split <;> rfl
  | _ => exact ⟨kept (goes rfl) frame rfl, rfl, rfl⟩

theorem windsStuck {i : Nat} {l : Loop} (found : k.loops[i]? = some l) (free : k.lock = none)
    (stuck : k.loopStep i false s e = none) :
    l.phase.winds k.permits = true ∧ l.phase ≠ .locking := by
  simp only [loopStep, found] at stuck
  cases here : l.phase with
  | admitting c stream d =>
    refine ⟨beq_iff_eq.mpr (Nat.eq_zero_of_not_pos fun permitted => ?_), by simp⟩
    simp [here, permitted] at stuck
  | opening | prefetching | subscribing =>
    simp only [here] at stuck
    split at stuck <;> cases stuck
  | reading | pausing | done => exact ⟨rfl, by simp⟩
  | _ => simp [here, free] at stuck

theorem loopUnmoved {i : Nat} {preferStop : Bool} (loops : m.loops = k.loops)
    (stopped : m.stopped = k.stopped) (permits : m.permits = k.permits)
    (elsewhere : ∀ l ∈ k.loops, l.phase ≠ .locking)
    (stuck : k.loopStep i preferStop s e = none) : m.loopStep i preferStop s e = none := by
  unfold loopStep at stuck ⊢
  rw [loops]
  cases found : k.loops[i]? with
  | none => rfl
  | some l =>
    have elsewhere := elsewhere l (List.mem_of_getElem? found)
    rw [found] at stuck
    dsimp only at stuck ⊢
    cases here : l.phase with
    | locking => exact absurd here elsewhere
    | done => rfl
    | opening | prefetching | subscribing =>
      simp only [here] at stuck
      split at stuck <;> cases stuck
    | reading c stream =>
      simp only [here] at stuck ⊢
      rw [stopped]
      by_cases told : k.stopped = true
      · rw [if_pos told] at stuck; cases stuck
      rw [if_neg told] at stuck ⊢
      by_cases stale : l.seen ≠ s.announced
      · rw [if_pos stale] at stuck; cases stuck
      rw [if_neg stale] at stuck ⊢
      split at stuck <;> first | rfl | cases stuck
    | admitting c stream d =>
      simp only [here] at stuck ⊢
      rw [stopped, permits]
      by_cases granted : (0 < k.permits && !(k.stopped && preferStop)) = true
      · rw [if_pos granted] at stuck; cases stuck
      rw [if_neg granted] at stuck ⊢
      by_cases told : k.stopped = true
      · rw [if_pos told] at stuck; cases stuck
      exact if_neg told
    | pausing ends stream =>
      simp only [here] at stuck ⊢
      rw [stopped]
      by_cases due : (ends ≤ e.now && !(k.stopped && preferStop)) = true
      · rw [if_pos due] at stuck; cases stuck
      rw [if_neg due] at stuck ⊢
      by_cases told : k.stopped = true
      · rw [if_pos told] at stuck; cases stuck
      exact if_neg told
    | _ => rw [here] at stuck; cases stuck

end

section

variable {e f : Env Memory} {s : Supervisor} {k : Consumer} {told : Instant} {c : ChannelId}

theorem hastenedRetry {i : Nat} {r q : RetryTask} (hastened : k.Hastened told c)
    (now : e.now = told) (channel : s.channel? e.broker = .ok c)
    (isOpen : e.broker.store.channelOpen c = true)
    (accepting : e.broker.failing = false ∧ e.broker.stalled = false)
    (found : k.retries[i]? = some r) (move : RetryMove true s e r f q) :
    let m := { k with retries := k.retries.set i q }
    m.Hastened told c ∧ ((f.journal = e.journal ∧ m.unsent.Perm k.unsent) ∨
      (f.journal = ⟨told, .published c s.topology.exchangeName s.topology.routingKey r.envelope
        (.after 0 (.ok ()))⟩ :: e.journal ∧ (r.envelope :: m.unsent).Perm k.unsent)) := by
  intro m
  have hastens := hastened.retries r (List.mem_of_getElem? found)
  have kept (on : q.phase.Hastens told c) : m.Hastened told c :=
    ⟨hastened.stopped, hastened.loops, hastened.workers, allSet hastened.retries on⟩
  have swapped := flatMapSet (f := RetryTask.due) (y := q) found
  have idle (same : q.due = r.due) : m.unsent.Perm k.unsent := by
    rw [same] at swapped
    exact (List.perm_append_left_iff _).mp swapped
  cases move with
  | wake here =>
    refine ⟨kept .sampling, .inl ⟨rfl, idle ?_⟩⟩
    rcases here with here | here <;> simp only [RetryTask.due, here] <;> rfl
  | sample here =>
    refine ⟨kept (.opening _), .inl ⟨rfl, idle ?_⟩⟩
    simp only [RetryTask.due, here]
    rfl
  | unopened _ none => cases channel.symm.trans none
  | opened here current =>
    cases channel.symm.trans current
    refine ⟨kept (.sending _), .inl ⟨rfl, idle ?_⟩⟩
    simp only [RetryTask.due, here]
    rfl
  | @send a c' here =>
    rw [here] at hastens
    cases hastens
    have answer := (Desk.publishOpen s.topology.exchangeName s.topology.routingKey r.envelope isOpen
      accepting).1
    refine ⟨kept ?_, .inr ⟨?_, ?_⟩⟩
    · rw [answer, ← now]
      exact .confirming a _
    · rw [← answer, ← now]
      rfl
    · simp only [RetryTask.due, here, RetryPhase.unsent, if_true, List.singleton_append,
        Bool.false_eq_true, if_false, List.nil_append] at swapped
      exact swapped
  | @conclude a x o here answer =>
    rw [here] at hastens
    cases hastens
    unfold Confirmation.result? at answer
    dsimp only at answer
    rw [if_pos (Nat.le_of_eq now.symm)] at answer
    cases answer
    refine ⟨kept (.done true), .inl ⟨rfl, idle ?_⟩⟩
    simp only [RetryTask.due, here]
    rfl

theorem hastenedStuck {i : Nat} {r : RetryTask} (hastened : k.Hastened told c) (now : e.now = told)
    (found : k.retries[i]? = some r) (stuck : k.retryStep i s e = none) :
    r.phase.finished = true := by
  have hastens := hastened.retries r (List.mem_of_getElem? found)
  unfold retryStep at stuck
  rw [found] at stuck
  have stuck := Option.map_eq_none_iff.mp stuck
  have wakes (ends : Instant) : r.wake k.stopped ends e ≠ none := by
    unfold RetryTask.wake
    rw [hastened.stopped, Bool.or_true, if_pos rfl]
    exact Option.some_ne_none _
  unfold RetryTask.step at stuck
  cases here : r.phase with
  | waiting ends | pausing ends =>
    rw [here] at stuck
    exact absurd stuck (wakes ends)
  | opening a =>
    rw [here] at stuck
    dsimp only at stuck
    split at stuck <;> cases stuck
  | sampling | sending => rw [here] at stuck; cases stuck
  | confirming a x =>
    rw [here] at hastens stuck
    cases hastens
    dsimp only at stuck
    unfold Confirmation.result? at stuck
    dsimp only at stuck
    rw [if_pos (Nat.le_of_eq now.symm)] at stuck
    cases stuck
  | done confirmed => rfl

end

end Consumer

end AmqpClient
