import AmqpClient.Proofs.Broker.Feed
import AmqpClient.Proofs.Consumer.Fate
import AmqpClient.Proofs.Consumer.Moves
/-! A consumer at work on the messages of its queue, while nothing goes wrong. What was done with
the messages and what is to come of those in its hands is together what is to become of all. -/
namespace AmqpClient

open Broker (Memory Store)

def Delivery.attempts (d : Delivery) : Nat := (Retry.count d.headers).toNat

def Envelope.attempts (m : Envelope) : Nat := (Retry.count m.headers).toNat

namespace Desk

variable (x : Desk)

def binding : Binding := ⟨x.queue, x.exchange, x.key⟩

def event? (ds : List Delivery) (a : Entry) : Option Event :=
  match a.fact with
  | .handling d => some ⟨.handled, a.time, d.body, d.attempts⟩
  | .published c exchange key m r =>
    if c = x.channel then some ⟨.copied exchange key r.accepted, a.time, m.body, m.attempts⟩
    else none
  | .settled _ tag s o =>
    (ds.find? fun d => d.tag == tag).map fun d =>
      ⟨.settled s o.isOk, a.time, d.body, d.attempts⟩
  | _ => none

def events (ds : List Delivery) (journal : List Entry) : List Event :=
  journal.filterMap (x.event? ds)

def posted? (a : Entry) : Option Posted :=
  match a.fact with
  | .published c exchange key m r =>
    if c ≠ x.channel ∧ exchange = x.exchange ∧ key = x.key ∧ r.accepted = true then
      some ⟨a.time, m.body, m.headers⟩
    else none
  | _ => none

def posted (journal : List Entry) : List Posted := journal.filterMap x.posted?

/-- The counter never runs over, and the timer lasts as long as the longest wait. -/
structure Exact : Prop where
  counted : x.policy.maxRetries.toNat < Nat.pow 2 31
  timed : ∀ n, n < x.policy.maxRetries.toNat → x.wait n ≤ Instant.longestSleep

end Desk

namespace Consumer

variable (x : Desk) (now : Instant)

def Worker.Steady (y : Worker) : Prop :=
  match y.phase with
  | .handling ends result => ends = now ∧ y.delivery.attempts < x.policy.maxRetries.toNat ∧
      result = x.outcome y.delivery.body (Retry.count y.delivery.headers)
  | .scheduling failure => y.delivery.attempts < x.policy.maxRetries.toNat ∧
      x.outcome y.delivery.body (Retry.count y.delivery.headers) = .error failure
  | _ => True

def Worker.future (y : Worker) : List Event :=
  let b := y.delivery.body
  let n := y.delivery.attempts
  match y.phase with
  | .starting => x.due now b n
  | .handling .. => ⟨.settled .ack true, now, b, n⟩ :: x.sequel now b n
  | .scheduling _ => ⟨.settled .ack true, now, b, n⟩ :: x.sequel now b n
  | .settling s _ => [⟨.settled s true, now, b, n⟩]
  | _ => []

def RetryTask.Steady (r : RetryTask) : Prop :=
  match r.phase with
  | .waiting ends => now ≤ ends
  | .sending _ c => c = x.channel
  | .confirming _ c => ∃ t, t ≤ now ∧ c.answered = some (t, .ok ())
  | .pausing _ => False
  | _ => True

def RetryTask.again (t : Instant) (r : RetryTask) : List Event :=
  ⟨.copied x.exchange x.key true, t, r.envelope.body, r.envelope.attempts⟩ ::
    x.due t r.envelope.body r.envelope.attempts

def RetryTask.future (r : RetryTask) : List Event :=
  match r.phase with
  | .waiting ends => r.again x ends
  | .sampling => r.again x now
  | .opening _ => r.again x now
  | .sending .. => r.again x now
  | _ => []

def Loop.Steady (announced : Nat) (l : Loop) : Prop :=
  match l.phase with
  | .checking => True
  | .marking => True
  | .opening => l.seen = announced
  | .prefetching c => c = x.channel ∧ l.seen = announced
  | .subscribing c => c = x.channel ∧ l.seen = announced
  | .reading c i => (c = x.channel ∧ i = x.stream) ∧ l.seen = announced
  | .admitting c i _ => (c = x.channel ∧ i = x.stream) ∧ l.seen = announced
  | _ => False

def Loop.subscribed (l : Loop) : Bool :=
  match l.phase with
  | .reading .. => true
  | .admitting .. => true
  | _ => false

def Loop.hand (l : Loop) : List Delivery :=
  match l.phase with
  | .admitting _ _ d => [d]
  | _ => []

def hand (k : Consumer) : List Delivery := k.loops.flatMap Loop.hand

def subscribed (k : Consumer) : Bool := k.loops.any Loop.subscribed

def received (k : Consumer) : List Delivery := k.workers.map Worker.delivery

structure Serving (announced : Nat) (k : Consumer) : Prop where
  policy : k.retry = x.policy
  handler : ∀ seen d, k.handler seen d = ⟨0, x.outcome d.body (Retry.count d.headers)⟩
  running : k.stopped = false
  loop : ∃ l, k.loops = [l] ∧ l.Steady x announced
  permitted : 0 < k.permits + k.workers.countP fun y => !y.phase.finished
  workers : ∀ y ∈ k.workers, y.Steady x now
  retries : ∀ r ∈ k.retries, r.Steady x now

def pending (unread : List Delivery) (k : Consumer) (a : Event) : Nat :=
  total (fun d => (x.due now d.body d.attempts).count a) (k.hand ++ unread) +
    total (fun y => (y.future x now).count a) k.workers +
    total (fun r => (r.future x now).count a) k.retries

def tags (unread : List Delivery) (k : Consumer) : List Nat :=
  (k.received ++ (k.hand ++ unread)).map Delivery.tag

end Consumer

structure Desk.Books (x : Desk) (e : Env Memory) (since : List Entry) (unread : List Delivery)
    (k : Consumer) : Prop where
  feeds : e.broker.store.Feeds x.channel x.stream x.binding k.subscribed unread
  accepting : e.broker.failing = false ∧ e.broker.stalled = false
  distinct : (k.tags unread).Nodup
  numbered : ∀ n ∈ k.tags unread, n ≤ e.broker.store.lastTag
  settled : ∀ a ∈ since, ∀ c tag s o, a.fact = .settled c tag s o → ∃ d ∈ k.received, d.tag = tag
  past : ∀ a ∈ since, a.time ≤ e.now
  balance : ∀ a, (x.events k.received since).count a + k.pending x e.now unread a =
    total (fun p => (x.fate p).count a) (x.posted since)

namespace Desk

variable {x : Desk} {e f : Env Memory} {since new : List Entry} {unread left : List Delivery}
  {k l : Consumer}

theorem eventMore {ds more : List Delivery} {a : Entry}
    (settled : ∀ c tag s o, a.fact = .settled c tag s o → ∃ d ∈ ds, d.tag = tag) :
    x.event? (ds ++ more) a = x.event? ds a := by
  unfold event?
  split
  · rfl
  · rfl
  · rename_i c tag s o fact
    obtain ⟨d, there, same⟩ := settled c tag s o fact
    have found : (ds.find? fun d => d.tag == tag).isSome = true :=
      List.find?_isSome.mpr ⟨d, there, beq_iff_eq.mpr same⟩
    rw [List.find?_append, Option.or_of_isSome found]
  · rfl

theorem eventsMore {ds more : List Delivery}
    (settled : ∀ a ∈ since, ∀ c tag s o, a.fact = .settled c tag s o → ∃ d ∈ ds, d.tag = tag) :
    x.events (ds ++ more) since = x.events ds since := by
  unfold events
  induction since with
  | nil => rfl
  | cons a rest ih =>
    have rest := ih fun b mem => settled b (List.mem_cons_of_mem a mem)
    rw [List.filterMap_cons, List.filterMap_cons, eventMore (settled a List.mem_cons_self), rest]

theorem booksStep (books : x.Books e since unread k) (now : f.now = e.now)
    (feeds : f.broker.store.Feeds x.channel x.stream x.binding l.subscribed left)
    (accepting : f.broker.failing = false ∧ f.broker.stalled = false)
    (distinct : (l.tags left).Nodup) (numbered : ∀ n ∈ l.tags left, n ≤ f.broker.store.lastTag)
    (more : ∃ ds, l.received = k.received ++ ds)
    (settled : ∀ a ∈ new, ∀ c tag s o, a.fact = .settled c tag s o → ∃ d ∈ l.received, d.tag = tag)
    (timely : ∀ a ∈ new, a.time = e.now)
    (delta : ∀ a, (x.events l.received new).count a + l.pending x e.now left a =
      k.pending x e.now unread a + total (fun p => (x.fate p).count a) (x.posted new)) :
    x.Books f (new ++ since) left l := by
  obtain ⟨ds, grown⟩ := more
  refine ⟨feeds, accepting, distinct, numbered, ?_, ?_, ?_⟩
  · intro a mem c tag s o fact
    rcases List.mem_append.mp mem with mem | mem
    · exact settled a mem c tag s o fact
    · obtain ⟨d, there, same⟩ := books.settled a mem c tag s o fact
      exact ⟨d, by rw [grown]; exact List.mem_append_left _ there, same⟩
  · intro a mem
    rw [now]
    rcases List.mem_append.mp mem with mem | mem
    · exact Nat.le_of_eq (timely a mem)
    · exact books.past a mem
  · intro a
    have before := books.balance a
    have step := delta a
    have same : x.events l.received since = x.events k.received since := by
      rw [grown]
      exact eventsMore books.settled
    have both : x.events l.received (new ++ since) =
        x.events l.received new ++ x.events k.received since := by
      rw [← same]
      exact List.filterMap_append
    have all : x.posted (new ++ since) = x.posted new ++ x.posted since := List.filterMap_append
    rw [both, all, List.count_append, totalAppend, now]
    omega

theorem booksIdle (books : x.Books e since unread k) (now : f.now = e.now)
    (feeds : f.broker.store.Feeds x.channel x.stream x.binding l.subscribed left)
    (accepting : f.broker.failing = false ∧ f.broker.stalled = false)
    (distinct : (l.tags left).Nodup) (numbered : ∀ n ∈ l.tags left, n ≤ f.broker.store.lastTag)
    (more : ∃ ds, l.received = k.received ++ ds)
    (same : ∀ a, l.pending x e.now left a = k.pending x e.now unread a) : x.Books f since left l := by
  have none : ∀ a ∈ ([] : List Entry), False := fun a mem => by cases mem
  refine booksStep books now feeds accepting distinct numbered more
    (fun a mem => (none a mem).elim) (fun a mem => (none a mem).elim) fun a => ?_
  have step := same a
  simp only [events, posted, List.filterMap_nil, List.count_nil, total]
  omega

end Desk

end AmqpClient
