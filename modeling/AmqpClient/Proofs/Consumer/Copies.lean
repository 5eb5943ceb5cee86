import AmqpClient.Proofs.Consumer.Balance
/-! What is published comes in again, whether it is a copy of the consumer or from someone else. -/
namespace AmqpClient

open Broker (Memory Store)
open Consumer

namespace Desk

variable {x : Desk} {e f : Env Memory} {since : List Entry} {unread left : List Delivery}
  {k l : Consumer} {announced i : Nat} {now : Instant}
  {c : ChannelId} {exchange key : String} {m : Envelope}

def Enters (x : Desk) (exchange key : String) (r : Reply) : Prop :=
  r.accepted = true ∧ exchange = x.exchange ∧ key = x.key

instance (exchange key : String) (r : Reply) : Decidable (x.Enters exchange key r) :=
  inferInstanceAs (Decidable (_ ∧ _))

theorem newestListed {s : Store} (here : s.channelOpen c = true) :
    c ∈ Memory.newestFirst s := by
  unfold Store.channelOpen Store.isOpen at here
  refine List.mem_reverse.mpr (List.mem_range.mpr ?_)
  refine Nat.lt_of_not_le fun beyond => ?_
  rw [List.getElem?_eq_none beyond] at here
  cases here

theorem publishClosed (exchange key : String) (m : Envelope)
    (gone : e.broker.store.channelOpen c = false) :
    (e.publish c exchange key m).2 = .after 0 (.error (.publish "channel closed")) ∧
      (e.publish c exchange key m).1.broker = e.broker := by
  have answer : Broker.publish c exchange key m e.broker =
      (e.broker, .after 0 (.error (.publish "channel closed"))) := by
    dsimp only [Broker.publish]
    unfold Memory.publish
    rw [gone]
    rfl
  unfold Env.publish
  rw [answer]
  exact ⟨rfl, rfl⟩

theorem publishOpen (exchange key : String) (m : Envelope)
    (here : e.broker.store.channelOpen c = true)
    (accepting : e.broker.failing = false ∧ e.broker.stalled = false) :
    (e.publish c exchange key m).2 = .after 0 (.ok ()) ∧
      (e.publish c exchange key m).1.broker = { e.broker with
        store := e.broker.store.route (Memory.newestFirst e.broker.store) exchange key m } := by
  have answer : Broker.publish c exchange key m e.broker = ({ e.broker with
      store := e.broker.store.route (Memory.newestFirst e.broker.store) exchange key m },
        .after 0 (.ok ())) := by
    dsimp only [Broker.publish]
    unfold Memory.publish
    rw [here, accepting.1, accepting.2]
    rfl
  unfold Env.publish
  rw [answer]
  exact ⟨rfl, rfl⟩

theorem publishFeeds (books : x.Books e since unread k) (c : ChannelId) (exchange key : String)
    (m : Envelope) : Store.Arrives x.channel x.stream x.binding k.subscribed
      (fun tag => Delivery.new tag exchange key m.body m.headers) unread
      (if x.Enters exchange key (e.publish c exchange key m).2 then 1 else 0)
      e.broker.store (e.publish c exchange key m).1.broker.store := by
  cases here : e.broker.store.channelOpen c with
  | true =>
    obtain ⟨answer, broker⟩ := publishOpen exchange key m here books.accepting
    have enters : x.Enters exchange key (.after 0 (.ok ())) ↔
        exchange = x.binding.exchange ∧ key = x.binding.routingKey :=
      ⟨fun all => all.2, fun both => ⟨rfl, both⟩⟩
    rw [answer, broker]
    simp only [enters]
    exact Store.routeArrives books.feeds (newestListed books.feeds.channel) exchange key m
  | false =>
    obtain ⟨answer, broker⟩ := publishClosed exchange key m here
    have out : ¬ x.Enters exchange key (.after 0 (.error (.publish "channel closed"))) :=
      fun all => Bool.noConfusion all.1
    rw [answer, broker, if_neg out]
    refine ⟨Nat.le_refl _, [], rfl, (fun n mem => by cases mem), ?_⟩
    rw [List.map_nil, List.append_nil]
    exact books.feeds

theorem publishAccepting (books : x.Books e since unread k) :
    (e.publish c exchange key m).1.broker.failing = false ∧
      (e.publish c exchange key m).1.broker.stalled = false := by
  cases here : e.broker.store.channelOpen c with
  | true =>
    rw [(publishOpen exchange key m here books.accepting).2]
    exact books.accepting
  | false =>
    rw [(publishClosed exchange key m here).2]
    exact books.accepting

theorem booksPublish (books : x.Books e since unread k)
    (broker : f.broker = (e.publish c exchange key m).1.broker) (now : f.now = e.now)
    (workers : l.workers = k.workers) (loops : l.loops = k.loops)
    (delta : ∀ a, let r := (e.publish c exchange key m).2
      let new := [⟨e.now, .published c exchange key m r⟩]
      (x.events k.received new).count a + total (fun r => (r.future x e.now).count a) l.retries +
          (if x.Enters exchange key r then (x.due e.now m.body m.attempts).count a else 0) =
        total (fun r => (r.future x e.now).count a) k.retries +
          total (fun p => (x.fate p).count a) (x.posted new)) :
    ∃ left, x.Books f
        ([⟨e.now, .published c exchange key m (e.publish c exchange key m).2⟩] ++ since) left l ∧
      x.backlog left ≤ x.backlog unread + x.load m.attempts + 12 := by
  have received : l.received = k.received := by
    unfold Consumer.received
    rw [workers]
  have hand := handSame loops
  obtain ⟨grown, tags, size, fresh, feeds⟩ := publishFeeds books c exchange key m
  let make := fun tag => Delivery.new tag exchange key m.body m.headers
  have all : l.tags (unread ++ tags.map make) = k.tags unread ++ tags := by
    have own : (tags.map make).map Delivery.tag = tags := by
      rw [List.map_map]
      exact List.map_id tags
    unfold Consumer.tags
    simp only [received, hand, List.map_append, own, List.append_assoc]
  have few : tags = [] ∨ ∃ n, tags = [n] := by
    split at size
    · exact .inr (List.length_eq_one_iff.mp size)
    · exact .inl (List.eq_nil_of_length_eq_zero size)
  refine ⟨unread ++ tags.map make, ?_, ?_⟩
  case refine_2 =>
    unfold backlog
    rw [totalAppend, totalMap]
    rcases few with rfl | ⟨n, rfl⟩
    · simp only [total]
      omega
    · have one : (make n).attempts = m.attempts := rfl
      simp only [total, one]
      omega
  refine booksStep books now (by rw [broker, subscribedSame loops]; exact feeds)
    (by rw [broker]; exact publishAccepting books) ?_ ?_ ⟨[], by rw [received, List.append_nil]⟩
    ?_ ?_ ?_
  · rw [all]
    refine List.nodup_append.mpr ⟨books.distinct, ?_, fun a old b new same => ?_⟩
    · rcases few with rfl | ⟨n, rfl⟩
      · exact List.nodup_nil
      · exact List.pairwise_singleton _ n
    · have above := (fresh b new).1
      have below := books.numbered a old
      omega
  · intro n mem
    rw [all] at mem
    rw [broker]
    rcases List.mem_append.mp mem with old | new
    · exact Nat.le_trans (books.numbered n old) grown
    · exact (fresh n new).2
  · intro a mem c tag s o fact
    cases List.mem_singleton.mp mem
    cases fact
  · intro a mem
    cases List.mem_singleton.mp mem
    rfl
  · intro a
    have step := delta a
    have entering : total (fun d => (x.due e.now d.body d.attempts).count a) (tags.map make) =
        if x.Enters exchange key (e.publish c exchange key m).2 then
          (x.due e.now m.body m.attempts).count a else 0 := by
      rw [totalMap]
      split at size
      · rename_i enters
        obtain ⟨n, rfl⟩ := List.length_eq_one_iff.mp size
        rw [if_pos enters]
        rfl
      · rename_i stays
        rw [if_neg stays, List.eq_nil_of_length_eq_zero size]
        rfl
    unfold Consumer.pending
    rw [received, hand, workers, ← List.append_assoc, totalAppend, entering]
    dsimp only at step
    omega

theorem booksPosted (exchange key : String) (m : Envelope) (books : x.Books e since unread k)
    (other : c ≠ x.channel)
    (broker : f.broker = (e.publish c exchange key m).1.broker) (now : f.now = e.now) :
    ∃ left, x.Books f
        ([⟨e.now, .published c exchange key m (e.publish c exchange key m).2⟩] ++ since) left k ∧
      x.backlog left ≤ x.backlog unread + x.load m.attempts + 12 := by
  refine booksPublish books broker now rfl rfl fun a => ?_
  have fate : (x.due e.now m.body m.attempts).count a =
      (x.fate ⟨e.now, m.body, m.headers⟩).count a :=
    fateOfDue ⟨e.now, m.body, m.headers⟩ a
  have none : x.events k.received
      [⟨e.now, .published c exchange key m (e.publish c exchange key m).2⟩] = [] := by
    simp only [events, event?, other, if_false, List.filterMap_cons, List.filterMap_nil]
  by_cases enters : x.Enters exchange key (e.publish c exchange key m).2
  · have one : x.posted [⟨e.now, .published c exchange key m (e.publish c exchange key m).2⟩] =
        [⟨e.now, m.body, m.headers⟩] := by
      have place : c ≠ x.channel ∧ exchange = x.exchange ∧ key = x.key ∧
          (e.publish c exchange key m).2.accepted = true :=
        ⟨other, enters.2.1, enters.2.2, enters.1⟩
      simp only [posted, posted?, if_pos place, List.filterMap_cons, List.filterMap_nil]
    dsimp only
    rw [none, one, if_pos enters, fate]
    simp only [total, List.count_nil]
    omega
  · have zero : x.posted [⟨e.now, .published c exchange key m (e.publish c exchange key m).2⟩] =
        [] := by
      have away : ¬ (c ≠ x.channel ∧ exchange = x.exchange ∧ key = x.key ∧
          (e.publish c exchange key m).2.accepted = true) :=
        fun all => enters ⟨all.2.2.2, all.2.1, all.2.2.1⟩
      simp only [posted, posted?, if_neg away, List.filterMap_cons, List.filterMap_nil]
    dsimp only
    rw [none, zero, if_neg enters]
    simp only [total, List.count_nil]
    omega

theorem booksSame (books : x.Books e since unread k) (broker : f.broker = e.broker)
    (now : f.now = e.now) : x.Books f since unread k where
  feeds := by rw [broker]; exact books.feeds
  accepting := by rw [broker]; exact books.accepting
  distinct := books.distinct
  numbered := by rw [broker]; exact books.numbered
  settled := books.settled
  past := by rw [now]; exact books.past
  balance := by rw [now]; exact books.balance

theorem booksPublication {s : Supervisor} {p q : Publication} (books : x.Books e since unread k)
    (other : p.phase ≠ .sending x.channel) (h : p.step s e = some (f, q)) :
    ∃ new left, f.journal = new ++ e.journal ∧ x.Books f (new ++ since) left k ∧
      x.backlog left + q.load x < x.backlog unread + p.load x := by
  unfold Publication.step at h
  split at h
  case h_1 limit here =>
    split at h <;> cases h <;> refine ⟨[], unread, rfl, books, ?_⟩ <;>
      simp only [Publication.load, here] <;> omega
  case h_2 here =>
    split at h <;> cases h <;> refine ⟨[], unread, rfl, books, ?_⟩ <;>
      simp only [Publication.load, here] <;> omega
  case h_3 c here =>
    split at h <;> cases h
    · refine ⟨[], unread, rfl, books, ?_⟩
      simp only [Publication.load, here]
      omega
    · have apart : c ≠ x.channel := fun same => other (same ▸ here)
      obtain ⟨left, kept, few⟩ := booksPosted s.topology.exchangeName
        (Publication.routingKey s.topology p.message)
        (Publication.envelope p.message e.freshId.2)
        (booksSame (f := e.freshId.1) books rfl rfl) apart rfl rfl
      refine ⟨_, left, rfl, booksSame kept rfl rfl, ?_⟩
      have bound := loadMost (x := x) (Publication.envelope p.message e.freshId.2).attempts
      simp only [Publication.load, here]
      omega
  case h_4 c here =>
    obtain ⟨o, -, same⟩ := Option.map_eq_some_iff.mp h
    cases same
    refine ⟨[], unread, rfl, books, ?_⟩
    simp only [Publication.load, here]
    omega
  all_goals contradiction

theorem publicationApart {s : Supervisor} {p q : Publication}
    (session : s.session.channel ≠ some x.channel) (h : p.step s e = some (f, q)) :
    q.phase ≠ .sending x.channel := by
  unfold Publication.step at h
  split at h
  case h_1 => split at h <;> cases h <;> exact fun same => by cases same
  case h_2 =>
    split at h <;> cases h
    · rename_i c current
      intro same
      cases same
      unfold Supervisor.channel? Session.channel? at current
      split at current
      · cases current
      · split at current
        · rename_i found
          split at current <;> cases current
          exact session found
        · cases current
    · exact fun same => by cases same
  case h_3 => split at h <;> cases h <;> exact fun same => by cases same
  case h_4 =>
    obtain ⟨o, -, same⟩ := Option.map_eq_some_iff.mp h
    cases same
    exact fun same => by cases same
  all_goals contradiction

theorem servingRetrySet {r q : RetryTask} (serving : k.Serving x now announced)
    (found : k.retries[i]? = some r) (steady : q.Steady x now) :
    Serving x now announced { k with retries := k.retries.set i q } where
  policy := serving.policy
  handler := serving.handler
  running := serving.running
  loop := serving.loop
  permitted := serving.permitted
  workers := serving.workers
  retries p mem := by
    rcases memSet found mem with rfl | ⟨j, -, old⟩
    · exact steady
    · exact serving.retries p (List.mem_of_getElem? old)

theorem booksRetrySet {r q : RetryTask} (books : x.Books e since unread k)
    (found : k.retries[i]? = some r) (same : q.future x e.now = r.future x e.now) :
    x.Books e since unread { k with retries := k.retries.set i q } := by
  refine booksIdle books rfl books.feeds books.accepting books.distinct books.numbered
    ⟨[], (List.append_nil _).symm⟩ fun a => ?_
  have changed := totalSet (f := fun r => (r.future x e.now).count a) (y := q) found
  rw [same] at changed
  have retries := Nat.add_right_cancel changed
  unfold Consumer.pending
  rw [retries]
  rfl

theorem loadRetrySet {r q : RetryTask} (found : k.retries[i]? = some r)
    (less : x.backlog left + q.load x < x.backlog unread + r.load x) :
    Consumer.load x left { k with retries := k.retries.set i q } < k.load x unread := by
  have changed := totalSet (f := RetryTask.load x) (y := q) found
  have hand : Consumer.hand { k with retries := k.retries.set i q } = k.hand := rfl
  unfold Consumer.load
  rw [hand]
  dsimp only
  omega

theorem booksRetry {s : Supervisor} {r q : RetryTask} (books : x.Books e since unread k)
    (serving : k.Serving x e.now announced) (found : k.retries[i]? = some r)
    (current : s.channel? e.broker = .ok x.channel) (exchange : s.topology.exchangeName = x.exchange)
    (key : s.topology.routingKey = x.key) (move : RetryMove k.stopped s e r f q) :
    ∃ new left, f.journal = new ++ e.journal ∧
      x.Books f (new ++ since) left { k with retries := k.retries.set i q } ∧
      Serving x e.now announced { k with retries := k.retries.set i q } ∧
      Consumer.load x left { k with retries := k.retries.set i q } < k.load x unread := by
  have steady := serving.retries r (List.mem_of_getElem? found)
  unfold RetryTask.Steady at steady
  cases move with
  | wake here due =>
    rename_i ends
    rcases here with here | here <;> simp only [here] at steady
    have elapsed : ends = e.now := by
      rcases due with due | stopped
      · exact Nat.le_antisymm due steady
      · cases serving.running.symm.trans stopped
    refine ⟨[], unread, rfl, booksRetrySet books found ?_, servingRetrySet serving found trivial,
      loadRetrySet found ?_⟩
    · simp only [RetryTask.future, here, elapsed]
      rfl
    · simp only [RetryTask.load, here]
      omega
  | sample here =>
    refine ⟨[], unread, rfl, booksRetrySet books found ?_, servingRetrySet serving found trivial,
      loadRetrySet found ?_⟩
    · simp only [RetryTask.future, here]
      rfl
    · simp only [RetryTask.load, here]
      omega
  | unopened here none => cases current.symm.trans none
  | opened here healthy =>
    cases current.symm.trans healthy
    refine ⟨[], unread, rfl, booksRetrySet books found ?_, servingRetrySet serving found rfl,
      loadRetrySet found ?_⟩
    · simp only [RetryTask.future, here]
      rfl
    · simp only [RetryTask.load, here]
      omega
  | send here =>
    rename_i a c
    simp only [here] at steady
    subst steady
    obtain ⟨answer, -⟩ := publishOpen s.topology.exchangeName s.topology.routingKey r.envelope
      books.feeds.channel books.accepting
    let e' := (e.publish x.channel s.topology.exchangeName s.topology.routingKey r.envelope).1
    let q : RetryTask := { r with phase := .confirming a (.ofReply e.now
      (Instant.wake e.now defaultPublishTimeout)
      (e.publish x.channel s.topology.exchangeName s.topology.routingKey r.envelope).2) }
    obtain ⟨left, kept, few⟩ := booksPublish (f := e') (l := { k with retries := k.retries.set i q })
      books rfl rfl rfl rfl fun b => by
        have changed := totalSet (f := fun r => (r.future x e.now).count b) (y := q) found
        have before : r.future x e.now = r.again x e.now := by
          simp only [RetryTask.future, here]
        have after : q.future x e.now = [] := rfl
        have enters : x.Enters s.topology.exchangeName s.topology.routingKey (.after 0 (.ok ())) :=
          ⟨rfl, exchange, key⟩
        rw [before, after] at changed
        dsimp only
        rw [answer, if_pos enters]
        simp only [RetryTask.again, events, event?, posted, posted?, exchange, key, Reply.accepted,
          if_true, ne_eq, not_true_eq_false, false_and, if_false, List.filterMap_cons,
          List.filterMap_nil, List.count_cons, List.count_nil, total] at changed ⊢
        omega
    refine ⟨_, left, rfl, kept, servingRetrySet serving found ⟨e.now, Nat.le_refl _, ?_⟩,
      loadRetrySet found ?_⟩
    · rw [answer]
      rfl
    · simp only [RetryTask.load, here]
      omega
  | conclude here answer =>
    rename_i a c o
    simp only [here] at steady
    obtain ⟨t, past, confirmed⟩ := steady
    have ok : o = .ok () := by
      unfold Confirmation.result? at answer
      rw [confirmed] at answer
      dsimp only at answer
      rw [if_pos past] at answer
      exact (Option.some.inj answer).symm
    subst ok
    refine ⟨[], unread, rfl, booksRetrySet books found ?_, servingRetrySet serving found trivial,
      loadRetrySet found ?_⟩
    · simp only [RetryTask.future, here]
      rfl
    · simp only [RetryTask.load, here]
      exact Nat.lt_succ_self _

end Desk

end AmqpClient
