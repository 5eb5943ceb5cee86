import AmqpClient.Broker.Memory
import AmqpClient.Proofs.Counts
/-! A queue whose messages all go into one stream, once that is there, and the ways in which the
stream changes. -/
namespace AmqpClient

def Reply.accepted : Reply → Bool
  | .after _ (.ok ()) => true
  | _ => false

namespace Broker

namespace Store

def waiting (queue : String) (s : Store) : List Delivery :=
  (s.pending.filter fun p => p.1 == queue).map Prod.snd

structure Feeds (c : ChannelId) (i : StreamId) (b : Binding) (there : Bool)
    (unread : List Delivery) (s : Store) : Prop where
  channel : s.channelOpen c = true
  stream : there = true → ∃ x, s.streams[i]? = some x ∧ x.live c b.queue = true ∧
    x.taken ≤ x.items.length ∧ x.items.drop x.taken = unread.map .ok
  waits : there = false → s.streams.length = i ∧ s.waiting b.queue = unread
  alone : ∀ j x d, s.streams[j]? = some x → x.live d b.queue = true → there = true ∧ j = i
  bound : s.bindings.count b = 1
  only : ∀ y ∈ s.bindings, y.queue = b.queue → y = b

variable {s t : Store} {c : ChannelId} {i : StreamId} {b : Binding} {there : Bool}
  {unread : List Delivery} {order : List ChannelId}

theorem liveReceiver {queue : String} {j : StreamId} (found : s.receiver? order queue = some j) :
    ∃ x d, s.streams[j]? = some x ∧ x.live d queue = true := by
  obtain ⟨d, -, here⟩ := List.exists_of_findSome?_eq_some found
  split at here
  · obtain ⟨inside, live, -⟩ := List.findIdx?_eq_some_iff_getElem.mp here
    exact ⟨s.streams[j], d, List.getElem?_eq_getElem inside, live⟩
  · cases here

theorem receiverFed (feeds : s.Feeds c i b true unread) (listed : c ∈ order) :
    s.receiver? order b.queue = some i := by
  have some_ : (s.receiver? order b.queue).isSome = true := by
    refine List.findSome?_isSome_iff.mpr ⟨c, listed, ?_⟩
    obtain ⟨x, found, live, -⟩ := feeds.stream rfl
    rw [if_pos feeds.channel, List.findIdx?_isSome, List.any_eq_true]
    exact ⟨x, List.mem_of_getElem? found, live⟩
  obtain ⟨j, found⟩ := Option.isSome_iff_exists.mp some_
  obtain ⟨x, d, there, live⟩ := liveReceiver found
  rw [found, (feeds.alone j x d there live).2]

theorem receiverNone (feeds : s.Feeds c i b false unread) :
    s.receiver? order b.queue = none := by
  refine Option.eq_none_iff_forall_ne_some.mpr fun j found => ?_
  obtain ⟨x, d, there, live⟩ := liveReceiver found
  cases (feeds.alone j x d there live).1

theorem alonePut {j : StreamId} {y : Except Error Delivery} (feeds : s.Feeds c i b there unread) :
    ∀ k x d, (s.streams.modify j (Stream.put y))[k]? = some x → x.live d b.queue = true →
      there = true ∧ k = i := by
  intro k x d found live
  rw [List.getElem?_modify] at found
  obtain ⟨z, old, same⟩ := Option.map_eq_some_iff.mp found
  refine feeds.alone k z d old ?_
  split at same <;> subst same <;> exact live

theorem dispatchMine (d : Delivery) (feeds : s.Feeds c i b there unread) (listed : c ∈ order) :
    (s.dispatch order b.queue d).Feeds c i b there (unread ++ [d]) := by
  unfold dispatch
  cases there with
  | true =>
    rw [receiverFed feeds listed]
    refine ⟨feeds.channel, fun _ => ?_, fun gone => (by cases gone), alonePut feeds, feeds.bound,
      feeds.only⟩
    obtain ⟨x, found, live, read, left⟩ := feeds.stream rfl
    refine ⟨x.put (.ok d), ?_, live, ?_, ?_⟩
    · simp only [List.getElem?_modify, found, Option.map_eq_map, Option.map_some, if_true]
    · exact Nat.le_trans read (by simp [Stream.put])
    · change (x.items ++ [Except.ok d]).drop x.taken = _
      rw [List.drop_append_of_le_length read, left, List.map_append]
      rfl
  | false =>
    rw [receiverNone feeds]
    obtain ⟨size, waits⟩ := feeds.waits rfl
    refine ⟨feeds.channel, fun none => (by cases none), fun _ => ⟨size, ?_⟩, feeds.alone,
      feeds.bound, feeds.only⟩
    unfold waiting at waits ⊢
    simp only [List.filter_append, List.filter_cons, beq_self_eq_true, if_true, List.filter_nil,
      List.map_append, waits, List.map_cons, List.map_nil]

theorem dispatchOther {queue : String} (d : Delivery) (feeds : s.Feeds c i b there unread)
    (other : queue ≠ b.queue) : (s.dispatch order queue d).Feeds c i b there unread := by
  unfold dispatch
  split
  · rename_i j found
    refine ⟨feeds.channel, fun here => ?_, fun gone => ?_, alonePut feeds, feeds.bound, feeds.only⟩
    · obtain ⟨x, here, live, rest⟩ := feeds.stream here
      refine ⟨x, ?_, live, rest⟩
      obtain ⟨y, e, there, lively⟩ := liveReceiver found
      have apart : j ≠ i := by
        rintro rfl
        cases here.symm.trans there
        unfold Stream.live at live lively
        simp only [Bool.and_eq_true, beq_iff_eq] at live lively
        exact other (lively.2.symm.trans live.2)
      simp only [List.getElem?_modify, here, apart, if_false, Option.map_eq_map, Option.map_some]
    · exact ⟨(List.length_modify ..).trans (feeds.waits gone).1, (feeds.waits gone).2⟩
  · refine ⟨feeds.channel, feeds.stream, fun gone => ⟨(feeds.waits gone).1, ?_⟩, feeds.alone,
      feeds.bound, feeds.only⟩
    have waits := (feeds.waits gone).2
    unfold waiting at waits ⊢
    have apart : (queue == b.queue) = false := beq_eq_false_iff_ne.mpr other
    simp only [List.filter_append, List.filter_cons, apart, Bool.false_eq_true, if_false,
      List.filter_nil, List.append_nil, waits]

def Arrives (c : ChannelId) (i : StreamId) (b : Binding) (there : Bool) (make : Nat → Delivery)
    (unread : List Delivery) (n : Nat) (s t : Store) : Prop :=
  s.lastTag ≤ t.lastTag ∧ ∃ tags : List Nat, tags.length = n ∧
    (∀ tag ∈ tags, s.lastTag < tag ∧ tag ≤ t.lastTag) ∧
    t.Feeds c i b there (unread ++ tags.map make)

theorem dispatchTag (queue : String) (d : Delivery) :
    (s.dispatch order queue d).lastTag = s.lastTag := by
  unfold dispatch
  split <;> rfl

theorem arriveFeeds (feeds : s.Feeds c i b there unread) (make : Nat → Delivery) :
    (s.arrive make).1.Feeds c i b there unread :=
  ⟨feeds.channel, feeds.stream, feeds.waits, feeds.alone, feeds.bound, feeds.only⟩

theorem deliverArrives (feeds : s.Feeds c i b there unread) (listed : c ∈ order) (make : Nat → Delivery)
    (queue : String) : Arrives c i b there make unread (if queue == b.queue then 1 else 0) s
      (s.deliver order queue make).1 := by
  have feeds := arriveFeeds feeds make
  have tag : (s.deliver order queue make).1.lastTag = s.lastTag + 1 := dispatchTag ..
  refine ⟨by omega, ?_⟩
  by_cases mine : queue = b.queue
  · refine ⟨[s.lastTag + 1], by rw [mine, beq_self_eq_true]; rfl, ?_, ?_⟩
    · intro n mem
      cases List.mem_singleton.mp mem
      omega
    · rw [mine]
      exact dispatchMine _ feeds listed
  · refine ⟨[], by rw [if_neg (by simpa using mine)]; rfl, (fun n mem => by cases mem), ?_⟩
    rw [List.map_nil, List.append_nil]
    exact dispatchOther _ feeds mine

theorem foldArrives {bindings : List Binding} {make : Nat → Delivery}
    (feeds : s.Feeds c i b there unread) (listed : c ∈ order) :
    Arrives c i b there make unread (bindings.countP fun y => y.queue == b.queue) s
      (bindings.foldl (fun s y => (s.deliver order y.queue make).1) s) := by
  induction bindings generalizing s unread with
  | nil =>
    refine ⟨Nat.le_refl _, [], rfl, (fun n mem => by cases mem), ?_⟩
    rw [List.map_nil, List.append_nil]
    exact feeds
  | cons y rest ih =>
    obtain ⟨grown, first, size, within, feeds⟩ := deliverArrives feeds listed make y.queue
    obtain ⟨later, others, sizes, withins, feeds⟩ := ih feeds
    refine ⟨Nat.le_trans grown later, first ++ others, ?_, ?_, ?_⟩
    · rw [List.length_append, size, sizes, List.countP_cons, Nat.add_comm]
    · intro n mem
      rcases List.mem_append.mp mem with mem | mem
      · have old := within n mem
        exact ⟨old.1, Nat.le_trans old.2 later⟩
      · have new := withins n mem
        exact ⟨Nat.lt_of_le_of_lt grown new.1, new.2⟩
    · rw [List.map_append, ← List.append_assoc]
      exact feeds

theorem countMatching (feeds : s.Feeds c i b there unread) (exchange key : String) :
    (s.matching exchange key).countP (fun y => y.queue == b.queue) =
      if exchange = b.exchange ∧ key = b.routingKey then 1 else 0 := by
  unfold matching
  rw [List.countP_filter]
  split
  · rename_i here
    obtain ⟨rfl, rfl⟩ := here
    rw [← feeds.bound, List.count]
    refine List.countP_congr fun y mem => ?_
    constructor
    · intro both
      simp only [Bool.and_eq_true, beq_iff_eq] at both
      exact beq_iff_eq.mpr (feeds.only y mem both.1)
    · intro same
      cases beq_iff_eq.mp same
      simp only [beq_self_eq_true, Bool.and_self]
  · rename_i elsewhere
    refine List.countP_eq_zero.mpr fun y mem both => elsewhere ?_
    simp only [Bool.and_eq_true, beq_iff_eq] at both
    cases feeds.only y mem both.1
    exact ⟨both.2.1.symm, both.2.2.symm⟩

theorem routeArrives (feeds : s.Feeds c i b there unread) (listed : c ∈ order) (exchange key : String)
    (m : Envelope) : Arrives c i b there (fun tag => Delivery.new tag exchange key m.body m.headers) unread
      (if exchange = b.exchange ∧ key = b.routingKey then 1 else 0) s
      (s.route order exchange key m) := by
  rw [← countMatching feeds]
  exact foldArrives feeds listed

theorem pollFed {d : Delivery} (feeds : s.Feeds c i b true (d :: unread)) :
    ∃ t, s.poll i = (t, .item (.ok d)) ∧ t.lastTag = s.lastTag ∧ t.Feeds c i b true unread := by
  obtain ⟨x, found, live, read, left⟩ := feeds.stream rfl
  have here : x.items[x.taken]? = some (.ok d) := by
    have first : (x.items.drop x.taken)[0]? = some (.ok d) := by rw [left]; rfl
    rw [List.getElem?_drop] at first
    exact first
  have inside : i < s.streams.length := (List.getElem?_eq_some_iff.mp found).1
  have more : x.taken < x.items.length := (List.getElem?_eq_some_iff.mp here).1
  refine ⟨{ s with streams := s.streams.set i { x with taken := x.taken + 1 } }, ?_, rfl, ?_⟩
  · unfold poll
    rw [found]
    dsimp only
    rw [here]
  · refine ⟨feeds.channel, fun _ => ⟨_, List.getElem?_set_self inside, live, more, ?_⟩,
      fun gone => (by cases gone), ?_, feeds.bound, feeds.only⟩
    · change x.items.drop (x.taken + 1) = _
      rw [← List.drop_drop, left]
      rfl
    · intro j y e there lively
      by_cases same : i = j
      · exact ⟨rfl, same.symm⟩
      · rw [List.getElem?_set_ne same] at there
        exact feeds.alone j y e there lively

theorem pollEmpty (feeds : s.Feeds c i b true []) : s.poll i = (s, .waiting) := by
  obtain ⟨x, found, live, read, left⟩ := feeds.stream rfl
  have none : x.items[x.taken]? = none :=
    List.getElem?_eq_none (List.drop_eq_nil_iff.mp left)
  have attached : x.attached = true := by
    unfold Stream.live at live
    simp only [Bool.and_eq_true] at live
    exact live.1.1.1
  unfold poll
  rw [found]
  dsimp only
  rw [none, attached]
  rfl

theorem subscribeFeeds (feeds : s.Feeds c i b false unread) :
    (s.subscribe c b.queue).2 = i ∧ (s.subscribe c b.queue).1.lastTag = s.lastTag ∧
      (s.subscribe c b.queue).1.Feeds c i b true unread := by
  obtain ⟨rfl, waits⟩ := feeds.waits rfl
  refine ⟨rfl, rfl, feeds.channel, fun _ => ?_, fun gone => (by cases gone), ?_, feeds.bound,
    feeds.only⟩
  · refine ⟨_, List.getElem?_concat_length, ?_, Nat.zero_le _, ?_⟩
    · simp only [Stream.live, beq_self_eq_true, Bool.not_false, Bool.and_self]
    · rw [← waits]
      unfold waiting
      rw [List.map_map]
      rfl
  · intro j x d found live
    refine ⟨rfl, ?_⟩
    rcases Nat.lt_or_ge j s.streams.length with old | new
    · unfold subscribe at found
      dsimp only at found
      rw [List.getElem?_append_left old] at found
      cases (feeds.alone j x d found live).1
    · have inside := (List.getElem?_eq_some_iff.mp found).1
      unfold subscribe at inside
      rw [List.length_append] at inside
      exact Nat.le_antisymm (Nat.le_of_lt_succ inside) new

end Store

end Broker

end AmqpClient
