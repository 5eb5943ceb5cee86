import AmqpClient.Proofs.Broker.Feed
import AmqpClient.Proofs.Broker.Streams
import AmqpClient.Proofs.Requests
/-! Where the messages are that a broker has numbered. A message waits in one queue or in one stream,
under a number given to no other; what a reader takes from a stream is not in it any more. -/
namespace AmqpClient.Broker

def tag? (x : Except Error Delivery) : Option Nat := x.toOption.map Delivery.tag

def Stream.unread (x : Stream) : List Nat := (x.items.drop x.taken).filterMap tag?

namespace Store

def held (s : Store) : List Nat :=
  s.pending.map (fun p => p.2.tag) ++ s.streams.flatMap Stream.unread

def issued (n : Nat) (s t : Store) : Nat := if s.lastTag < n ∧ n ≤ t.lastTag then 1 else 0

structure Issues (s t : Store) : Prop where
  grown : s.lastTag ≤ t.lastTag
  held : ∀ n, t.held.count n ≤ s.held.count n + issued n s t

variable {s t u : Store}

theorem issuesRefl (s : Store) : Issues s s := ⟨Nat.le_refl _, fun _ => Nat.le_add_right ..⟩

theorem issuesTrans (first : Issues s t) (second : Issues t u) : Issues s u := by
  refine ⟨Nat.le_trans first.grown second.grown, fun n => ?_⟩
  have one := first.held n
  have two := second.held n
  have low := first.grown
  have high := second.grown
  unfold issued at one two ⊢
  split at one <;> split at two <;> split <;> omega

theorem heldCount (s : Store) (n : Nat) : s.held.count n =
    (s.pending.map fun p => p.2.tag).count n + total (fun x => x.unread.count n) s.streams := by
  unfold held
  rw [List.count_append, countParts]

theorem issuesSame (pending : t.pending = s.pending)
    (streams : t.streams.flatMap Stream.unread = s.streams.flatMap Stream.unread)
    (lastTag : t.lastTag = s.lastTag) : Issues s t := by
  refine ⟨Nat.le_of_eq lastTag.symm, fun n => ?_⟩
  unfold held
  rw [pending, streams]
  exact Nat.le_add_right ..

theorem issuesWatchConnection (c : ConnectionId) (s : Store) :
    Issues s (s.watchConnection c).1 := by
  unfold watchConnection
  split <;> exact issuesSame rfl rfl rfl

theorem issuesWatchChannel (c : ChannelId) (s : Store) : Issues s (s.watchChannel c).1 := by
  unfold watchChannel
  split <;> exact issuesSame rfl rfl rfl

theorem issuesShutConnection (c : ConnectionId) (x : Notice) (s : Store) :
    Issues s (s.shutConnection c x) := by
  unfold shutConnection
  split
  · exact issuesRefl s
  · exact issuesSame rfl rfl rfl

theorem issuesEndStreams (c : ChannelId) (s : Store) : Issues s (s.endStreams c) := by
  refine issuesSame rfl ?_ rfl
  unfold endStreams
  rw [List.flatMap_map]
  refine congrArg (s.streams.flatMap ·) (funext fun x => ?_)
  split <;> rfl

theorem issuesShutChannel (c : ChannelId) (x : Notice) (s : Store) :
    Issues s (s.shutChannel c x) := by
  unfold shutChannel
  split
  · exact issuesRefl s
  · -- a notice changes neither the streams nor what is pending
    have ended := issuesEndStreams c s
    exact ⟨ended.grown, ended.held⟩

theorem issuesBind (b : Binding) (s : Store) : Issues s (s.bind b) := by
  unfold bind
  split
  · exact issuesRefl s
  · exact issuesSame rfl rfl rfl

theorem issuesDropStream (i : StreamId) (s : Store) : Issues s (s.dropStream i) :=
  issuesSame rfl (flatMapModify fun _ => rfl) rfl

theorem issuesSubscribe (c : ChannelId) (queue : String) (s : Store) :
    Issues s (s.subscribe c queue).1 := by
  refine ⟨Nat.le_refl _, fun n => ?_⟩
  have moved : Stream.unread ⟨c, queue, true, false,
      (s.pending.filter fun p => p.1 == queue).map fun p => .ok p.2, 0⟩ =
        (s.pending.filter fun p => p.1 == queue).map fun p => p.2.tag := by
    unfold Stream.unread
    rw [List.drop_zero, List.filterMap_map]
    exact congrFun (List.filterMap_eq_map (f := fun p : String × Delivery => p.2.tag)) _
  have parts := List.countP_eq_countP_filter_add s.pending (fun p => p.2.tag == n)
    fun p => p.1 == queue
  rw [heldCount, heldCount]
  unfold subscribe
  rw [totalAppend, total, total, moved]
  simp only [List.count, List.countP_map, Function.comp_def]
  have rest : (s.pending.filter fun p => p.1 != queue) =
      s.pending.filter fun p => !(p.1 == queue) := rfl
  rw [rest]
  omega

theorem unreadPut (x : Stream) (d : Delivery) (n : Nat) :
    (x.put (.ok d)).unread.count n ≤ x.unread.count n + [d.tag].count n := by
  have few : ((x.items ++ [Except.ok d]).drop x.taken).Sublist
      (x.items.drop x.taken ++ [Except.ok d]) := by
    rw [List.drop_append]
    exact List.Sublist.append_left (List.drop_sublist ..) _
  have counted := (few.filterMap tag?).count_le n
  rw [List.filterMap_append, List.count_append] at counted
  exact counted

theorem heldDispatch (order : List ChannelId) (queue : String) (d : Delivery) (s : Store) (n : Nat) :
    (s.dispatch order queue d).held.count n ≤ s.held.count n + [d.tag].count n := by
  rw [heldCount, heldCount]
  unfold dispatch
  split
  · rename_i i _
    dsimp only
    cases found : s.streams[i]? with
    | none =>
      rw [List.modify_eq_self (List.getElem?_eq_none_iff.mp found)]
      omega
    | some x =>
      have replaced := totalSet (f := fun x : Stream => x.unread.count n) (y := x.put (.ok d)) found
      have put := unreadPut x d n
      rw [modifyFound found]
      omega
  · rw [List.map_append, List.count_append]
    exact Nat.le_of_eq (Nat.add_right_comm ..)

theorem issuesDeliver (order : List ChannelId) (queue : String) (make : Nat → Delivery)
    (numbered : ∀ tag, (make tag).tag = tag) (s : Store) :
    Issues s (s.deliver order queue make).1 := by
  have tag : (s.deliver order queue make).1.lastTag = s.lastTag + 1 := dispatchTag ..
  refine ⟨by omega, fun n => ?_⟩
  have counted := heldDispatch order queue (make (s.lastTag + 1)) (s.arrive make).1 n
  have new : [(make (s.lastTag + 1)).tag].count n ≤ issued n s (s.deliver order queue make).1 := by
    unfold issued
    rw [numbered, tag]
    by_cases here : s.lastTag + 1 = n
    · rw [if_pos ⟨Nat.lt_of_succ_le (Nat.le_of_eq here), Nat.le_of_eq here.symm⟩]
      exact List.count_le_length
    · rw [List.count_eq_zero.mpr fun mem => here (List.mem_singleton.mp mem).symm]
      exact Nat.zero_le _
  exact Nat.le_trans counted (Nat.add_le_add_left new _)

theorem issuesRoute (order : List ChannelId) (exchange key : String) (m : Envelope) (s : Store) :
    Issues s (s.route order exchange key m) := by
  unfold route
  generalize s.matching exchange key = bindings
  induction bindings generalizing s with
  | nil => exact issuesRefl s
  | cons b rest ih => exact issuesTrans (issuesDeliver order b.queue _ (fun _ => rfl) s) (ih _)

theorem heldPoll {i : StreamId} {x : Except Error Delivery} (polled : s.poll i = (t, .item x)) :
    t.lastTag = s.lastTag ∧ ∀ n, t.held.count n + (tag? x).toList.count n = s.held.count n := by
  unfold poll at polled
  split at polled
  · cases polled
  · rename_i y found
    split at polled
    · rename_i here
      cases polled
      refine ⟨rfl, fun n => ?_⟩
      have next : y.unread = (tag? x).toList ++ Stream.unread { y with taken := y.taken + 1 } := by
        obtain ⟨inside, first⟩ := List.getElem?_eq_some_iff.mp here
        unfold Stream.unread
        rw [List.drop_eq_getElem_cons inside, first]
        rw [List.filterMap_cons]
        cases tag? x <;> rfl
      have replaced := totalSet (f := fun x : Stream => x.unread.count n)
        (y := { y with taken := y.taken + 1 }) found
      rw [next, List.count_append] at replaced
      rw [heldCount, heldCount]
      dsimp only
      omega
    · split at polled <;> cases polled

theorem issuesPoll (i : StreamId) (s : Store) : Issues s (s.poll i).1 := by
  rcases polled : s.poll i with ⟨t, p⟩
  cases p with
  | item x =>
    obtain ⟨same, held⟩ := heldPoll polled
    exact ⟨Nat.le_of_eq same.symm,
      fun n => Nat.le_trans (held n ▸ Nat.le_add_right ..) (Nat.le_add_right ..)⟩
  | waiting | ended =>
    have same : t = s := by
      unfold poll at polled
      split at polled
      · cases polled; try rfl
      · split at polled
        · cases polled
        · split at polled <;> cases polled; rfl
    rw [same]
    exact issuesRefl s

end Store

namespace Memory

def Issues (m n : Memory) : Prop := Store.Issues m.store n.store

theorem issuesKillChannel (x : Notice) (m : Memory) : Issues m (m.killChannel x) := by
  unfold killChannel
  split
  · exact Store.issuesShutChannel ..
  · exact Store.issuesRefl _

theorem issuesKillConnection (reason : String) (m : Memory) :
    Issues m (m.killConnection reason) := by
  have channel := issuesKillChannel .silent m
  unfold killConnection
  dsimp only
  split
  · rename_i i _
    exact Store.issuesTrans channel (Store.issuesShutConnection i (.report reason) _)
  · exact channel

theorem issuesPublish (c : ChannelId) (exchange key : String) (e : Envelope) (m : Memory) :
    Issues m (m.publish c exchange key e).1 := by
  unfold publish
  repeat' split
  all_goals
    first
      | exact Store.issuesRefl _
      | exact Store.issuesRoute ..

theorem issuesDeclare (c : ChannelId) (d : Declaration) (m : Memory) :
    Issues m (m.declare c d).1 := by
  cases d with
  | exchange | queue => exact Store.issuesRefl _
  | bind b =>
    unfold declare
    dsimp only
    split
    · exact Store.issuesBind b m.store
    · exact Store.issuesRefl _

theorem issuesDial (m : Memory) : Issues m m.dial.1 := by
  unfold dial
  dsimp only
  split
  · exact Store.issuesRefl _
  · exact Store.issuesSame rfl rfl rfl

theorem issuesConsume (c : ChannelId) (queue : String) (m : Memory) :
    Issues m (m.consume c queue).1 := by
  unfold consume
  split
  · exact Store.issuesSubscribe ..
  · exact Store.issuesRefl _

theorem issuesCovers : Env.Covers fun e f : Env Memory => Issues e.broker f.broker where
  idle _ := Store.issuesRefl _
  trans := Store.issuesTrans
  record _ _ := Store.issuesRefl _
  freshId _ := Store.issuesRefl _
  beginDial _ _ := Store.issuesRefl _
  dial _ _ e := issuesDial e.broker
  watchConnection c e := Store.issuesWatchConnection c e.broker.store
  watchChannel c e := Store.issuesWatchChannel c e.broker.store
  declare c d e := issuesDeclare c d e.broker
  prefetch _ _ _ := Store.issuesRefl _
  consume c queue _ e := issuesConsume c queue e.broker
  poll i e := Store.issuesPoll i e.broker.store
  dropStream i e := Store.issuesDropStream i e.broker.store
  publish c exchange key m e := issuesPublish c exchange key m e.broker
  settle _ _ _ _ := Store.issuesRefl _
  closeChannel c e := Store.issuesShutChannel c .silent e.broker.store
  closeConnection c e := Store.issuesShutConnection c .silent e.broker.store

theorem issuesCommand {m n : Memory} (commanded : Commanded m n) : Issues m n := by
  obtain ⟨command, e, rfl, rfl⟩ := commanded
  cases command with
  | failDials | refuse | failPublishes | stallPublishes => exact Store.issuesRefl _
  | killConnection reason => exact issuesKillConnection reason _
  | killChannel reason => exact issuesKillChannel _ _
  | cancelConsumers =>
    change Issues e.broker e.broker.cancelConsumers
    unfold cancelConsumers
    split
    · exact Store.issuesEndStreams ..
    · exact Store.issuesRefl _
  | deliver queue key body headers =>
    exact Store.issuesDeliver _ queue (fun tag => Delivery.new tag "" key body headers)
      (fun _ => rfl) _
  | settle =>
    refine ⟨Nat.le_succ _, fun n => ?_⟩
    exact Nat.le_add_right ..

end Memory

end AmqpClient.Broker
