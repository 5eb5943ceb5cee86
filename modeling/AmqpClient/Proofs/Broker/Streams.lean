import AmqpClient.Proofs.Broker.Links
import AmqpClient.Proofs.Counts
import AmqpClient.Scenario.Command
/-! Streams and the messages that wait for one. A stream is fed only while its channel is open, and a
message waits only while its queue has no stream that is fed and read. Nothing but the dropping of a
stream takes it from its reader. -/
namespace AmqpClient.Broker

def Stream.place (x : Stream) : ChannelId × String × Bool := (x.channel, x.queue, x.dropped)

namespace Store

structure Tidy (s : Store) : Prop where
  fed : ∀ x ∈ s.streams, x.attached = true → s.channelOpen x.channel = true
  waits : ∀ p ∈ s.pending, ∀ x ∈ s.streams, x.queue = p.1 → x.attached = true → x.dropped = true

structure Carries (gone : StreamId → Prop) (s t : Store) : Prop where
  tidy : s.Tidy → t.Tidy
  grown : s.streams.length ≤ t.streams.length
  kept : ∀ i x, s.streams[i]? = some x → ¬ gone i →
    ∃ y, t.streams[i]? = some y ∧ y.place = x.place

variable {s t u : Store} {gone : StreamId → Prop}

theorem carriesRefl (s : Store) : Carries gone s s := ⟨id, Nat.le_refl _, fun _ x found _ => ⟨x, found, rfl⟩⟩

theorem carriesTrans (first : Carries gone s t) (second : Carries gone t u) : Carries gone s u := by
  refine ⟨fun tidy => second.tidy (first.tidy tidy), Nat.le_trans first.grown second.grown, ?_⟩
  intro i x found stays
  obtain ⟨y, there, same⟩ := first.kept i x found stays
  obtain ⟨z, last, again⟩ := second.kept i y there stays
  exact ⟨z, last, again.trans same⟩

theorem carriesMore {more : StreamId → Prop} (carries : Carries gone s t)
    (all : ∀ i, gone i → more i) : Carries more s t :=
  ⟨carries.tidy, carries.grown, fun i x found stays => carries.kept i x found fun h => stays (all i h)⟩

theorem carriesSame (streams : t.streams = s.streams) (pending : t.pending = s.pending)
    (opened : ∀ c, s.channelOpen c = true → t.channelOpen c = true) : Carries gone s t := by
  refine ⟨fun tidy => ⟨?_, ?_⟩, Nat.le_of_eq (by rw [streams]), ?_⟩
  · rw [streams]
    exact fun x mem fed => opened _ (tidy.fed x mem fed)
  · rw [streams, pending]
    exact tidy.waits
  · rw [streams]
    exact fun _ x found _ => ⟨x, found, rfl⟩

theorem carriesOpenLink (s : Store) : Carries gone s s.openLink.1 := by
  have keeps : Keeps (fun _ _ => False) s s.openLink.1 := keepsOpenLink s
  exact carriesSame rfl rfl fun c isOpen =>
    (keptOpen keeps (insideOfOpen (r := .channel) isOpen) id).mpr isOpen

theorem carriesWatchConnection (n : ConnectionId) (s : Store) :
    Carries gone s (s.watchConnection n).1 := by
  unfold watchConnection
  split <;> exact carriesSame rfl rfl fun _ => id

theorem carriesWatchChannel (n : ChannelId) (s : Store) : Carries gone s (s.watchChannel n).1 := by
  have opened (c : ChannelId) (isOpen : s.channelOpen c = true) :
      (s.watchChannel n).1.channelOpen c = true :=
    (openWatchChannel (r := .channel)).mpr isOpen
  unfold watchChannel at opened ⊢
  split at opened
  · exact carriesSame rfl rfl opened
  · exact carriesSame rfl rfl opened

theorem carriesShutConnection (n : ConnectionId) (x : Notice) (s : Store) :
    Carries gone s (s.shutConnection n x) := by
  unfold shutConnection
  split
  · exact carriesRefl s
  · exact carriesSame rfl rfl fun _ => id

theorem carriesDetached {p : Stream → Prop} [DecidablePred p]
    (streams : t.streams = s.streams.map fun x => if p x then { x with attached := false } else x)
    (pending : t.pending = s.pending)
    (opened : ∀ x ∈ s.streams, ¬ p x → s.channelOpen x.channel = true →
      t.channelOpen x.channel = true) : Carries gone s t := by
  refine ⟨fun tidy => ⟨?_, ?_⟩, Nat.le_of_eq (by rw [streams, List.length_map]), ?_⟩
  · rw [streams]
    intro y mem fed
    obtain ⟨x, old, rfl⟩ := List.mem_map.mp mem
    split at fed
    · cases fed
    · rename_i other
      rw [if_neg other]
      exact opened x old other (tidy.fed x old fed)
  · rw [streams, pending]
    intro q waiting y mem mine fed
    obtain ⟨x, old, rfl⟩ := List.mem_map.mp mem
    split at fed
    · cases fed
    · rename_i other
      rw [if_neg other] at mine ⊢
      exact tidy.waits q waiting x old mine fed
  · intro i x found _
    refine ⟨if p x then { x with attached := false } else x, ?_, ?_⟩
    · rw [streams, List.getElem?_map, found]
      rfl
    · split <;> rfl

theorem carriesEndStreams (n : ChannelId) (s : Store) : Carries gone s (s.endStreams n) :=
  carriesDetached rfl rfl fun _ _ _ => id

theorem carriesShutChannel (n : ChannelId) (x : Notice) (s : Store) :
    Carries gone s (s.shutChannel n x) := by
  unfold shutChannel
  split
  · exact carriesRefl s
  · refine carriesDetached rfl rfl fun y _ other isOpen => ?_
    unfold channelOpen Store.isOpen at isOpen ⊢
    change (((s.channels.set n _)[y.channel]?).map Endpoint.isOpen).getD false = true
    rw [List.getElem?_set_ne (Ne.symm other)]
    exact isOpen

theorem carriesBind (b : Binding) (s : Store) : Carries gone s (s.bind b) := by
  unfold bind
  split
  · exact carriesRefl s
  · exact carriesSame rfl rfl fun _ => id

theorem carriesSet {i : StreamId} {x y : Stream} (found : s.streams[i]? = some x)
    (streams : t.streams = s.streams.set i y) (pending : t.pending = s.pending)
    (channels : t.channels = s.channels) (attached : y.attached = x.attached)
    (channel : y.channel = x.channel) (queue : y.queue = x.queue)
    (dropped : x.dropped = true → y.dropped = true) (stays : ¬ gone i → y.dropped = x.dropped) :
    Carries gone s t := by
  have inside : i < s.streams.length := (List.getElem?_eq_some_iff.mp found).1
  have old := List.mem_of_getElem? found
  refine ⟨fun tidy => ⟨?_, ?_⟩, Nat.le_of_eq (by rw [streams, List.length_set]), ?_⟩
  · unfold channelOpen
    rw [streams, channels]
    intro z mem fed
    rcases List.mem_or_eq_of_mem_set mem with other | rfl
    · exact tidy.fed z other fed
    · rw [channel]
      exact tidy.fed x old (attached ▸ fed)
  · rw [streams, pending]
    intro q waiting z mem mine fed
    rcases List.mem_or_eq_of_mem_set mem with other | rfl
    · exact tidy.waits q waiting z other mine fed
    · exact dropped (tidy.waits q waiting x old (queue ▸ mine) (attached ▸ fed))
  · rw [streams]
    intro j z there kept
    by_cases here : i = j
    · subst here
      cases Option.some.inj (found.symm.trans there)
      refine ⟨y, List.getElem?_set_self inside, ?_⟩
      unfold Stream.place
      rw [channel, queue, stays kept]
    · exact ⟨z, (List.getElem?_set_ne here).trans there, rfl⟩

theorem carriesPoll (i : StreamId) (s : Store) : Carries gone s (s.poll i).1 := by
  unfold poll
  split
  · exact carriesRefl s
  · rename_i x found
    split
    · exact carriesSet (y := { x with taken := x.taken + 1 }) found rfl rfl rfl rfl rfl rfl id
        fun _ => rfl
    · exact carriesRefl s

theorem carriesDrop (i : StreamId) (s : Store) : Carries (fun j => j = i) s (s.dropStream i) := by
  cases found : s.streams[i]? with
  | none =>
    exact carriesSame (List.modify_eq_self (List.getElem?_eq_none_iff.mp found)) rfl fun _ => id
  | some x =>
    refine carriesSet (x := x) (y := { x with dropped := true }) found (modifyFound found) rfl rfl rfl rfl
      rfl (fun _ => rfl) fun other => absurd rfl other

theorem carriesSubscribe {c : ChannelId} (queue : String) (isOpen : s.channelOpen c = true) :
    Carries gone s (s.subscribe c queue).1 := by
  refine ⟨fun tidy => ⟨?_, ?_⟩, ?_, ?_⟩
  · intro x mem fed
    rcases List.mem_append.mp mem with old | new
    · exact tidy.fed x old fed
    · cases List.mem_singleton.mp new
      exact isOpen
  · intro p waiting x mem mine fed
    obtain ⟨waiting, other⟩ := List.mem_filter.mp waiting
    rcases List.mem_append.mp mem with old | new
    · exact tidy.waits p waiting x old mine fed
    · cases List.mem_singleton.mp new
      rw [← mine] at other
      simp at other
  · unfold subscribe
    rw [List.length_append]
    exact Nat.le_add_right _ _
  · intro i x found _
    exact ⟨x, (List.getElem?_append_left (List.getElem?_eq_some_iff.mp found).1).trans found, rfl⟩

theorem receiverThere {order : List ChannelId} {queue : String} (tidy : s.Tidy)
    (listed : ∀ c, s.channelOpen c = true → c ∈ order) (none : s.receiver? order queue = none) :
    ∀ x ∈ s.streams, x.queue = queue → x.attached = true → x.dropped = true := by
  intro x mem mine fed
  refine Decidable.byContradiction fun reads => ?_
  have isOpen := tidy.fed x mem fed
  have live : x.live x.channel queue = true := by
    unfold Stream.live
    rw [fed, Bool.eq_false_iff.mpr reads, mine]
    simp
  have nobody := List.findSome?_eq_none_iff.mp none x.channel (listed _ isOpen)
  rw [if_pos isOpen] at nobody
  have unseen := List.findIdx?_eq_none_iff.mp nobody x mem
  rw [live] at unseen
  cases unseen

theorem carriesDispatch {order : List ChannelId} (listed : ∀ c, s.channelOpen c = true → c ∈ order)
    (queue : String) (d : Delivery) : Carries gone s (s.dispatch order queue d) := by
  unfold dispatch
  split
  · rename_i i _
    cases found : s.streams[i]? with
    | none =>
      exact carriesSame (List.modify_eq_self (List.getElem?_eq_none_iff.mp found)) rfl fun _ => id
    | some x =>
      exact carriesSet (y := x.put (.ok d)) found (modifyFound found) rfl rfl rfl rfl rfl id
        fun _ => rfl
  · rename_i none
    refine ⟨fun tidy => ⟨tidy.fed, ?_⟩, Nat.le_refl _, fun _ x found _ => ⟨x, found, rfl⟩⟩
    intro p waiting x mem mine fed
    rcases List.mem_append.mp waiting with old | new
    · exact tidy.waits p old x mem mine fed
    · cases List.mem_singleton.mp new
      exact receiverThere tidy listed none x mem mine fed

theorem carriesDeliver {order : List ChannelId} (listed : ∀ c, s.channelOpen c = true → c ∈ order)
    (queue : String) (make : Nat → Delivery) : Carries gone s (s.deliver order queue make).1 := by
  have arrived : Carries gone s (s.arrive make).1 := carriesSame rfl rfl fun _ => id
  exact carriesTrans arrived (carriesDispatch (s := (s.arrive make).1) listed queue _)

theorem carriesRoute {order : List ChannelId} (listed : ∀ c, s.channelOpen c = true → c ∈ order)
    (exchange key : String) (m : Envelope) : Carries gone s (s.route order exchange key m) := by
  unfold route
  generalize s.matching exchange key = bindings
  induction bindings generalizing s with
  | nil => exact carriesRefl s
  | cons b rest ih =>
    refine carriesTrans (carriesDeliver listed b.queue _) (ih fun c isOpen => listed c ?_)
    unfold channelOpen at isOpen ⊢
    rwa [(sameDeliver ..).channels] at isOpen

end Store

namespace Memory

variable {m : Memory} {gone : StreamId → Prop}

theorem newestListed (s : Store) (c : ChannelId) (isOpen : s.channelOpen c = true) :
    c ∈ newestFirst s :=
  List.mem_reverse.mpr (List.mem_range.mpr (Store.insideOfOpen (r := .channel) isOpen))

theorem carriesDeclare (c : ChannelId) (d : Declaration) :
    Store.Carries gone m.store (m.declare c d).1.store := by
  cases d with
  | exchange | queue => exact Store.carriesRefl _
  | bind b =>
    unfold declare
    dsimp only
    split
    · exact Store.carriesBind b m.store
    · exact Store.carriesRefl _

theorem carriesDial : Store.Carries gone m.store m.dial.1.store := by
  unfold dial
  dsimp only
  split
  · exact Store.carriesRefl _
  · exact Store.carriesOpenLink m.store

theorem carriesConsume (c : ChannelId) (queue : String) :
    Store.Carries gone m.store (m.consume c queue).1.store := by
  unfold consume
  split
  · rename_i isOpen
    exact Store.carriesSubscribe queue isOpen
  · exact Store.carriesRefl _

theorem consumed {n : Memory} {c : ChannelId} {queue : String} {i : StreamId}
    (answer : m.consume c queue = (n, .ok i)) : i = m.store.streams.length ∧
      ∃ x, n.store.streams[i]? = some x ∧ x.place = (c, queue, false) := by
  unfold consume at answer
  split at answer <;> cases answer
  refine ⟨rfl, _, List.getElem?_concat_length, rfl⟩

theorem carriesPublish (c : ChannelId) (exchange key : String) (e : Envelope) :
    Store.Carries gone m.store (m.publish c exchange key e).1.store := by
  unfold publish
  repeat' split
  all_goals
    first
      | exact Store.carriesRefl _
      | exact Store.carriesRoute (newestListed m.store) ..

theorem carriesKillChannel (n : Notice) : Store.Carries gone m.store (m.killChannel n).store := by
  unfold killChannel
  split
  · exact Store.carriesShutChannel ..
  · exact Store.carriesRefl _

theorem carriesKillConnection (reason : String) :
    Store.Carries gone m.store (m.killConnection reason).store := by
  have channel : Store.Carries gone m.store (m.killChannel .silent).store := carriesKillChannel _
  unfold killConnection
  dsimp only
  split
  · rename_i i _
    exact Store.carriesTrans channel (Store.carriesShutConnection i (.report reason) _)
  · exact channel

end Memory

def Commanded (m n : Memory) : Prop :=
  ∃ (command : Scenario.MemoryCommand) (e : Env Memory),
    e.broker = m ∧ (command.perform e).1.broker = n

theorem carriesCommand {m n : Memory} {gone : StreamId → Prop} (commanded : Commanded m n) :
    Store.Carries gone m.store n.store := by
  obtain ⟨command, e, rfl, rfl⟩ := commanded
  cases command with
  | failDials | refuse | failPublishes | stallPublishes => exact Store.carriesRefl _
  | killConnection reason => exact Memory.carriesKillConnection reason
  | killChannel reason => exact Memory.carriesKillChannel _
  | cancelConsumers =>
    change Store.Carries gone e.broker.store e.broker.cancelConsumers.store
    unfold Memory.cancelConsumers
    split
    · exact Store.carriesEndStreams ..
    · exact Store.carriesRefl _
  | deliver queue key body headers =>
    exact Store.carriesDeliver (Memory.newestListed e.broker.store) queue
      fun tag => Delivery.new tag "" key body headers
  | settle => exact Store.carriesSame rfl rfl fun _ => id

end AmqpClient.Broker
