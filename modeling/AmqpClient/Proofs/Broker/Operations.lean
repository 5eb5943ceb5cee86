import AmqpClient.Proofs.Broker.Placement
import AmqpClient.Proofs.Broker.Routing
import Mathlib.Data.List.Basic
/-! Everything that can be asked of a broker in memory, as one type of operations, and what each of
them does to the messages. A subscription takes the waiting messages of its queue with it, a message
that is new goes to one stream or waits, and everything else leaves them where they are. -/
namespace AmqpClient.Broker

namespace Store

structure Places (new : List (String × Delivery)) (s t : Store) : Prop where
  messages : t.messages.Perm (s.messages ++ new)
  waiting : t.pending.Sublist (s.pending ++ new)
  kept : ∀ (i : StreamId) (x : Stream), s.streams[i]? = some x →
    ∃ y more, t.streams[i]? = some y ∧ y.fed = x.fed ++ more ∧ more.Sublist new
  opened : ∀ (i : StreamId) (y : Stream), s.streams.length ≤ i → t.streams[i]? = some y →
    y.fed.Sublist (s.pending ++ new)

structure Still (s t : Store) : Prop where
  waiting : t.pending = s.pending
  fed : t.streams.map Stream.fed = s.streams.map Stream.fed
  lastTag : t.lastTag = s.lastTag
  bindings : t.bindings = s.bindings

variable {s t u : Store} {new more : List (String × Delivery)}

theorem placesSame (waiting : t.pending = s.pending)
    (fed : t.streams.map Stream.fed = s.streams.map Stream.fed) : Places [] s t where
  messages := by
    unfold messages
    rw [waiting, List.flatMap_def, fed, ← List.flatMap_def, List.append_nil]
  waiting := by rw [waiting, List.append_nil]
  kept i x found := by
    have there := congrArg (·[i]?) fed
    simp only [List.getElem?_map, found, Option.map_some] at there
    obtain ⟨y, here, fed⟩ := Option.map_eq_some_iff.mp there
    exact ⟨y, [], here, by rw [fed, List.append_nil], List.Sublist.refl _⟩
  opened i y outside found := by
    have inside := (List.getElem?_eq_some_iff.mp found).1
    have size := congrArg List.length fed
    rw [List.length_map, List.length_map] at size
    omega

theorem placesTrans (first : Places new s t) (second : Places more t u) :
    Places (new ++ more) s u where
  messages := by
    rw [← List.append_assoc]
    exact second.messages.trans (first.messages.append_right more)
  waiting := by
    rw [← List.append_assoc]
    exact second.waiting.trans (first.waiting.append_right more)
  kept i x found := by
    obtain ⟨y, early, there, fed, few⟩ := first.kept i x found
    obtain ⟨z, late, last, after, fewer⟩ := second.kept i y there
    exact ⟨z, early ++ late, last, by rw [after, fed, List.append_assoc], few.append fewer⟩
  opened i z outside found := by
    rw [← List.append_assoc]
    cases there : t.streams[i]? with
    | none =>
      -- the stream is newer than `t`
      have beyond : t.streams.length ≤ i := List.getElem?_eq_none_iff.mp there
      exact (second.opened i z beyond found).trans (first.waiting.append_right more)
    | some y =>
      obtain ⟨w, late, last, after, few⟩ := second.kept i y there
      cases found.symm.trans last
      rw [after]
      exact (first.opened i y outside there).append few

theorem stillRefl (s : Store) : Still s s := ⟨rfl, rfl, rfl, rfl⟩

theorem stillTrans (first : s.Still t) (second : t.Still u) : s.Still u :=
  ⟨second.waiting.trans first.waiting, second.fed.trans first.fed,
    second.lastTag.trans first.lastTag, second.bindings.trans first.bindings⟩

theorem stillWatchConnection (c : ConnectionId) (s : Store) : s.Still (s.watchConnection c).1 := by
  unfold watchConnection
  split <;> exact ⟨rfl, rfl, rfl, rfl⟩

theorem stillWatchChannel (c : ChannelId) (s : Store) : s.Still (s.watchChannel c).1 := by
  unfold watchChannel
  split <;> exact ⟨rfl, rfl, rfl, rfl⟩

theorem stillShutConnection (c : ConnectionId) (n : Notice) (s : Store) :
    s.Still (s.shutConnection c n) := by
  unfold shutConnection
  split <;> exact ⟨rfl, rfl, rfl, rfl⟩

theorem stillEndStreams (c : ChannelId) (s : Store) : s.Still (s.endStreams c) := by
  refine ⟨rfl, ?_, rfl, rfl⟩
  unfold endStreams
  rw [List.map_map]
  refine List.map_congr_left fun x _ => ?_
  change Stream.fed (if x.channel = c then _ else x) = x.fed
  split <;> rfl

theorem stillShutChannel (c : ChannelId) (n : Notice) (s : Store) : s.Still (s.shutChannel c n) := by
  unfold shutChannel
  split
  · exact stillRefl s
  · have ended := stillEndStreams c s
    exact ⟨ended.waiting, ended.fed, ended.lastTag, ended.bindings⟩

theorem fedSet {i : StreamId} {x y : Stream} (found : s.streams[i]? = some x) (same : y.fed = x.fed) :
    (s.streams.set i y).map Stream.fed = s.streams.map Stream.fed := by
  have fed : (s.streams.map Stream.fed)[i]? = some x.fed := by
    rw [List.getElem?_map, found, Option.map_some]
  obtain ⟨inside, here⟩ := List.getElem?_eq_some_iff.mp fed
  rw [List.map_set, same, ← here, List.set_getElem_self]

theorem stillPoll (i : StreamId) (s : Store) : s.Still (s.poll i).1 := by
  unfold poll
  split
  · exact stillRefl s
  · rename_i x found
    split
    · exact ⟨rfl, fedSet found rfl, rfl, rfl⟩
    · exact stillRefl s

theorem stillDropStream (i : StreamId) (s : Store) : s.Still (s.dropStream i) := by
  refine ⟨rfl, ?_, rfl, rfl⟩
  unfold dropStream
  cases found : s.streams[i]? with
  | none => rw [List.modify_eq_self (List.getElem?_eq_none_iff.mp found)]
  | some x =>
    rw [modifyFound found]
    exact fedSet found rfl

theorem placesSubscribe (c : ChannelId) (queue : String) (s : Store) :
    Places [] s (s.subscribe c queue).1 := by
  have moved : Stream.fed ⟨c, queue, true, false,
      (s.pending.filter fun p => p.1 == queue).map fun p => .ok p.2, 0⟩ =
        s.pending.filter fun p => p.1 == queue := by
    unfold Stream.fed
    rw [List.filterMap_map]
    refine (List.filterMap_congr fun p mem => ?_).trans List.filterMap_some
    obtain ⟨-, mine⟩ := List.mem_filter.mp mem
    cases beq_iff_eq.mp mine
    rfl
  refine ⟨?_, ?_, fun i x found => ?_, fun i y outside found => ?_⟩
  · unfold messages subscribe
    rw [List.flatMap_append, List.flatMap_singleton, moved, List.append_nil]
    have rest : (s.pending.filter fun p => p.1 != queue) =
        s.pending.filter fun p => !(p.1 == queue) := rfl
    rw [rest]
    have parts := List.filter_append_perm (fun p : String × Delivery => p.1 == queue) s.pending
    calc _ = _ := (List.append_assoc ..).symm
      List.Perm _ _ := List.perm_append_comm
      List.Perm _ _ := by
        rw [← List.append_assoc]
        exact parts.append_right _
  · rw [List.append_nil]
    exact List.filter_sublist
  · have inside := (List.getElem?_eq_some_iff.mp found).1
    exact ⟨x, [], (List.getElem?_append_left inside).trans found, (List.append_nil _).symm,
      List.Sublist.refl _⟩
  · unfold subscribe at found
    dsimp only at found
    rw [List.getElem?_append_right outside] at found
    cases List.mem_singleton.mp (List.mem_of_getElem? found)
    rw [moved, List.append_nil]
    exact List.filter_sublist

theorem placesDeliver {order : List ChannelId} (queue : String) (make : Nat → Delivery) (s : Store) :
    Places [(queue, make (s.lastTag + 1))] s (s.deliver order queue make).1 := by
  have received : s.Receives _ (s.deliver order queue make).1 := deliverReceives queue make s
  have dispatched : (s.deliver order queue make).1 =
    (s.arrive make).1.dispatch order queue (make (s.lastTag + 1)) := rfl
  refine ⟨received.messages, ?_, fun i x found => ?_, fun i y outside found => ?_⟩
  · rw [dispatched]
    unfold dispatch
    split
    · exact List.sublist_append_left ..
    · exact List.Sublist.refl _
  · rw [dispatched]
    unfold dispatch
    split
    · rename_i j chosen
      obtain ⟨y, there, rfl⟩ := receiverQueue chosen
      by_cases here : j = i
      · subst here
        cases found.symm.trans there
        refine ⟨x.put (.ok (make (s.lastTag + 1))), _, ?_, fedPut x _, List.Sublist.refl _⟩
        simp only [arrive, List.getElem?_modify, found, if_true, Option.map_eq_map, Option.map_some]
      · refine ⟨x, [], ?_, (List.append_nil _).symm, List.nil_sublist _⟩
        simp only [arrive, List.getElem?_modify, found, here, if_false, Option.map_eq_map,
          Option.map_some]
    · exact ⟨x, [], found, (List.append_nil _).symm, List.nil_sublist _⟩
  · have inside := (List.getElem?_eq_some_iff.mp found).1
    rw [received.size] at inside
    omega

theorem placesRoute {order : List ChannelId} (make : Nat → Delivery) (bindings : List Binding)
    (s : Store) : Places (deliveries make s.lastTag bindings) s
      (bindings.foldl (fun s b => (s.deliver order b.queue make).1) s) := by
  induction bindings generalizing s with
  | nil => exact placesSame rfl rfl
  | cons b rest ih =>
    have first : Places [(b.queue, make (s.lastTag + 1))] s (s.deliver order b.queue make).1 :=
      placesDeliver b.queue make s
    have received : s.Receives _ (s.deliver order b.queue make).1 := deliverReceives b.queue make s
    have later := ih (s.deliver order b.queue make).1
    rw [received.lastTag] at later
    exact placesTrans first later

theorem deliveriesNumbers {make : Nat → Delivery} (numbered : ∀ tag, (make tag).tag = tag) (last : Nat)
    (bindings : List Binding) : (deliveries make last bindings).map (fun p => p.2.tag) =
      List.range' (last + 1) (deliveries make last bindings).length := by
  induction bindings generalizing last with
  | nil => rfl
  | cons b rest ih =>
    rw [deliveries, List.map_cons, ih, List.length_cons, List.range'_succ, numbered]

theorem deliveriesQueues (make : Nat → Delivery) (last : Nat) (bindings : List Binding) :
    (deliveries make last bindings).map Prod.fst = bindings.map Binding.queue := by
  induction bindings generalizing last with
  | nil => rfl
  | cons b rest ih => rw [deliveries, List.map_cons, ih, List.map_cons]

theorem deliveriesAlike (make : Nat → Delivery) (last : Nat) (bindings : List Binding) :
    ∀ p ∈ deliveries make last bindings, ∃ tag, p.2 = make tag := by
  induction bindings generalizing last with
  | nil => exact fun p mem => by cases mem
  | cons b rest ih =>
    intro p mem
    rcases List.mem_cons.mp mem with rfl | later
    · exact ⟨last + 1, rfl⟩
    · exact ih (last + 1) p later

end Store

namespace Memory

theorem stillKillChannel (n : Notice) (m : Memory) : m.store.Still (m.killChannel n).store := by
  unfold killChannel
  split
  · exact Store.stillShutChannel ..
  · exact Store.stillRefl _

theorem stillKillConnection (reason : String) (m : Memory) :
    m.store.Still (m.killConnection reason).store := by
  have channel := stillKillChannel .silent m
  unfold killConnection
  dsimp only
  split
  · rename_i c _
    exact Store.stillTrans channel (Store.stillShutConnection c (.report reason) _)
  · exact channel

theorem stillCancelConsumers (m : Memory) : m.store.Still m.cancelConsumers.store := by
  unfold cancelConsumers
  split
  · exact Store.stillEndStreams ..
  · exact Store.stillRefl _

theorem stillDial (m : Memory) : m.store.Still m.dial.1.store := by
  unfold dial
  dsimp only
  split <;> exact ⟨rfl, rfl, rfl, rfl⟩

end Memory

inductive Operation where
  | dial
  | watchConnection (c : ConnectionId)
  | watchChannel (c : ChannelId)
  | declare (c : ChannelId) (d : Declaration)
  | consume (c : ChannelId) (queue : String)
  | poll (i : StreamId)
  | dropStream (i : StreamId)
  | publish (c : ChannelId) (exchange key : String) (e : Envelope)
  | closeChannel (c : ChannelId)
  | closeConnection (c : ConnectionId)
  | command (x : Scenario.MemoryCommand)

namespace Operation

def perform : Operation → Memory → Memory
  | dial, m => m.dial.1
  | watchConnection c, m => (Broker.watchConnection c m).1
  | watchChannel c, m => (Broker.watchChannel c m).1
  | declare c d, m => (m.declare c d).1
  | consume c queue, m => (m.consume c queue).1
  | poll i, m => (Broker.poll i m).1
  | dropStream i, m => Broker.dropStream i m
  | publish c exchange key e, m => (m.publish c exchange key e).1
  | closeChannel c, m => (Broker.closeChannel c m).1
  | closeConnection c, m => (Broker.closeConnection c m).1
  | command x, m => (x.perform { broker := m, wallClock := fun _ => 0 }).1.broker

def creates : Operation → Memory → List (String × Delivery)
  | publish c exchange key e, m =>
    if (m.publish c exchange key e).2.accepted then
      Store.deliveries (fun tag => Delivery.new tag exchange key e.body e.headers) m.store.lastTag
        (m.store.matching exchange key)
    else []
  | command (.deliver queue key body headers), m =>
    [(queue, Delivery.new (m.store.lastTag + 1) "" key body headers)]
  | _, _ => []

def aside : Operation → Memory → List Delivery
  | command (.settle exchange key body headers _), m => [(m.newDelivery exchange key body headers).2]
  | _, _ => []

def numbers (x : Operation) (m : Memory) : List Nat :=
  (x.creates m).map (fun p => p.2.tag) ++ (x.aside m).map Delivery.tag

def binds : Operation → Memory → List Binding
  | declare c (.bind b), m =>
    match (m.declare c (.bind b)).2 with
    | .ok () => [b]
    | .error _ => []
  | _, _ => []

end Operation

inductive Effect (m : Memory) :
    List (String × Delivery) → List Delivery → List Binding → Memory → Prop where
  | still {n} (same : m.store.Still n.store) : Effect m [] [] [] n
  | bind {n} (b : Binding) (left : n.store = m.store.bind b) : Effect m [] [] [b] n
  | subscribe {n} (c : ChannelId) (queue : String) (left : n.store = (m.store.subscribe c queue).1) :
      Effect m [] [] [] n
  | route {n} (exchange key : String) (e : Envelope) (order : List ChannelId)
      (left : n.store = m.store.route order exchange key e) :
      Effect m (Store.deliveries (fun tag => Delivery.new tag exchange key e.body e.headers)
        m.store.lastTag (m.store.matching exchange key)) [] [] n
  | deliver {n} (queue key : String) (body : Bytes) (headers : Header.Table) (order : List ChannelId)
      (left : n.store =
        (m.store.deliver order queue fun tag => Delivery.new tag "" key body headers).1) :
      Effect m [(queue, Delivery.new (m.store.lastTag + 1) "" key body headers)] [] [] n
  | number {n} (d : Delivery) (next : d.tag = m.store.lastTag + 1)
      (left : n.store = { m.store with lastTag := m.store.lastTag + 1 }) : Effect m [] [d] [] n

theorem Memory.publishEffect (c : ChannelId) (exchange key : String) (e : Envelope) (m : Memory) :
    Effect m ((Operation.publish c exchange key e).creates m) [] [] (m.publish c exchange key e).1 := by
  rw [Operation.creates]
  unfold publish
  split
  · exact .still (Store.stillRefl _)
  · split
    · exact .still (Store.stillRefl _)
    · split
      · exact .still (Store.stillRefl _)
      · exact .route exchange key e (newestFirst m.store) rfl

theorem Memory.declareEffect (c : ChannelId) (d : Declaration) (m : Memory) :
    Effect m [] [] ((Operation.declare c d).binds m) (m.declare c d).1 := by
  cases d with
  | exchange | queue => exact .still (Store.stillRefl _)
  | bind b =>
    unfold Operation.binds declare
    dsimp only
    cases m.accepts c b.queue with
    | ok => exact .bind b rfl
    | error => exact .still (Store.stillRefl _)

theorem operationEffect (x : Operation) (m : Memory) :
    Effect m (x.creates m) (x.aside m) (x.binds m) (x.perform m) := by
  cases x with
  | dial => exact .still (Memory.stillDial m)
  | watchConnection c => exact .still (Store.stillWatchConnection c m.store)
  | watchChannel c => exact .still (Store.stillWatchChannel c m.store)
  | declare c d => exact Memory.declareEffect c d m
  | consume c queue =>
    change Effect m [] [] [] (m.consume c queue).1
    unfold Memory.consume
    split
    · exact .subscribe c queue rfl
    · exact .still (Store.stillRefl _)
  | poll i => exact .still (Store.stillPoll i m.store)
  | dropStream i => exact .still (Store.stillDropStream i m.store)
  | publish c exchange key e => exact Memory.publishEffect c exchange key e m
  | closeChannel c => exact .still (Store.stillShutChannel c .silent m.store)
  | closeConnection c => exact .still (Store.stillShutConnection c .silent m.store)
  | command x =>
    cases x with
    | failDials | refuse | failPublishes | stallPublishes => exact .still (Store.stillRefl _)
    | killConnection reason => exact .still (Memory.stillKillConnection reason m)
    | killChannel reason => exact .still (Memory.stillKillChannel _ m)
    | cancelConsumers => exact .still (Memory.stillCancelConsumers m)
    | deliver queue key body headers => exact .deliver queue key body headers _ rfl
    | settle => exact .number _ rfl rfl

section

variable {m n : Memory} {new : List (String × Delivery)} {aside : List Delivery}
  {bound : List Binding}

theorem effectPlaces (effect : Effect m new aside bound n) : m.store.Places new n.store := by
  cases effect with
  | still same => exact Store.placesSame same.waiting same.fed
  | bind b left =>
    rw [left]
    unfold Store.bind
    split <;> exact Store.placesSame rfl rfl
  | subscribe c queue left => exact left ▸ Store.placesSubscribe c queue m.store
  | route exchange key e order left =>
    rw [left]
    exact Store.placesRoute ..
  | deliver queue key body headers order left =>
    rw [left]
    exact Store.placesDeliver queue (fun tag => Delivery.new tag "" key body headers) m.store
  | number d next left =>
    rw [left]
    exact Store.placesSame rfl rfl

theorem effectNumbers (effect : Effect m new aside bound n) : ∃ k,
    n.store.lastTag = m.store.lastTag + k ∧
      new.map (fun p => p.2.tag) ++ aside.map Delivery.tag =
        List.range' (m.store.lastTag + 1) k := by
  cases effect with
  | still same => exact ⟨0, same.lastTag, rfl⟩
  | bind b left =>
    refine ⟨0, ?_, rfl⟩
    rw [left]
    unfold Store.bind
    split <;> rfl
  | subscribe c queue left => exact ⟨0, left ▸ rfl, rfl⟩
  | route exchange key e order left =>
    have received : m.store.Receives _ (m.store.route order exchange key e) :=
      Store.routeReceives exchange key e m.store
    refine ⟨_, left ▸ received.lastTag, ?_⟩
    rw [List.map_nil, List.append_nil, Store.deliveriesNumbers fun _ => rfl]
  | deliver queue key body headers order left =>
    exact ⟨1, left ▸ Store.dispatchTag .., rfl⟩
  | number d next left =>
    refine ⟨1, left ▸ rfl, ?_⟩
    rw [List.map_nil, List.nil_append, List.map_singleton, next]
    rfl

theorem effectBound (effect : Effect m new aside bound n) :
    (bound = [] ∧ n.store.bindings = m.store.bindings) ∨
      ∃ b, bound = [b] ∧ n.store.bindings = (m.store.bind b).bindings := by
  cases effect with
  | still same => exact .inl ⟨rfl, same.bindings⟩
  | bind b left => exact .inr ⟨b, rfl, left ▸ rfl⟩
  | subscribe c queue left => exact .inl ⟨rfl, left ▸ rfl⟩
  | route exchange key e order left =>
    exact .inl ⟨rfl, left ▸ (Store.routeReceives exchange key e m.store).bindings⟩
  | deliver queue key body headers order left =>
    exact .inl ⟨rfl, left ▸ (Store.deliverReceives queue _ m.store).bindings⟩
  | number d next left => exact .inl ⟨rfl, left ▸ rfl⟩

theorem effectBindings (effect : Effect m new aside bound n) (b : Binding) :
    b ∈ n.store.bindings ↔ b ∈ m.store.bindings ∨ b ∈ bound := by
  obtain ⟨rfl, same⟩ | ⟨more, rfl, left⟩ := effectBound effect
  · simp [same]
  · rw [left]
    unfold Store.bind
    split
    · rename_i old
      refine ⟨.inl, fun either => either.elim id fun same => ?_⟩
      exact List.mem_singleton.mp same ▸ old
    · exact List.mem_append

theorem effectDistinct (effect : Effect m new aside bound n) (distinct : m.store.bindings.Nodup) :
    n.store.bindings.Nodup := by
  obtain ⟨-, same⟩ | ⟨more, -, left⟩ := effectBound effect
  · exact same ▸ distinct
  · rw [left]
    unfold Store.bind
    split
    · exact distinct
    · rename_i fresh
      exact List.nodup_append.mpr ⟨distinct, List.pairwise_singleton _ more,
        fun x old y last same => fresh (List.mem_singleton.mp last ▸ same ▸ old)⟩

end

end AmqpClient.Broker
