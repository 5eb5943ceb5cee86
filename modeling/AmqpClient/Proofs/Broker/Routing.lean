import AmqpClient.Proofs.Broker.Feed
/-! What a message that is published adds to the queues: one delivery for each binding it goes by, and
nothing else changes. A broker in memory that refuses a message, or does not answer, changes
nothing. -/
namespace AmqpClient.Broker

def Stream.fed (x : Stream) : List (String × Delivery) :=
  x.items.filterMap fun d => d.toOption.map (x.queue, ·)

namespace Store

def messages (s : Store) : List (String × Delivery) := s.pending ++ s.streams.flatMap Stream.fed

structure Receives (new : List (String × Delivery)) (s t : Store) : Prop where
  connections : t.connections = s.connections
  channels : t.channels = s.channels
  signals : t.signals = s.signals
  bindings : t.bindings = s.bindings
  lastTag : t.lastTag = s.lastTag + new.length
  pending : s.pending <+: t.pending
  size : t.streams.length = s.streams.length
  streams : ∀ (i : StreamId) (x : Stream), s.streams[i]? = some x →
    ∃ more, t.streams[i]? = some { x with items := x.items ++ more }
  messages : t.messages.Perm (s.messages ++ new)

variable {s t u : Store} {new more : List (String × Delivery)} {order : List ChannelId}

theorem receivesNone (s : Store) : s.Receives [] s where
  connections := rfl
  channels := rfl
  signals := rfl
  bindings := rfl
  lastTag := rfl
  pending := List.prefix_refl _
  size := rfl
  streams _ x found := ⟨[], by simpa using found⟩
  messages := by simp

theorem receivesMore (first : s.Receives new t) (second : t.Receives more u) :
    s.Receives (new ++ more) u where
  connections := second.connections.trans first.connections
  channels := second.channels.trans first.channels
  signals := second.signals.trans first.signals
  bindings := second.bindings.trans first.bindings
  lastTag := by rw [second.lastTag, first.lastTag, List.length_append, Nat.add_assoc]
  pending := first.pending.trans second.pending
  size := second.size.trans first.size
  streams i x found := by
    obtain ⟨early, there⟩ := first.streams i x found
    obtain ⟨late, last⟩ := second.streams i _ there
    exact ⟨early ++ late, by simpa using last⟩
  messages := by
    rw [← List.append_assoc]
    exact second.messages.trans (first.messages.append_right more)

theorem receiverQueue {queue : String} {i : StreamId} (found : s.receiver? order queue = some i) :
    ∃ x, s.streams[i]? = some x ∧ x.queue = queue := by
  obtain ⟨x, c, there, live⟩ := liveReceiver found
  unfold Stream.live at live
  simp only [Bool.and_eq_true, beq_iff_eq] at live
  exact ⟨x, there, live.2⟩

theorem fedPut (x : Stream) (d : Delivery) : (x.put (.ok d)).fed = x.fed ++ [(x.queue, d)] :=
  List.filterMap_append

theorem messagesPut {streams : List Stream} {i : Nat} {x : Stream} {d : Delivery}
    (found : streams[i]? = some x) :
    ((streams.modify i (Stream.put (.ok d))).flatMap Stream.fed).Perm
      (streams.flatMap Stream.fed ++ [(x.queue, d)]) := by
  induction streams generalizing i with
  | nil => cases found
  | cons y rest ih =>
    cases i with
    | zero =>
      cases found
      rw [List.modify_zero_cons, List.flatMap_cons, List.flatMap_cons, fedPut, List.append_assoc,
        List.append_assoc]
      exact List.perm_append_comm.append_left _
    | succ i =>
      rw [List.modify_succ_cons, List.flatMap_cons, List.flatMap_cons, List.append_assoc]
      exact (ih found).append_left _

theorem deliverReceives (queue : String) (make : Nat → Delivery) (s : Store) :
    s.Receives [(queue, make (s.lastTag + 1))] (s.deliver order queue make).1 := by
  change s.Receives _ ((s.arrive make).1.dispatch order queue (make (s.lastTag + 1)))
  unfold dispatch
  split
  · rename_i i found
    obtain ⟨x, there, rfl⟩ := receiverQueue found
    have there : s.streams[i]? = some x := there
    exact {
      connections := rfl
      channels := rfl
      signals := rfl
      bindings := rfl
      lastTag := rfl
      pending := List.prefix_refl _
      size := List.length_modify ..
      streams := fun j y old => by
        by_cases here : i = j
        · exact ⟨[.ok (make (s.lastTag + 1))], by simp [arrive, old, here, Stream.put]⟩
        · exact ⟨[], by simp [arrive, old, here]⟩
      messages := by
        unfold messages
        rw [List.append_assoc]
        exact (messagesPut there).append_left _ }
  · exact {
      connections := rfl
      channels := rfl
      signals := rfl
      bindings := rfl
      lastTag := rfl
      pending := List.prefix_append ..
      size := rfl
      streams := fun j y old => ⟨[], by simpa [arrive] using old⟩
      messages := by
        unfold messages
        rw [List.append_assoc, List.append_assoc]
        exact List.perm_append_comm.append_left _ }

def deliveries (make : Nat → Delivery) : Nat → List Binding → List (String × Delivery)
  | _, [] => []
  | last, b :: rest => (b.queue, make (last + 1)) :: deliveries make (last + 1) rest

theorem foldReceives (make : Nat → Delivery) (bindings : List Binding) (s : Store) :
    s.Receives (deliveries make s.lastTag bindings)
      (bindings.foldl (fun s b => (s.deliver order b.queue make).1) s) := by
  induction bindings generalizing s with
  | nil => exact receivesNone s
  | cons b rest ih =>
    have first : s.Receives [(b.queue, make (s.lastTag + 1))] (s.deliver order b.queue make).1 :=
      deliverReceives b.queue make s
    have later := ih (s.deliver order b.queue make).1
    rw [first.lastTag] at later
    exact receivesMore first later

theorem routeReceives (exchange key : String) (m : Envelope) (s : Store) :
    s.Receives (deliveries (fun tag => Delivery.new tag exchange key m.body m.headers) s.lastTag
      (s.matching exchange key)) (s.route order exchange key m) :=
  foldReceives _ _ s

end Store

namespace Memory

inductive Published (exchange key : String) (e : Envelope) (m : Memory) : Memory × Reply → Prop where
  | taken {t : Store}
      (receives : m.store.Receives (Store.deliveries
        (fun tag => Delivery.new tag exchange key e.body e.headers) m.store.lastTag
        (m.store.matching exchange key)) t) :
      Published exchange key e m ({ m with store := t }, .after 0 (.ok ()))
  | refused (x : Error) : Published exchange key e m (m, .after 0 (.error x))
  | unanswered : Published exchange key e m (m, .never)

theorem publishOutcome (c : ChannelId) (exchange key : String) (e : Envelope) (m : Memory) :
    Published exchange key e m (m.publish c exchange key e) := by
  unfold publish
  split
  · exact .refused _
  · split
    · exact .refused _
    · split
      · exact .unanswered
      · exact .taken (Store.routeReceives exchange key e m.store)

end Memory

end AmqpClient.Broker
