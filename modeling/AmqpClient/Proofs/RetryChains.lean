import AmqpClient.Proofs.Broker.Placement
import AmqpClient.Proofs.Consumer.Failing
/-! A message that fails again and again. Each time its copy is published and delivered in its place,
and each copy is the message it was, with a new identity and the three headers that tell of the
failure: whatever else the first one said, and whatever it said under those three names, the trace
it belongs to is found in all of them. -/
namespace AmqpClient

open Broker (Memory Store)

namespace Retry

def SameBut (h table : Header.Table) : Prop :=
  ∀ key, key ≠ countHeader → key ≠ errorHeader → key ≠ timeHeader →
    Assoc.find? key table = Assoc.find? key h

theorem sameParent {h table : Header.Table} (same : SameBut h table) :
    Trace.extract? table Trace.parentHeader = Trace.extract? h Trace.parentHeader := by
  unfold Trace.extract?
  rw [same _ (by decide) (by decide) (by decide)]

structure Again (first : Delivery) (n : Nat) (d : Delivery) : Prop where
  body : d.body = first.body
  same : SameBut first.headers d.headers
  counted : (count d.headers).toNat = min ((count first.headers).toNat + n) maxCount

structure CopyAfter (first : Delivery) (n : Nat) (failure : String) (unix : Int) (m : Envelope) :
    Prop where
  body : m.body = first.body
  contentType : m.contentType = "application/json"
  persistent : m.deliveryMode = 2
  same : SameBut first.headers m.headers
  counted : ∃ c, Assoc.find? countHeader m.headers = some (.longInt c) ∧
    c.toInt = min ((count first.headers).toNat + n) (Nat.pow 2 31 - 1)
  error : Assoc.find? errorHeader m.headers = some (.text failure)
  time : Assoc.find? timeHeader m.headers = some (.longLongInt (Int64.ofInt unix))
  parent : Trace.extract? m.headers Trace.parentHeader =
    Trace.extract? first.headers Trace.parentHeader

variable {first d : Delivery} {n : Nat} {failure : String} {unix : Int} {m : Envelope}

theorem againFirst (d : Delivery) : Again d 0 d where
  body := rfl
  same _ _ _ _ := rfl
  counted := (Nat.min_eq_left (countCapped d.headers)).symm

theorem copyHeader (d : Delivery) (failure : String) (unix : Int) (key : String) :
    Assoc.find? key (Consumer.copyHeaders d failure unix) =
      if key = countHeader then some (.longInt (counter (next (count d.headers))))
      else if key = timeHeader then some (.longLongInt (Int64.ofInt unix))
      else if key = errorHeader then some (.text failure)
      else Assoc.find? key d.headers := by
  unfold Consumer.copyHeaders Assoc.insertAll
  rw [headersList]
  simp only [List.foldl_cons, List.foldl_nil, Assoc.findInsert]

theorem copyAfterAgain (again : Again first n d) (id failure : String) (unix : Int) :
    CopyAfter first (n + 1) failure unix
      (Envelope.json id d.body (some (Consumer.copyHeaders d failure unix))) := by
  have same : SameBut first.headers (Consumer.copyHeaders d failure unix) := by
    intro key notCount notError notTime
    rw [copyHeader, if_neg notCount, if_neg notTime, if_neg notError]
    exact again.same key notCount notError notTime
  refine ⟨again.body, rfl, rfl, same, ⟨_, copyHeader .., ?_⟩, copyHeader .., copyHeader ..,
    sameParent same⟩
  have counted := again.counted
  have limit : maxCount = Nat.pow 2 31 - 1 := rfl
  rw [counterCapped, nextCounted]
  omega

theorem againCopy (copy : CopyAfter first n failure unix m) (tag : Nat) (exchange key : String) :
    Again first n (Delivery.new tag exchange key m.body m.headers) where
  body := copy.body
  same := copy.same
  counted := by
    obtain ⟨c, found, value⟩ := copy.counted
    exact countOfLong found value

end Retry

namespace Broker.Store

def Has (d : Delivery) (s : Store) : Prop :=
  (∃ queue, (queue, d) ∈ s.pending) ∨ ∃ x ∈ s.streams, .ok d ∈ x.items

variable {s t : Store} {d : Delivery}

theorem hasDispatch {order : List ChannelId} {queue : String} {new : Delivery}
    (has : (s.dispatch order queue new).Has d) : s.Has d ∨ d = new := by
  unfold dispatch at has
  split at has
  · rcases has with pending | ⟨x, mem, inside⟩
    · exact .inl (.inl pending)
    · obtain ⟨n, there⟩ := List.getElem?_of_mem mem
      rw [List.getElem?_modify] at there
      obtain ⟨y, old, same⟩ := Option.map_eq_some_iff.mp there
      have before := List.mem_of_getElem? old
      split at same <;> subst same
      · rcases List.mem_append.mp inside with inside | last
        · exact .inl (.inr ⟨y, before, inside⟩)
        · cases List.mem_singleton.mp last
          exact .inr rfl
      · exact .inl (.inr ⟨y, before, inside⟩)
  · rcases has with ⟨queue, mem⟩ | streams
    · rcases List.mem_append.mp mem with old | last
      · exact .inl (.inl ⟨queue, old⟩)
      · cases List.mem_singleton.mp last
        exact .inr rfl
    · exact .inl (.inr streams)

theorem hasDeliver {order : List ChannelId} {queue : String} {make : Nat → Delivery}
    (has : (s.deliver order queue make).1.Has d) : s.Has d ∨ ∃ tag, d = make tag :=
  (hasDispatch (s := (s.arrive make).1) has).imp_right fun same => ⟨_, same⟩

theorem hasRoute {order : List ChannelId} {exchange key : String} {m : Envelope}
    (has : (s.route order exchange key m).Has d) :
    s.Has d ∨ ∃ tag, d = Delivery.new tag exchange key m.body m.headers := by
  unfold route at has
  generalize s.matching exchange key = bindings at has
  induction bindings generalizing s with
  | nil => exact .inl has
  | cons b rest ih =>
    rcases ih has with earlier | new
    · exact hasDeliver earlier
    · exact .inr new

def tags (s : Store) : List Nat :=
  s.pending.map (fun p => p.2.tag) ++ s.streams.flatMap fun x => x.items.filterMap tag?

theorem hasTag (has : s.Has d) : d.tag ∈ s.tags := by
  rcases has with ⟨queue, waits⟩ | ⟨x, mem, inside⟩
  · exact List.mem_append_left _ (List.mem_map_of_mem (f := fun p => p.2.tag) waits)
  · exact List.mem_append_right _
      (List.mem_flatMap.mpr ⟨x, mem, List.mem_filterMap.mpr ⟨_, inside, rfl⟩⟩)

end Broker.Store

theorem Broker.Memory.hasPublish {c : ChannelId} {exchange key : String} {m : Envelope}
    {b : Memory} {d : Delivery} (has : (b.publish c exchange key m).1.store.Has d) :
    b.store.Has d ∨ ∃ tag, d = Delivery.new tag exchange key m.body m.headers := by
  unfold publish at has
  repeat' split at has
  all_goals
    first
      | exact .inl has
      | exact Store.hasRoute has

namespace Consumer

variable {β : Type} [Broker β] {e f : Env β} {s : Supervisor} {k m : Consumer} {i : Nat}
  {x : Worker}

def Worker.Traced (x : Worker) : Prop :=
  x.span.parent = Trace.extract? x.delivery.headers Trace.parentHeader

theorem parentNoted (notes : List Trace.Note) (x : Worker) :
    (notes.foldl (fun y n => y.note n) x).span.parent = x.span.parent := by
  induction notes generalizing x with
  | nil => rfl
  | cons n rest ih => exact ih (x.note n)

theorem tracedWorker (traced : ∀ y ∈ k.workers, y.Traced) (found : k.workers[i]? = some x)
    (move : WorkerMove i e k x f m) : ∀ y ∈ m.workers, y.Traced := by
  have mine := traced x (List.mem_of_getElem? found)
  have along {y : Worker} (workers : m.workers = k.workers.set i y)
      (delivery : y.delivery = x.delivery) (parent : y.span.parent = x.span.parent) :
      ∀ y ∈ m.workers, y.Traced := by
    rw [workers]
    refine allSet traced ?_
    unfold Worker.Traced
    rw [parent, delivery]
    exact mine
  cases move with
  | settle => exact along rfl (deliveryNoted _ x) (parentNoted _ x)
  | _ => exact along rfl rfl rfl

theorem tracedLoop {l : Loop} (traced : ∀ y ∈ k.workers, y.Traced)
    (move : LoopMove i s e k l f m) : ∀ y ∈ m.workers, y.Traced := by
  rcases (loopFrame move).workers with same | ⟨d, c, more⟩
  · exact same ▸ traced
  · rw [more]
    exact allMore traced rfl

end Consumer

namespace World

inductive Spot where
  | worker (i j : Nat)
  | copy (i r : Nat) (failure : String) (unix : Int)

/-- A message on its way through so many failures. From a worker whose handler fails it goes to the
task that is given the copy, and from a task that publishes it to any worker that is given a
delivery which this brings to the broker. -/
inductive Chain (outside : Memory → Memory → Prop) (first : Delivery) :
    Nat → World Memory → Spot → Prop where
  | original {w i j x} (reached : Reachable outside w) (there : w.workerAt i j = some x)
      (given : x.delivery = first) : Chain outside first 0 w (.worker i j)
  | failed {n w v u i j r failure} (before : Chain outside first n w (.worker i j))
      (later : Run (Use outside) w v) (fails : Fails outside i j r failure v u) :
      Chain outside first (n + 1) u (.copy i r failure v.env.unix)
  | redelivered {n w v v' u i i' j r q x a ch failure unix p}
      (before : Chain outside first n w (.copy i r failure unix))
      (later : Run (Use outside) w v) (there : v.retryAt i r = some q)
      (sends : q.phase = .sending a ch) (published : v.step (.client i (.retry r)) p = some v')
      (old : ¬ v.env.broker.store.Has x.delivery) (new : v'.env.broker.store.Has x.delivery)
      (meanwhile : Run (Use outside) v' u) (given : u.workerAt i' j = some x) :
      Chain outside first n u (.worker i' j)

def Publishes {β : Type} [Broker β] (outside : β → β → Prop) (i r : Nat) (m : Envelope)
    (w : World β) : Prop :=
  ∀ v u c q a ch preferStop, Run (Use outside) w v → v.clients[i]? = some c →
    v.retryAt i r = some q → q.phase = .sending a ch →
    v.step (.client i (.retry r)) preferStop = some u →
    ∃ reply, u.env.journal = ⟨v.env.now, .published ch c.supervisor.topology.exchangeName
      c.supervisor.topology.routingKey m reply⟩ :: v.env.journal

def Spot.Holds (outside : Memory → Memory → Prop) (first : Delivery) (n : Nat) (w : World Memory) :
    Spot → Prop
  | .worker i j => ∃ x, w.workerAt i j = some x ∧ Retry.Again first n x.delivery ∧
      x.span.parent = Trace.extract? first.headers Trace.parentHeader
  | .copy i r failure unix => ∃ q, w.retryAt i r = some q ∧
      Retry.CopyAfter first n failure unix q.envelope ∧ Publishes outside i r q.envelope w

variable {β : Type} [Broker β] {outside : β → β → Prop} {w v : World β} {i j : Nat}
  {x y : Consumer.Worker} {r : Consumer.RetryTask}

theorem tracedReachable (reached : Reachable outside w) (there : w.workerAt i j = some x) :
    x.Traced := by
  obtain ⟨k, here, found⟩ := Option.bind_eq_some_iff.mp there
  obtain ⟨c, was, role⟩ := consumerAtIff.mp here
  refine reachableWorkers (P := fun _ k => ∀ y ∈ k.workers, y.Traced) ?_ ?_ ?_ ?_ reached was role
    x (List.mem_of_getElem? found)
  · intro e k none y mem
    rw [none] at mem
    cases mem
  · intro i e k f m traced made
    obtain ⟨y, found, move⟩ := Consumer.workerMove made
    exact Consumer.tracedWorker traced found move
  · exact fun _ _ _ _ _ _ _ traced move => Consumer.tracedLoop traced move
  · exact fun _ _ _ _ traced workers _ => workers ▸ traced

theorem publishesCopy (there : w.retryAt i j = some r) : Publishes outside i j r.envelope w := by
  intro v u c q a ch preferStop run client found sends made
  obtain ⟨q', found', same⟩ := retryLater run there
  cases found.symm.trans found'
  obtain ⟨c', client', published⟩ := retrySends found sends made
  cases client.symm.trans client'
  exact ⟨_, by rw [published, same]; rfl⟩

variable {outside : Memory → Memory → Prop} {first : Delivery} {n : Nat} {w : World Memory}
  {spot : Spot}

theorem chainReachable (chain : Chain outside first n w spot) : Reachable outside w := by
  induction chain with
  | original reached => exact reached
  | failed _ later fails ih => exact reachableRun (reachableRun ih later) (failsCopy fails).1
  | redelivered _ later _ _ published _ _ meanwhile _ ih =>
    exact reachableRun (reachableNext (reachableRun ih later) (.act ⟨_, _, published⟩)) meanwhile

/-- However often a message fails, every copy of it and every delivery of a copy is the message it
was but for the headers of the failure, and belongs to the same trace. -/
theorem retriedUnchanged (chain : Chain outside first n w spot) :
    spot.Holds outside first n w := by
  have reached := chainReachable chain
  induction chain with
  | @original w i j x _ there given =>
    subst given
    exact ⟨x, there, Retry.againFirst _, tracedReachable reached there⟩
  | @failed n w v u i j r failure before later fails ih =>
    obtain ⟨x, there, again, -⟩ := ih (chainReachable before)
    obtain ⟨y, now, kept⟩ := workerLater later there
    obtain ⟨-, -, z, k, id, found, -, copied⟩ := failsCopy fails
    cases now.symm.trans found
    exact ⟨_, copied, Retry.copyAfterAgain (kept.symm ▸ again) .., publishesCopy copied⟩
  | @redelivered n w v v' u i i' j r q x a ch failure unix p before later there sends published
      old new meanwhile given ih =>
    obtain ⟨q', there', copy, -⟩ := ih (chainReachable before)
    obtain ⟨z, now, kept⟩ := retryLater later there'
    cases there.symm.trans now
    obtain ⟨c, -, made⟩ := retrySends there sends published
    rw [made] at new
    obtain ⟨tag, same⟩ := (Broker.Memory.hasPublish new).resolve_left old
    have again : Retry.Again first n x.delivery := same ▸ kept.symm ▸ Retry.againCopy copy ..
    exact ⟨x, given, again, (tracedReachable reached given).trans (Retry.sameParent again.same)⟩

def resending (r : Nat) (t : Instant) (w : World Memory) : World Memory :=
  (drive (.client 0 (.retry r)) 3 false (w.settle.advance t)).2

def rejectingAgain : World Memory :=
  (next (.client 0 (.retry 0)) (resending 0 2005 (rejectedOnce {}))).settle

def rejectedTwice : World Memory := rejected 1 2010 rejectingAgain

theorem markedChained : Chain (fun _ _ => True) marked 2 rejectedTwice
    (.copy 0 1 "rejected" 1700000002) := by
  have acts {w v : World Memory} (run : Run Acts w v) : Run (Use fun _ _ => True) w v :=
    run.map fun _ _ => .act
  have first : Chain (fun _ _ => True) marked 0 (rejecting {}) (.worker 0 0) :=
    .original (rejectingReached (by decide +kernel)) rfl rfl
  have once : Chain (fun _ _ => True) marked 1 (rejectedOnce {})
      (.copy 0 0 "rejected" 1700000000) :=
    .failed first (.single (.time (rejecting {}) (Nat.zero_le 5))) rejectedFails
  have waited : Run (Use fun _ _ => True) (rejectedOnce {}) (resending 0 2005 (rejectedOnce {})) :=
    ((acts (settleActs _)).next (.time _ (by decide +kernel))).trans (acts (driveActs ..))
  have again : Chain (fun _ _ => True) marked 1 rejectingAgain (.worker 0 1) :=
    .redelivered once waited rfl rfl (nextStep (by decide +kernel))
      (fun has => absurd (Store.hasTag has) (by decide +kernel))
      (.inr ⟨_, List.mem_cons_self, List.mem_of_getElem? (i := 1) rfl⟩) (acts (settleActs _)) rfl
  exact .failed again (.single (.time rejectingAgain (by decide +kernel)))
    (.scheduled rfl rfl (nextStep (by decide +kernel)) (.refl _) rfl rfl rfl
      (nextStep (by decide +kernel)))

theorem markedUnchanged : ∃ q, rejectedTwice.retryAt 0 1 = some q ∧
    Retry.CopyAfter marked 2 "rejected" 1700000002 q.envelope ∧
    Publishes (fun _ _ => True) 0 1 q.envelope rejectedTwice :=
  retriedUnchanged markedChained

end World

end AmqpClient
