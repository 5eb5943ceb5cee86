import AmqpClient.Proofs.Consumer.Load
/-! Every step of a consumer at work keeps its books. -/
namespace AmqpClient

open Broker (Memory Store)
open Consumer

namespace Desk

variable {x : Desk} {e f : Env Memory} {since : List Entry} {unread : List Delivery}
  {k l : Consumer} {announced i : Nat} {now : Instant}

theorem sameOfTag {ds : List Delivery} (distinct : (ds.map Delivery.tag).Nodup) {c d : Delivery}
    (first : c ∈ ds) (second : d ∈ ds) (same : c.tag = d.tag) : c = d := by
  induction ds with
  | nil => cases first
  | cons y rest ih =>
    obtain ⟨fresh, distinct⟩ := List.nodup_cons.mp distinct
    rcases List.mem_cons.mp first with one | here
    · rcases List.mem_cons.mp second with two | there
      · exact one.trans two.symm
      · exact absurd (List.mem_map.mpr ⟨d, there, by rw [← same, one]⟩) fresh
    · rcases List.mem_cons.mp second with two | there
      · exact absurd (List.mem_map.mpr ⟨c, here, by rw [same, two]⟩) fresh
      · exact ih distinct here there

theorem foundByTag (books : x.Books e since unread k) {d : Delivery} (mem : d ∈ k.received) :
    (k.received.find? fun c => c.tag == d.tag) = some d := by
  have distinct : (k.received.map Delivery.tag).Nodup := by
    have all := books.distinct
    unfold Consumer.tags at all
    rw [List.map_append] at all
    exact (List.nodup_append.mp all).1
  have some_ : (k.received.find? fun c => c.tag == d.tag).isSome = true :=
    List.find?_isSome.mpr ⟨d, mem, beq_self_eq_true _⟩
  obtain ⟨c, found⟩ := Option.isSome_iff_exists.mp some_
  have same := List.find?_some found
  rw [found, sameOfTag distinct (List.mem_of_find?_eq_some found) mem (beq_iff_eq.mp same)]

theorem receivedSet {y z : Worker} (found : k.workers[i]? = some y)
    (same : z.delivery = y.delivery) (workers : l.workers = k.workers.set i z) :
    l.received = k.received := by
  have inside : i < k.workers.length := (List.getElem?_eq_some_iff.mp found).1
  unfold Consumer.received
  rw [workers, List.map_set, same]
  refine List.ext_getElem? fun j => ?_
  by_cases here : i = j
  · subst here
    rw [List.getElem?_set_self (by rw [List.length_map]; exact inside), List.getElem?_map, found]
    rfl
  · rw [List.getElem?_set_ne here]

theorem handSame (loops : l.loops = k.loops) : l.hand = k.hand := by
  unfold Consumer.hand
  rw [loops]

theorem subscribedSame (loops : l.loops = k.loops) : l.subscribed = k.subscribed := by
  unfold Consumer.subscribed
  rw [loops]

structure Goes (i : Nat) (k : Consumer) (z : Worker) (more : List RetryTask) (l : Consumer) :
    Prop where
  workers : l.workers = k.workers.set i z
  retries : l.retries = k.retries ++ more
  loops : l.loops = k.loops
  retry : l.retry = k.retry
  handler : l.handler = k.handler
  stopped : l.stopped = k.stopped

theorem goesSet (z : Worker) : Goes i k z [] (k.setWorker i z) :=
  ⟨rfl, (List.append_nil _).symm, rfl, rfl, rfl, rfl⟩

theorem servingGoes {y z : Worker} {more : List RetryTask} (goes : Goes i k z more l)
    (serving : k.Serving x now announced) (found : k.workers[i]? = some y)
    (steady : z.Steady x now) (waits : ∀ r ∈ more, r.Steady x now)
    (permitted : l.permits + (if !z.phase.finished then 1 else 0) =
      k.permits + if !y.phase.finished then 1 else 0) : l.Serving x now announced where
  policy := goes.retry.trans serving.policy
  handler := by rw [goes.handler]; exact serving.handler
  running := goes.stopped.trans serving.running
  loop := by rw [goes.loops]; exact serving.loop
  permitted := by
    have before := serving.permitted
    have changed := countSet (p := fun y => !y.phase.finished) (y := z) found
    rw [goes.workers]
    omega
  workers u mem := by
    rw [goes.workers] at mem
    rcases memSet found mem with rfl | ⟨j, -, old⟩
    · exact steady
    · exact serving.workers u (List.mem_of_getElem? old)
  retries r mem := by
    rw [goes.retries] at mem
    rcases List.mem_append.mp mem with old | new
    · exact serving.retries r old
    · exact waits r new

theorem booksGoes {y z : Worker} {more : List RetryTask} {new : List Entry}
    (goes : Goes i k z more l) (books : x.Books e since unread k)
    (found : k.workers[i]? = some y) (same : z.delivery = y.delivery)
    (broker : f.broker = e.broker) (now : f.now = e.now)
    (own : ∀ a ∈ new, a.time = e.now ∧
      ∀ c tag s o, a.fact = .settled c tag s o → tag = y.delivery.tag)
    (delta : ∀ a, (x.events k.received new).count a + (z.future x e.now).count a +
      total (fun r => (r.future x e.now).count a) more =
        (y.future x e.now).count a + total (fun p => (x.fate p).count a) (x.posted new)) :
    x.Books f (new ++ since) unread l := by
  have received := receivedSet found same goes.workers
  have hand := handSame goes.loops
  have tags : l.tags unread = k.tags unread := by
    unfold Consumer.tags
    rw [received, hand]
  refine booksStep books now (by rw [broker, subscribedSame goes.loops]; exact books.feeds)
    (by rw [broker]; exact books.accepting) (by rw [tags]; exact books.distinct)
    (by rw [tags, broker]; exact books.numbered) ⟨[], by rw [received, List.append_nil]⟩ ?_
    (fun a mem => (own a mem).1) ?_
  · intro a mem c tag s o fact
    rw [received, (own a mem).2 c tag s o fact]
    exact ⟨y.delivery, List.mem_map.mpr ⟨y, List.mem_of_getElem? found, rfl⟩, rfl⟩
  · intro a
    have changed := totalSet (f := fun y => (y.future x e.now).count a) (y := z) found
    have step := delta a
    unfold Consumer.pending
    simp only [received, hand, goes.workers, goes.retries, totalAppend]
    omega

theorem failsOf {d : Delivery} {failure : String}
    (outcome : x.outcome d.body (Retry.count d.headers) = .error failure) :
    x.fails d.body d.attempts = true := by
  unfold fails Delivery.attempts
  rw [UInt32.ofNat_toNat, outcome]

theorem succeedsOf {d : Delivery}
    (outcome : x.outcome d.body (Retry.count d.headers) = .ok ()) :
    x.fails d.body d.attempts = false := by
  unfold fails Delivery.attempts
  rw [UInt32.ofNat_toNat, outcome]

theorem waitOf (d : Delivery) :
    x.wait d.attempts = (Retry.delay (Retry.count d.headers) x.policy).milliseconds := by
  unfold wait Delivery.attempts
  rw [UInt32.ofNat_toNat]

theorem wakeExact (exact_ : x.Exact) {d : Delivery} (left : d.attempts < x.policy.maxRetries.toNat)
    (now : Instant) : Instant.wake now (Retry.delay (Retry.count d.headers) x.policy) =
      now + x.wait d.attempts := by
  have timed := exact_.timed d.attempts left
  rw [waitOf] at timed ⊢
  unfold Instant.wake Instant.afterSleep
  rw [Nat.min_eq_left timed]

theorem loadGoes {y z : Worker} {more : List RetryTask} (goes : Goes i k z more l)
    (found : k.workers[i]? = some y)
    (less : z.load x + total (RetryTask.load x) more < y.load x) :
    l.load x unread < k.load x unread := by
  have changed := totalSet (f := Worker.load x) (y := z) found
  unfold Consumer.load
  rw [handSame goes.loops, goes.loops, goes.workers, goes.retries, totalAppend]
  omega

theorem ownEntry {y : Worker} {fact : Fact} (other : ∀ c tag s o, fact ≠ .settled c tag s o) :
    ∀ a ∈ [(⟨e.now, fact⟩ : Entry)], a.time = e.now ∧
      ∀ c tag s o, a.fact = .settled c tag s o → tag = y.delivery.tag := by
  intro a mem
  cases List.mem_singleton.mp mem
  exact ⟨rfl, fun c tag s o same => absurd same (other c tag s o)⟩

theorem booksWorker {y : Worker} (exact_ : x.Exact) (books : x.Books e since unread k)
    (serving : k.Serving x e.now announced) (found : k.workers[i]? = some y)
    (move : WorkerMove i e k y f l) :
    ∃ new, f.journal = new ++ e.journal ∧ x.Books f (new ++ since) unread l ∧
      l.Serving x e.now announced ∧ l.load x unread < k.load x unread := by
  have steady := serving.workers y (List.mem_of_getElem? found)
  unfold Worker.Steady at steady
  cases move with
  | refuse here spent =>
    have spent : x.policy.maxRetries.toNat ≤ y.delivery.attempts := by
      rw [← serving.policy]
      exact UInt32.le_iff_toNat_le.mp spent
    let z := (y.note (.failed "retry budget exhausted")).goto
      (.settling (.reject false) .deadLettered)
    have goes := goesSet (k := k) (i := i) z
    refine ⟨[], rfl, booksGoes goes books found rfl rfl rfl ?_ fun a => ?_,
      servingGoes goes serving found trivial (fun r mem => by cases mem) ?_, loadGoes goes found ?_⟩
    · intro a mem
      cases mem
    · simp only [Worker.future, here, z, Worker.goto, Worker.note, dueSpent spent, events, posted,
        List.filterMap_nil, List.count_nil, total]
      omega
    · simp only [here, z, Worker.goto, Worker.note, WorkerPhase.finished]
      rfl
    · simp only [Worker.load, here, z, Worker.goto, Worker.note, total]
      omega
  | handle here left =>
    have left : y.delivery.attempts < x.policy.maxRetries.toNat := by
      rw [← serving.policy]
      exact UInt32.lt_iff_toNat_lt.mp (UInt32.not_le.mp left)
    let run := k.handler k.handled y.delivery
    have answer : run = ⟨0, x.outcome y.delivery.body (Retry.count y.delivery.headers)⟩ :=
      serving.handler _ _
    let z := y.goto (.handling (Instant.afterSleep e.now run.takes) run.result)
    have steady : z.Steady x e.now := by
      refine ⟨?_, left, ?_⟩
      · rw [answer]
        exact Nat.add_zero e.now
      · rw [answer]
        rfl
    have goes : Goes i k z [] { k.setWorker i z with handled := y.delivery :: k.handled } :=
      ⟨rfl, (List.append_nil _).symm, rfl, rfl, rfl, rfl⟩
    refine ⟨[⟨e.now, .handling y.delivery⟩], rfl,
      booksGoes goes books found rfl rfl rfl (ownEntry (by simp)) fun a => ?_,
      servingGoes goes serving found steady (fun r mem => by cases mem) ?_, loadGoes goes found ?_⟩
    · simp only [Worker.future, here, z, Worker.goto, dueNext left, events, event?, posted, posted?,
        List.filterMap_cons, List.filterMap_nil, total, List.count_cons, List.count_nil]
      omega
    · simp only [here, z, Worker.goto, WorkerPhase.finished]
      rfl
    · simp only [Worker.load, here, z, Worker.goto, total]
      omega
  | succeed here due =>
    simp only [here] at steady
    obtain ⟨-, left, answer⟩ := steady
    let z := y.goto (.settling .ack .acked)
    have goes := goesSet (k := k) (i := i) z
    refine ⟨[⟨e.now, .handled y.delivery.tag true⟩], rfl,
      booksGoes goes books found rfl rfl rfl (ownEntry (by simp)) fun a => ?_,
      servingGoes goes serving found trivial (fun r mem => by cases mem) ?_, loadGoes goes found ?_⟩
    · simp only [Worker.future, here, z, Worker.goto, sequel, succeedsOf answer.symm, events, event?,
        posted, posted?, List.filterMap_cons, List.filterMap_nil, total, Bool.false_eq_true, if_false,
        List.count_nil, Nat.zero_add]
    · simp only [here, z, Worker.goto, WorkerPhase.finished]
      rfl
    · have more := loadNext left
      simp only [Worker.load, here, z, Worker.goto, total]
      omega
  | fail here due =>
    rename_i ends failure
    simp only [here] at steady
    obtain ⟨-, left, answer⟩ := steady
    let z := ((y.note (.exception failure)).note (.failed failure)).goto (.scheduling failure)
    have goes := goesSet (k := k) (i := i) z
    refine ⟨[⟨e.now, .handled y.delivery.tag false⟩], rfl,
      booksGoes goes books found rfl rfl rfl (ownEntry (by simp)) fun a => ?_,
      servingGoes goes serving found ⟨left, answer.symm⟩ (fun r mem => by cases mem) ?_,
      loadGoes goes found ?_⟩
    · simp only [Worker.future, here, z, Worker.goto, Worker.note, events, event?, posted, posted?,
        List.filterMap_cons, List.filterMap_nil, total, List.count_nil, Nat.zero_add]
    · simp only [here, z, Worker.goto, Worker.note, WorkerPhase.finished]
      rfl
    · simp only [Worker.load, here, z, Worker.goto, Worker.note, total]
      omega
  | schedule here =>
    rename_i failure
    simp only [here] at steady
    obtain ⟨left, answer⟩ := steady
    let delay := Retry.delay (Retry.count y.delivery.headers) k.retry
    let z := y.goto (.settling .ack (.retried (Retry.next (Retry.count y.delivery.headers)) delay))
    let copy := Envelope.json e.freshId.2 y.delivery.body
      (some (copyHeaders y.delivery failure e.unix))
    let r : RetryTask := ⟨i, copy, .waiting (Instant.wake e.now delay), []⟩
    have ends : Instant.wake e.now delay = e.now + x.wait y.delivery.attempts := by
      change Instant.wake e.now (Retry.delay _ k.retry) = _
      rw [serving.policy]
      exact wakeExact exact_ left e.now
    have one : copy.attempts = y.delivery.attempts + 1 := by
      have counted := exact_.counted
      exact countOfCopy y.delivery failure e.unix (by unfold Delivery.attempts at left; omega)
    have goes : Goes i k z [r] ((k.schedule e.now i copy delay).setWorker i z) :=
      ⟨rfl, rfl, rfl, rfl, rfl, rfl⟩
    refine ⟨[], rfl, booksGoes goes books found rfl rfl rfl ?_ fun a => ?_,
      servingGoes goes serving found trivial (fun s mem => ?_) ?_, loadGoes goes found ?_⟩
    · intro a mem
      cases mem
    · have again : r.future x e.now = x.sequel e.now y.delivery.body y.delivery.attempts := by
        unfold sequel
        rw [failsOf answer, if_pos rfl]
        simp only [RetryTask.future, RetryTask.again, r, ends, one]
        rfl
      simp only [Worker.future, here, z, Worker.goto, again, events, posted, List.filterMap_nil, total,
        List.count_cons, List.count_nil]
      omega
    · cases List.mem_singleton.mp mem
      change e.now ≤ _
      rw [ends]
      exact Nat.le_add_right _ _
    · simp only [here, z, Worker.goto, WorkerPhase.finished]
      rfl
    · have more := loadNext left
      simp only [Worker.load, RetryTask.load, here, z, Worker.goto, r, one, total]
      omega
  | settle here =>
    rename_i s disposition
    let z := ((settlementNotes disposition (e.settle y.channel y.delivery.tag s).2).foldl
      (fun y n => y.note n) y).goto (.finishing disposition)
    have goes := goesSet (k := k) (i := i) z
    refine ⟨[⟨e.now, .settled y.channel y.delivery.tag s (.ok ())⟩], rfl,
      booksGoes goes books found (deliveryNoted _ y) rfl rfl ?_ fun a => ?_,
      servingGoes goes serving found trivial (fun r mem => by cases mem) ?_, loadGoes goes found ?_⟩
    · intro a mem
      cases List.mem_singleton.mp mem
      refine ⟨rfl, fun c tag s o same => ?_⟩
      cases same
      rfl
    · have mine := foundByTag books (List.mem_map.mpr ⟨y, List.mem_of_getElem? found, rfl⟩)
      simp only [Worker.future, here, z, Worker.goto, events, event?, posted, posted?, mine,
        Option.map_some, List.filterMap_cons, List.filterMap_nil, total]
      rfl
    · simp only [here, z, Worker.goto, WorkerPhase.finished]
      rfl
    · simp only [Worker.load, here, z, Worker.goto, total]
      omega
  | finish here =>
    rename_i disposition
    let z := y.goto (.done disposition)
    have goes : Goes i k z [] { k.setWorker i z with permits := k.permits + 1 } :=
      ⟨rfl, (List.append_nil _).symm, rfl, rfl, rfl, rfl⟩
    refine ⟨[⟨e.now, .spanEnded y.span⟩], rfl,
      booksGoes goes books found rfl rfl rfl (ownEntry (by simp)) fun a => ?_,
      servingGoes goes serving found trivial (fun r mem => by cases mem) ?_, loadGoes goes found ?_⟩
    · simp only [Worker.future, here, z, Worker.goto, events, event?, posted, posted?,
        List.filterMap_cons, List.filterMap_nil, total, List.count_nil]
    · simp only [here, z, Worker.goto, WorkerPhase.finished]
      rfl
    · simp only [Worker.load, here, z, Worker.goto, total]
      omega

theorem loopTasks {j m : Loop} (loops : k.loops = [j]) (found : k.loops[i]? = some m) :
    i = 0 ∧ m = j := by
  rw [loops] at found
  cases i with
  | zero => exact ⟨rfl, (Option.some.inj found).symm⟩
  | succ i => cases found

theorem polled (books : x.Books e since unread k) (there : k.subscribed = true) :
    (unread = [] ∧ e.poll x.stream = (e, .waiting)) ∨
      ∃ d rest t, unread = d :: rest ∧ t.Feeds x.channel x.stream x.binding true rest ∧
        t.lastTag = e.broker.store.lastTag ∧
        e.poll x.stream = (e.withBroker { e.broker with store := t }, .item (.ok d)) := by
  have feeds := books.feeds
  rw [there] at feeds
  cases unread with
  | nil =>
    refine .inl ⟨rfl, ?_⟩
    unfold Env.poll
    dsimp only [Broker.poll]
    rw [Store.pollEmpty feeds]
    rfl
  | cons d rest =>
    obtain ⟨t, answer, tag, feeds⟩ := Store.pollFed feeds
    refine .inr ⟨d, rest, t, rfl, feeds, tag, ?_⟩
    unfold Env.poll
    dsimp only [Broker.poll]
    rw [answer]

section Loop

variable {s : Supervisor} {j m : Loop}

theorem handOf (alone : k.loops = [j]) : k.hand = j.hand := by
  unfold Consumer.hand
  rw [alone, List.flatMap_cons, List.flatMap_nil, List.append_nil]

theorem subscribedOf (alone : k.loops = [j]) : k.subscribed = j.subscribed := by
  unfold Consumer.subscribed
  rw [alone, List.any_cons, List.any_nil, Bool.or_false]

theorem loopsSet (alone : k.loops = [j]) : (k.setLoop 0 m).loops = [m] := by
  unfold setLoop
  rw [alone]
  rfl

theorem servingLoop (serving : k.Serving x now announced) (alone : k.loops = [j])
    (steady : m.Steady x announced) : (k.setLoop 0 m).Serving x now announced where
  policy := serving.policy
  handler := serving.handler
  running := serving.running
  loop := ⟨m, loopsSet alone, steady⟩
  permitted := serving.permitted
  workers := serving.workers
  retries := serving.retries

theorem booksReach {new : List Entry} (books : x.Books e since unread k)
    (serving : k.Serving x e.now announced) (alone : k.loops = [j]) (empty : j.hand = [])
    (still : m.hand = []) (steady : m.Steady x announced) (less : m.load < j.load)
    (feeds : f.broker.store.Feeds x.channel x.stream x.binding m.subscribed unread)
    (tag : f.broker.store.lastTag = e.broker.store.lastTag)
    (accepting : f.broker.failing = false ∧ f.broker.stalled = false) (now : f.now = e.now)
    (own : ∀ a ∈ new, a.time = e.now ∧ ∀ c tag s o, a.fact ≠ .settled c tag s o)
    (none : x.events k.received new = [] ∧ x.posted new = []) :
    x.Books f (new ++ since) unread (k.setLoop 0 m) ∧
      (k.setLoop 0 m).Serving x e.now announced ∧
      (k.setLoop 0 m).load x unread < k.load x unread := by
  have hand : (k.setLoop 0 m).hand = k.hand := by
    rw [handOf alone, handOf (loopsSet alone), empty, still]
  have tags : (k.setLoop 0 m).tags unread = k.tags unread := by
    unfold Consumer.tags
    rw [hand]
    rfl
  refine ⟨?_, servingLoop serving alone steady, ?_⟩
  · refine booksStep books now (by rw [subscribedOf (loopsSet alone)]; exact feeds) accepting
      (by rw [tags]; exact books.distinct) (by rw [tags, tag]; exact books.numbered)
      ⟨[], (List.append_nil _).symm⟩ (fun a mem c tag s o fact => ?_) (fun a mem => (own a mem).1)
      fun a => ?_
    · exact absurd fact ((own a mem).2 c tag s o)
    · have received : (k.setLoop 0 m).received = k.received := rfl
      have pending : (k.setLoop 0 m).pending x e.now unread a = k.pending x e.now unread a := by
        unfold Consumer.pending
        rw [hand]
        rfl
      rw [received, none.1, none.2, pending, List.count_nil]
      exact Nat.add_comm _ _
  · unfold Consumer.load
    rw [hand, loopsSet alone, alone]
    change _ + total (Worker.load x) k.workers + total (RetryTask.load x) k.retries + _ < _
    simp only [total]
    omega

theorem prefetchAnswer (count : UInt16) (here : e.broker.store.channelOpen x.channel = true) :
    e.prefetch x.channel count = (e.record (.prefetched x.channel count (.ok ())), .ok ()) := by
  have answer : Broker.prefetch x.channel count e.broker = (e.broker, .ok ()) := by
    dsimp only [Broker.prefetch]
    unfold Memory.prefetch
    rw [here]
    rfl
  unfold Env.prefetch
  rw [answer]
  rfl

theorem consumeAnswer (tag : String) (here : e.broker.store.channelOpen x.channel = true) :
    e.consume x.channel x.queue tag =
      ((e.withBroker { e.broker with store := (e.broker.store.subscribe x.channel x.queue).1 }).record
          (.subscribed x.channel x.queue tag (.ok (e.broker.store.subscribe x.channel x.queue).2)),
        .ok (e.broker.store.subscribe x.channel x.queue).2) := by
  have answer : Broker.consume x.channel x.queue tag e.broker =
      ({ e.broker with store := (e.broker.store.subscribe x.channel x.queue).1 },
        .ok (e.broker.store.subscribe x.channel x.queue).2) := by
    dsimp only [Broker.consume]
    unfold Memory.consume
    rw [here]
    rfl
  unfold Env.consume
  rw [answer]

theorem booksTake {d : Delivery} {rest : List Delivery} (books : x.Books e since (d :: rest) k)
    (serving : k.Serving x e.now announced) (alone : k.loops = [j])
    (here : j.phase = .reading x.channel x.stream) (fresh : j.seen = announced)
    (now : f.now = e.now) (feeds : f.broker.store.Feeds x.channel x.stream x.binding true rest)
    (tag : f.broker.store.lastTag = e.broker.store.lastTag)
    (accepting : f.broker.failing = false ∧ f.broker.stalled = false)
    (goes : l = k.setLoop 0 (j.goto (.admitting x.channel x.stream d))) :
    x.Books f since rest l ∧ l.Serving x e.now announced ∧
      l.load x rest < k.load x (d :: rest) := by
  subst goes
  have loops := loopsSet (m := j.goto (.admitting x.channel x.stream d)) alone
  have before : k.hand = [] := by rw [handOf alone, Loop.hand, here]
  have after := handOf loops
  have hand : (j.goto (.admitting x.channel x.stream d)).hand = [d] := rfl
  have tags : Consumer.tags rest (k.setLoop 0 (j.goto (.admitting x.channel x.stream d))) =
      k.tags (d :: rest) := by
    unfold Consumer.tags
    rw [before, after, hand]
    rfl
  refine ⟨?_, servingLoop serving alone ⟨⟨rfl, rfl⟩, fresh⟩, ?_⟩
  · refine booksIdle books now (by rw [subscribedOf loops]; exact feeds) accepting
      (by rw [tags]; exact books.distinct) (by rw [tags, tag]; exact books.numbered)
      ⟨[], (List.append_nil _).symm⟩ fun a => ?_
    unfold Consumer.pending
    rw [before, after, hand]
    rfl
  · unfold Consumer.load Desk.backlog
    rw [before, after, hand, loops, alone]
    change _ + total (Worker.load x) k.workers + total (RetryTask.load x) k.retries + _ < _
    simp only [total, Loop.load, here, Loop.goto]
    omega

theorem booksGrant {d : Delivery} (books : x.Books e since unread k)
    (serving : k.Serving x e.now announced) (alone : k.loops = [j])
    (here : j.phase = .admitting x.channel x.stream d) (fresh : j.seen = announced) :
    let l : Consumer := { k.setLoop 0 (j.goto (.reading x.channel x.stream)) with
      permits := k.permits - 1, workers := k.workers ++ [worker d x.channel] }
    x.Books e since unread l ∧ l.Serving x e.now announced ∧ l.load x unread < k.load x unread := by
  intro l
  have loops : l.loops = [j.goto (.reading x.channel x.stream)] := loopsSet alone
  have before : k.hand = [d] := by rw [handOf alone, Loop.hand, here]
  have after : l.hand = [] := handOf loops
  have workers : l.workers = k.workers ++ [worker d x.channel] := rfl
  have retries : l.retries = k.retries := rfl
  have received : l.received = k.received ++ [d] := by
    unfold Consumer.received
    rw [workers, List.map_append]
    rfl
  have tags : l.tags unread = k.tags unread := by
    unfold Consumer.tags
    rw [before, after, received, List.nil_append, List.append_assoc]
  refine ⟨?_, ?_, ?_⟩
  · have feeds := books.feeds
    rw [subscribedOf alone, Loop.subscribed, here] at feeds
    refine booksIdle books rfl (by rw [subscribedOf loops]; exact feeds) books.accepting
      (by rw [tags]; exact books.distinct) (by rw [tags]; exact books.numbered) ⟨[d], received⟩
      fun a => ?_
    have first : (worker d x.channel).future x e.now = x.due e.now d.body d.attempts := rfl
    unfold Consumer.pending
    rw [before, after, workers, retries, totalAppend, totalAppend, totalAppend]
    simp only [total, first]
    omega
  · refine ⟨serving.policy, serving.handler, serving.running, ⟨_, loops, ⟨rfl, rfl⟩, fresh⟩, ?_, ?_,
      serving.retries⟩
    · change 0 < k.permits - 1 + (k.workers ++ [worker d x.channel]).countP _
      rw [List.countP_append]
      exact Nat.lt_add_left _ (Nat.lt_add_left _ Nat.zero_lt_one)
    · intro y mem
      rcases List.mem_append.mp mem with old | new
      · exact serving.workers y old
      · cases List.mem_singleton.mp new
        trivial
  · have first : (worker d x.channel).load x = x.load d.attempts + 10 := rfl
    unfold Consumer.load
    rw [before, after, loops, alone, workers, retries, totalAppend]
    simp only [total, first, Loop.load, here, Loop.goto]
    omega

theorem booksLoop (books : x.Books e since unread k)
    (serving : k.Serving x e.now s.announced) (current : s.channel? e.broker = .ok x.channel)
    (queue : s.topology.queueName = x.queue) (found : k.loops[i]? = some j)
    (move : LoopMove i s e k j f l) :
    ∃ new left, f.journal = new ++ e.journal ∧ x.Books f (new ++ since) left l ∧
      l.Serving x e.now s.announced ∧ l.load x left < k.load x unread := by
  obtain ⟨j', alone, steady⟩ := serving.loop
  obtain ⟨rfl, rfl⟩ := loopTasks alone found
  have running := serving.running
  have feeds := books.feeds
  rw [subscribedOf alone] at feeds
  have reads {c : ChannelId} {stream : StreamId} (here : j.phase = .reading c stream) :
      k.subscribed = true := by
    rw [subscribedOf alone, Loop.subscribed, here]
  unfold Loop.Steady at steady
  unfold Loop.subscribed at feeds
  cases move with
  | check here =>
    simp only [here] at feeds
    refine ⟨[], unread, rfl, booksReach books serving alone ?_ rfl trivial ?_ feeds rfl
      books.accepting rfl (fun a mem => by cases mem) ⟨rfl, rfl⟩⟩
    · simp only [Loop.hand, here]
    · simp only [Loop.load, Loop.goto, here]
      omega
  | mark here =>
    simp only [here] at feeds
    refine ⟨[], unread, rfl, booksReach books serving alone ?_ rfl rfl ?_ feeds rfl
      books.accepting rfl (fun a mem => by cases mem) ⟨rfl, rfl⟩⟩
    · simp only [Loop.hand, here]
    · simp only [Loop.load, here]
      omega
  | opened here healthy =>
    cases current.symm.trans healthy
    simp only [here] at feeds steady
    refine ⟨[], unread, rfl, booksReach books serving alone ?_ rfl ⟨rfl, steady⟩ ?_ feeds rfl
      books.accepting rfl (fun a mem => by cases mem) ⟨rfl, rfl⟩⟩
    · simp only [Loop.hand, here]
    · simp only [Loop.load, here]
      omega
  | prefetched here answer =>
    simp only [here] at feeds steady
    obtain ⟨rfl, fresh⟩ := steady
    cases (prefetchAnswer k.options.prefetchCount feeds.channel).symm.trans answer
    refine ⟨[_], unread, rfl, booksReach books serving alone ?_ rfl ⟨rfl, fresh⟩ ?_ feeds rfl
      books.accepting rfl (fun a mem => ?_) ⟨rfl, rfl⟩⟩
    · simp only [Loop.hand, here]
    · simp only [Loop.load, Loop.goto, here]
      omega
    · cases List.mem_singleton.mp mem
      exact ⟨rfl, fun c tag s o fact => by cases fact⟩
  | subscribed here answer =>
    simp only [here] at feeds steady
    obtain ⟨rfl, fresh⟩ := steady
    rw [queue] at answer
    cases (consumeAnswer k.options.consumerTag feeds.channel).symm.trans answer
    obtain ⟨place, tag, feeds⟩ := Store.subscribeFeeds feeds
    refine ⟨[_], unread, rfl, booksReach books serving alone ?_ rfl ⟨⟨rfl, place⟩, fresh⟩ ?_ feeds tag
      books.accepting rfl (fun a mem => ?_) ⟨rfl, rfl⟩⟩
    · simp only [Loop.hand, here]
    · simp only [Loop.load, Loop.goto, here]
      omega
    · cases List.mem_singleton.mp mem
      exact ⟨rfl, fun c tag s o fact => by cases fact⟩
  | take here open_ same answer =>
    rename_i c stream d
    simp only [here] at steady
    obtain ⟨⟨rfl, rfl⟩, fresh⟩ := steady
    rcases polled books (reads here) with ⟨-, waits⟩ | ⟨d', rest, t, rfl, fed, tag, taken⟩
    · cases waits.symm.trans answer
    · cases taken.symm.trans answer
      exact ⟨[], rest, rfl, booksTake books serving alone here fresh rfl fed tag books.accepting rfl⟩
  | grant here permitted =>
    simp only [here] at steady
    obtain ⟨⟨rfl, rfl⟩, fresh⟩ := steady
    exact ⟨[], unread, rfl, booksGrant books serving alone here fresh⟩
  | halt here stopped => cases running.symm.trans stopped
  | closed _ gone => cases current.symm.trans gone
  | unopened _ gone => cases current.symm.trans gone
  | unprefetched here answer =>
    simp only [here] at feeds steady
    obtain ⟨rfl, fresh⟩ := steady
    cases (prefetchAnswer k.options.prefetchCount feeds.channel).symm.trans answer
  | unsubscribed here answer =>
    simp only [here] at feeds steady
    obtain ⟨rfl, fresh⟩ := steady
    rw [queue] at answer
    cases (consumeAnswer k.options.consumerTag feeds.channel).symm.trans answer
  | stop _ stopped => cases running.symm.trans stopped
  | leave _ stopped => cases running.symm.trans stopped
  | wake _ stopped => cases running.symm.trans stopped
  | renew here _ stale =>
    simp only [here] at steady
    exact absurd steady.2 stale
  | broken here open_ same answer =>
    simp only [here] at steady
    obtain ⟨⟨rfl, rfl⟩, -⟩ := steady
    rcases polled books (reads here) with ⟨-, waits⟩ | ⟨_, _, _, -, -, -, taken⟩
    · cases waits.symm.trans answer
    · cases taken.symm.trans answer
  | ended here open_ same answer =>
    simp only [here] at steady
    obtain ⟨⟨rfl, rfl⟩, -⟩ := steady
    rcases polled books (reads here) with ⟨-, waits⟩ | ⟨_, _, _, -, -, -, taken⟩
    · cases waits.symm.trans answer
    · cases taken.symm.trans answer
  | _ here => simp only [here] at steady

end Loop

end Desk

end AmqpClient
