import AmqpClient.Proofs.Consumer.Budget
/-! What is done with one delivery, from the first step of its worker to the last. It is settled
once, whatever comes of the settlement: rejected unhandled if its budget is spent, else acknowledged
after its one handling, and after one copy was scheduled if that failed. -/
namespace AmqpClient

def Fact.settlement? : Fact → Option (ChannelId × Nat × Settlement × Outcome)
  | .settled c tag s o => some (c, tag, s, o)
  | _ => none

def Env.settlements {β : Type} (e : Env β) : List (ChannelId × Nat × Settlement × Outcome) :=
  e.journal.filterMap (·.fact.settlement?)

namespace Consumer

variable {β : Type} [Broker β]

inductive Act where
  | called (d : Delivery) (result : Except String Unit)
  | scheduled (r : RetryTask)
  | settled (c : ChannelId) (tag : Nat) (s : Settlement) (o : Outcome)

namespace Act

def delivery? : Act → Option Delivery
  | called d _ => some d
  | _ => none

def task? : Act → Option RetryTask
  | scheduled r => some r
  | _ => none

def settlement? : Act → Option (ChannelId × Nat × Settlement × Outcome)
  | settled c tag s o => some (c, tag, s, o)
  | _ => none

end Act

inductive Did (f : Env β) (l : Consumer) (g : Env β) (m : Consumer) : Option Act → Prop where
  | nothing (broker : g.broker = f.broker) (settled : g.settlements = f.settlements)
      (handled : m.handled = l.handled) (retries : m.retries = l.retries) : Did f l g m none
  | called {d : Delivery} (broker : g.broker = f.broker) (settled : g.settlements = f.settlements)
      (handled : m.handled = d :: l.handled) (retries : m.retries = l.retries) :
      Did f l g m (some (.called d (l.handler l.handled d).result))
  | scheduled {r : RetryTask} (broker : g.broker = f.broker)
      (settled : g.settlements = f.settlements) (handled : m.handled = l.handled)
      (retries : m.retries = l.retries ++ [r]) : Did f l g m (some (.scheduled r))
  | settled {c tag s o} (asked : f.settle c tag s = (g, o)) (handled : m.handled = l.handled)
      (retries : m.retries = l.retries) : Did f l g m (some (.settled c tag s o))

inductive Processing (i : Nat) (e : Env β) (k : Consumer) :
    Nat → List Act → Env β → Consumer → Prop where
  | refl : Processing i e k 0 [] e k
  | work {n acts f l g m a} (before : Processing i e k n acts f l)
      (made : l.workerStep i f = some (g, m)) (did : Did f l g m a) :
      Processing i e k (n + 1) (acts ++ a.toList) g m
  | others {n acts f l g m} (before : Processing i e k n acts f l)
      (worker : m.workers[i]? = l.workers[i]?) (policy : m.retry = l.retry) :
      Processing i e k n acts g m

def Copied (i : Nat) (d : Delivery) (failure : String) (delay : Duration) (r : RetryTask) : Prop :=
  ∃ id unix now, r =
    { origin := i
      envelope := Envelope.json id d.body (some (copyHeaders d failure unix))
      phase := .waiting (Instant.wake now delay) }

inductive Verdict (p : RetryPolicy) (i : Nat) (d : Delivery) (c : ChannelId) :
    List Act → Disposition → Prop where
  | deadLettered (spent : Spent p d.headers) (o : Outcome) :
      Verdict p i d c [.settled c d.tag (.reject false) o] .deadLettered
  | acked (left : ¬ Spent p d.headers) (o : Outcome) :
      Verdict p i d c [.called d (.ok ()), .settled c d.tag .ack o] .acked
  | retried (left : ¬ Spent p d.headers) {failure r attempt}
      (counted : attempt.toNat = (Retry.count d.headers).toNat + 1)
      (copy : Copied i d failure (Retry.delay (Retry.count d.headers) p) r) (o : Outcome) :
      Verdict p i d c [.called d (.error failure), .scheduled r, .settled c d.tag .ack o]
        (.retried attempt (Retry.delay (Retry.count d.headers) p))

inductive Progress (p : RetryPolicy) (i : Nat) (d : Delivery) (c : ChannelId) :
    WorkerPhase → List Act → Prop where
  | starting : Progress p i d c .starting []
  | handling (left : ¬ Spent p d.headers) (ends : Instant) (result : Except String Unit) :
      Progress p i d c (.handling ends result) [.called d result]
  | scheduling (left : ¬ Spent p d.headers) (failure : String) :
      Progress p i d c (.scheduling failure) [.called d (.error failure)]
  | settling {s x acts} (clean : s ≠ .reject true)
      (verdict : ∀ o, Verdict p i d c (acts ++ [.settled c d.tag s o]) x) :
      Progress p i d c (.settling s x) acts
  | finishing {x acts} (verdict : Verdict p i d c acts x) : Progress p i d c (.finishing x) acts
  | done {x acts} (verdict : Verdict p i d c acts x) : Progress p i d c (.done x) acts

variable {i n : Nat} {e f g : Env β} {k l m : Consumer} {x : Worker} {p : RetryPolicy}
  {d : Delivery} {c : ChannelId} {acts : List Act}

omit [Broker β] in
theorem settlementsRecord {fact : Fact} (other : fact.settlement? = none) :
    (e.record fact).settlements = e.settlements := by
  unfold Env.settlements Env.record
  exact List.filterMap_cons_none other

theorem settlementsSettle {tag : Nat} {s : Settlement} {o : Outcome}
    (asked : f.settle c tag s = (g, o)) : g.settlements = (c, tag, s, o) :: f.settlements := by
  cases asked
  rfl

theorem didSeen {a : Option Act} (did : Did f l g m a) :
    m.handled = (a.bind Act.delivery?).toList ++ l.handled ∧
      m.retries = l.retries ++ (a.bind Act.task?).toList ∧
      g.settlements = (a.bind Act.settlement?).toList ++ f.settlements := by
  have none (retries : m.retries = l.retries) : m.retries = l.retries ++ [] :=
    retries.trans (List.append_nil _).symm
  cases did with
  | nothing _ settled handled retries => exact ⟨handled, none retries, settled⟩
  | called _ settled handled retries => exact ⟨handled, none retries, settled⟩
  | scheduled _ settled handled retries => exact ⟨handled, retries, settled⟩
  | settled asked handled retries => exact ⟨handled, none retries, settlementsSettle asked⟩

theorem didOnce {a b : Option Act} (first : Did f l g m a) (second : Did f l g m b) : a = b := by
  obtain ⟨handled, retries, settled⟩ := didSeen first
  obtain ⟨handled', retries', settled'⟩ := didSeen second
  have same {α : Type} {x y : Option α} (lists : x.toList = y.toList) : x = y := by
    cases x <;> cases y <;> cases lists <;> rfl
  have delivery := same (List.append_cancel_right (handled.symm.trans handled'))
  have task := same (List.append_cancel_left (retries.symm.trans retries'))
  have settlement := same (List.append_cancel_right (settled.symm.trans settled'))
  cases first <;> cases second <;> cases delivery <;> cases task <;> cases settlement <;> rfl

theorem progressStep (policy : l.retry = p) (found : l.workers[i]? = some x)
    (same : x.delivery = d) (channel : x.channel = c) (progress : Progress p i d c x.phase acts)
    (made : l.workerStep i f = some (g, m)) :
    ∃ a y, Did f l g m a ∧ m.workers[i]? = some y ∧ y.delivery = d ∧ y.channel = c ∧
      Progress p i d c y.phase (acts ++ a.toList) ∧ y.phase.stepsLeft < x.phase.stepsLeft := by
  obtain ⟨x', there, move⟩ := workerMove made
  cases Option.some.inj (found.symm.trans there)
  subst same channel policy
  cases move with
  | refuse here spent =>
    rw [here] at progress ⊢
    cases progress with
    | starting =>
      exact ⟨none, _, .nothing rfl rfl rfl rfl, workerSetSelf found, rfl, rfl,
        .settling (by decide) fun o => .deadLettered spent o, Nat.lt_of_sub_eq_succ rfl⟩
  | handle here left =>
    rw [here] at progress ⊢
    cases progress with
    | starting =>
      exact ⟨some (.called _ _), _, .called rfl (settlementsRecord rfl) rfl rfl, workerSetSelf found,
        rfl, rfl, .handling left _ _, Nat.lt_succ_self 4⟩
  | succeed here =>
    rw [here] at progress ⊢
    cases progress with
    | handling left =>
      exact ⟨none, _, .nothing rfl (settlementsRecord rfl) rfl rfl, workerSetSelf found, rfl, rfl,
        .settling (by decide) fun o => .acked left o, Nat.lt_of_sub_eq_succ rfl⟩
  | @fail _ failure here =>
    rw [here] at progress ⊢
    cases progress with
    | handling left =>
      exact ⟨none, _, .nothing rfl (settlementsRecord rfl) rfl rfl, workerSetSelf found, rfl, rfl,
        .scheduling left failure, Nat.lt_succ_self 3⟩
  | schedule here =>
    rw [here] at progress ⊢
    cases progress with
    | scheduling left =>
      exact ⟨some (.scheduled _), _, .scheduled rfl rfl rfl rfl,
        workerSetSelf (k := l.schedule ..) found, rfl, rfl,
        .settling (by decide) fun o => .retried left (Retry.nextCounted _) ⟨_, _, _, rfl⟩ o,
        Nat.lt_succ_self 2⟩
  | settle here =>
    rw [here] at progress ⊢
    cases progress with
    | settling _ verdict =>
      exact ⟨some (.settled _ _ _ _), _, .settled rfl rfl rfl, workerSetSelf found,
        deliveryNoted _ x, channelNoted _ x, .finishing (verdict _), Nat.lt_succ_self 1⟩
  | finish here =>
    rw [here] at progress ⊢
    cases progress with
    | finishing verdict =>
      exact ⟨none, _, .nothing rfl (settlementsRecord rfl) rfl rfl, workerSetSelf found, rfl, rfl,
        .done (by simpa using verdict), Nat.lt_succ_self 0⟩

theorem processingProgress (policy : k.retry = p) (given : k.workers[i]? = some (worker d c))
    (processing : Processing i e k n acts f l) :
    l.retry = p ∧ ∃ x, l.workers[i]? = some x ∧ x.delivery = d ∧ x.channel = c ∧
      Progress p i d c x.phase acts ∧ n + x.phase.stepsLeft ≤ 5 := by
  induction processing with
  | refl => exact ⟨policy, _, given, rfl, rfl, .starting, Nat.le_refl 5⟩
  | @work n acts f l g m a before made did ih =>
    obtain ⟨policy, x, found, same, channel, progress, bound⟩ := ih
    have kept : m.retry = l.retry := by
      obtain ⟨_, -, move⟩ := workerMove made
      cases move <;> rfl
    obtain ⟨a', y, did', after, delivery, ch, next, less⟩ :=
      progressStep policy found same channel progress made
    cases didOnce did did'
    exact ⟨kept.trans policy, y, after, delivery, ch, next, by omega⟩
  | others before worker samePolicy ih =>
    obtain ⟨policy, x, found, rest⟩ := ih
    exact ⟨samePolicy.trans policy, x, worker.trans found, rest⟩

theorem progressUnderway {phase : WorkerPhase} (progress : Progress p i d c phase acts) :
    ∃ rest x, Verdict p i d c (acts ++ rest) x := by
  have failed (left : ¬ Spent p d.headers) (failure : String) :
      ∃ rest x, Verdict p i d c ([.called d (.error failure)] ++ rest) x :=
    ⟨_, _, .retried left (Retry.nextCounted d.headers)
      (⟨"", 0, 0, rfl⟩ : Copied i d failure _ _) (.ok ())⟩
  cases progress with
  | starting =>
    by_cases spent : Spent p d.headers
    · exact ⟨_, _, .deadLettered spent (.ok ())⟩
    · exact ⟨_, _, .acked spent (.ok ())⟩
  | handling left _ result =>
    cases result with
    | ok => exact ⟨_, _, .acked left (.ok ())⟩
    | error failure => exact failed left failure
  | scheduling left failure => exact failed left failure
  | settling _ verdict => exact ⟨_, _, verdict (.ok ())⟩
  | finishing verdict | done verdict => exact ⟨[], _, (List.append_nil acts).symm ▸ verdict⟩

structure Processed (p : RetryPolicy) (i : Nat) (d : Delivery) (c : ChannelId) (n : Nat)
    (acts : List Act) (f : Env β) (l : Consumer) (x : Worker) : Prop where
  found : l.workers[i]? = some x
  delivery : x.delivery = d
  ended : ∀ disposition, x.phase = .done disposition → Verdict p i d c acts disposition
  underway : ∃ rest disposition, Verdict p i d c (acts ++ rest) disposition
  bounded : n ≤ 5
  goesOn : x.phase.finished = false → ∃ t, (l.workerStep i { f with now := t }).isSome = true

theorem processed (policy : k.retry = p) (given : k.workers[i]? = some (worker d c))
    (processing : Processing i e k n acts f l) : ∃ x, Processed p i d c n acts f l x := by
  obtain ⟨-, x, found, delivery, -, progress, bound⟩ := processingProgress policy given processing
  refine ⟨x, found, delivery, fun disposition here => ?_, progressUnderway progress,
    Nat.le_trans (Nat.le_add_right ..) bound, workerGoesOn f found⟩
  rw [here] at progress
  cases progress with
  | done verdict => exact verdict

def Works (e : Env β) (k : Consumer) : Prop :=
  ∀ i x, k.workers[i]? = some x → ∃ (c : ChannelId) (n : Nat) (acts : List Act) (e' : Env β)
    (k' : Consumer), k'.retry = k.retry ∧ k'.workers[i]? = some (worker x.delivery c) ∧
      Processing i e' k' n acts e k

theorem worksOthers (works : k.Works e) (workers : m.workers = k.workers)
    (policy : m.retry = k.retry) : m.Works f := by
  intro i x found
  rw [workers] at found
  obtain ⟨c, n, acts, e', k', same, given, processing⟩ := works i x found
  exact ⟨c, n, acts, e', k', same.trans policy.symm, given,
    .others processing (by rw [workers]) policy⟩

theorem worksLoop {s : Supervisor} {y : Loop} (works : k.Works e)
    (move : LoopMove i s e k y f m) : m.Works g := by
  have frame := loopFrame move
  rcases frame.workers with same | ⟨d, c, more⟩
  · exact worksOthers works same frame.retry
  · intro j x found
    have there := found
    rw [more, List.getElem?_append] at found
    split at found
    · obtain ⟨c', n, acts, e', k', same, given, processing⟩ := works j x found
      refine ⟨c', n, acts, e', k', same.trans frame.retry.symm, given,
        .others processing (there.trans found.symm) frame.retry⟩
    · cases List.mem_singleton.mp (List.mem_of_getElem? found)
      exact ⟨c, 0, [], g, m, rfl, there, .refl⟩

theorem worksWorker (works : k.Works e) (made : k.workerStep i e = some (f, m)) : m.Works g := by
  obtain ⟨x, found, move⟩ := workerMove made
  have policy : m.retry = k.retry := by cases move <;> rfl
  obtain ⟨c, n, acts, e', k', same, given, processing⟩ := works i x found
  obtain ⟨-, x', found', delivery, channel, progress, -⟩ :=
    processingProgress same given processing
  cases Option.some.inj (found'.symm.trans found)
  obtain ⟨a, y, did, after, delivery', -⟩ := progressStep rfl found delivery channel progress made
  intro j z there
  by_cases mine : j = i
  · subst mine
    cases Option.some.inj (there.symm.trans after)
    rw [← delivery'] at given
    exact ⟨c, n + 1, _, e', k', same.trans policy.symm, given,
      .others (.work processing made did) rfl rfl⟩
  · have kept : m.workers[j]? = k.workers[j]? := by
      cases move <;> exact List.getElem?_set_ne (Ne.symm mine)
    obtain ⟨c, n, acts, e', k', same, given, processing⟩ := works j z (kept.symm.trans there)
    exact ⟨c, n, acts, e', k', same.trans policy.symm, given, .others processing kept policy⟩

end Consumer

end AmqpClient
