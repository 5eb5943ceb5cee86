import AmqpClient.Proofs.Consumer.Budget
import AmqpClient.Proofs.Consumer.Retirement
import AmqpClient.Proofs.Consumer.Tasks
import AmqpClient.Proofs.Requests
/-! From a handler that fails to the task that holds the copy. The worker stays with its delivery, and
as it is not kept waiting the copy tells of the instant of the failure, from which on it waits. -/
namespace AmqpClient

open Broker (Memory)

namespace Consumer

variable {β : Type} [Broker β] {e f : Env β} {s : Supervisor}

theorem envelopeKept {stopped : Bool} {r q : RetryTask} (move : RetryMove stopped s e r f q) :
    q.envelope = r.envelope := by
  cases move <;> rfl

end Consumer

namespace World

inductive Fails {β : Type} [Broker β] (outside : β → β → Prop) (i j r : Nat) (failure : String)
    (w : World β) : World β → Prop where
  | scheduled {x y ends noted v u u' p p'} (there : w.workerAt i j = some x)
      (handled : x.phase = .handling ends (.error failure))
      (fails : w.step (.client i (.worker j)) p = some v)
      (meanwhile : Run (fun w v => Use outside w v ∧ Prompt w v) v u)
      (still : u.workerAt i j = some y) (waits : y.phase = .scheduling noted)
      (place : (u.consumerAt i).map (fun k => k.retries.length) = some r)
      (schedules : u.step (.client i (.worker j)) p' = some u') :
      Fails outside i j r failure w u'

variable {β : Type} [Broker β] {outside : β → β → Prop} {w v : World β} {i j : Nat}
  {x y : Consumer.Worker} {r : Consumer.RetryTask}

theorem workerNext (used : Use outside w v) (there : w.workerAt i j = some x) :
    ∃ y, v.workerAt i j = some y ∧
      (y = x ∨ y.delivery = x.delivery ∧ y.phase.stepsLeft < x.phase.stepsLeft) := by
  by_cases own : ∃ preferStop, w.step (.client i (.worker j)) preferStop = some v
  · obtain ⟨preferStop, made⟩ := own
    obtain ⟨k, m, -, after, found, move⟩ := workerOwn there made
    obtain ⟨y, next, less⟩ := Consumer.stepTaken found move
    obtain ⟨z, workers, delivery, -⟩ := Consumer.workerKeeps move
    have same : y = z := by
      rw [workers, List.getElem?_set_self (List.getElem?_eq_some_iff.mp found).1] at next
      exact (Option.some.inj next).symm
    exact ⟨y, Option.bind_eq_some_iff.mpr ⟨m, after, next⟩, .inr ⟨same ▸ delivery, less⟩⟩
  · exact ⟨x, workerKept used there fun preferStop made => own ⟨preferStop, made⟩, .inl rfl⟩

theorem workerLater (run : Run (Use outside) w v) (there : w.workerAt i j = some x) :
    ∃ y, v.workerAt i j = some y ∧ y.delivery = x.delivery := by
  induction run with
  | refl => exact ⟨x, there, rfl⟩
  | next _ last ih =>
    obtain ⟨y, here, same⟩ := ih
    obtain ⟨z, next, rfl | ⟨delivery, -⟩⟩ := workerNext last here
    · exact ⟨z, next, same⟩
    · exact ⟨z, next, delivery.trans same⟩

theorem retryLater (run : Run (Use outside) w v) (there : w.retryAt i j = some r) :
    ∃ q, v.retryAt i j = some q ∧ q.envelope = r.envelope := by
  induction run with
  | refl => exact ⟨r, there, rfl⟩
  | @next w v _ last ih =>
    obtain ⟨q, here, same⟩ := ih
    by_cases own : ∃ preferStop, w.step (.client i (.retry j)) preferStop = some v
    · obtain ⟨preferStop, made⟩ := own
      obtain ⟨c, k, z, -, -, next, move⟩ := retryOwn here made
      exact ⟨z, next, (Consumer.envelopeKept move).trans same⟩
    · exact ⟨q, retryKept last here fun preferStop made => own ⟨preferStop, made⟩, same⟩

theorem policyLater {k : Consumer} (run : Run (Use outside) w v) (there : w.consumerAt i = some k) :
    ∃ m, v.consumerAt i = some m ∧ m.retry = k.retry := by
  induction run with
  | refl => exact ⟨k, there, rfl⟩
  | next _ last ih =>
    obtain ⟨m, here, same⟩ := ih
    obtain ⟨l, next, _, spares, -⟩ := sparesUse last here
    exact ⟨l, next, spares.policy.trans same⟩

theorem wallClockUse (used : Use outside w v) : v.env.wallClock = w.env.wallClock := by
  have covers : Env.Covers fun e f : Env β => f.wallClock = e.wallClock :=
    { idle := fun _ => rfl
      trans := fun first second => second.trans first
      record := fun _ _ => rfl
      freshId := fun _ => rfl
      beginDial := fun _ _ => rfl
      dial := fun _ _ _ => rfl
      watchConnection := fun _ _ => rfl
      watchChannel := fun _ _ => rfl
      declare := fun _ _ _ => rfl
      prefetch := fun _ _ _ => rfl
      consume := fun _ _ _ _ => rfl
      poll := fun _ _ => rfl
      dropStream := fun _ _ => rfl
      publish := fun _ _ _ _ _ => rfl
      settle := fun _ _ _ _ => rfl
      closeChannel := fun _ _ => rfl
      closeConnection := fun _ _ => rfl }
  exact useCovered covers used (fun _ _ _ => rfl) fun _ _ _ => rfl

theorem schedulingNow {u : World β} {f g : String}
    (run : Run (fun w v => Use outside w v ∧ Prompt w v) w u) (there : w.workerAt i j = some x)
    (here : x.phase = .scheduling f) (still : u.workerAt i j = some y)
    (waits : y.phase = .scheduling g) :
    y = x ∧ u.env.now = w.env.now ∧ u.env.wallClock = w.env.wallClock := by
  suffices all : u.workerAt i j = some x ∧ u.env.now = w.env.now ∧
      u.env.wallClock = w.env.wallClock ∨
      ∃ z, u.workerAt i j = some z ∧ z.phase.stepsLeft < x.phase.stepsLeft by
    rcases all with ⟨same, clocks⟩ | ⟨z, same, less⟩ <;> cases still.symm.trans same
    · exact ⟨rfl, clocks⟩
    · rw [waits, here] at less
      cases Nat.lt_irrefl _ less
  clear still waits
  induction run with
  | refl => exact .inl ⟨there, rfl, rfl⟩
  | @next v u _ last ih =>
    obtain ⟨used, prompt⟩ := last
    rcases ih with ⟨same, now, clock⟩ | ⟨z, found, less⟩
    · obtain ⟨z, next, rfl | ⟨-, less⟩⟩ := workerNext used same
      · -- the worker can make its step, so the clock stands
        refine .inl ⟨next, ?_, (wallClockUse used).trans clock⟩
        refine (Nat.le_antisymm (Nat.le_of_not_lt fun later => ?_) (laterUse used)).trans now
        obtain ⟨k, consumer, found⟩ := Option.bind_eq_some_iff.mp same
        obtain ⟨c, client, role⟩ := consumerAtIff.mp consumer
        have stuck := stillOf (prompt later).1 client (.worker j)
        simp only [Client.step, Client.consumerStep, role, Consumer.workerStep, found, here,
          Option.map_some] at stuck
        cases stuck
      · exact .inr ⟨z, next, less⟩
    · obtain ⟨z', next, rfl | ⟨-, less'⟩⟩ := workerNext used found
      · exact .inr ⟨z', next, less⟩
      · exact .inr ⟨z', next, Nat.lt_trans less' less⟩

theorem failsWorker {ends : Instant} {failure : String} {preferStop : Bool}
    (there : w.workerAt i j = some x) (handled : x.phase = .handling ends (.error failure))
    (made : w.step (.client i (.worker j)) preferStop = some v) :
    ∃ y, v.workerAt i j = some y ∧ y.delivery = x.delivery ∧ y.phase = .scheduling failure := by
  obtain ⟨k, m, -, after, found, move⟩ := workerOwn there made
  generalize v.env = f at move
  cases move with
  | fail here =>
    cases handled.symm.trans here
    exact ⟨_, Option.bind_eq_some_iff.mpr ⟨_, after, Consumer.workerSetSelf found⟩, rfl, rfl⟩
  | refuse here | handle here | succeed here | schedule here | settle here | finish here =>
    cases handled.symm.trans here

def copyTask (now : Instant) (unix : Int) (id : String) (j : Nat) (d : Delivery) (failure : String)
    (p : RetryPolicy) : Consumer.RetryTask where
  origin := j
  envelope := Envelope.json id d.body (some (Consumer.copyHeaders d failure unix))
  phase := .waiting (Instant.wake now (Retry.delay (Retry.count d.headers) p))

theorem schedulesWorker {failure : String} {n : Nat} {k : Consumer} {preferStop : Bool}
    (there : w.workerAt i j = some x) (waits : x.phase = .scheduling failure)
    (here : w.consumerAt i = some k) (place : k.retries.length = n)
    (made : w.step (.client i (.worker j)) preferStop = some v) :
    v.retryAt i n = some
      (copyTask w.env.now w.env.unix w.env.freshId.2 j x.delivery failure k.retry) := by
  obtain ⟨k', m, here', after, found, move⟩ := workerOwn there made
  cases here.symm.trans here'
  subst place
  generalize v.env = f at move
  cases move with
  | schedule phase =>
    cases waits.symm.trans phase
    exact Option.bind_eq_some_iff.mpr ⟨_, after, List.getElem?_concat_length⟩
  | refuse here | handle here | succeed here | fail here | settle here | finish here =>
    cases waits.symm.trans here

theorem failsCopy {failure : String} {n : Nat} (fails : Fails outside i j n failure w v) :
    Run (Use outside) w v ∧ v.env.now = w.env.now ∧ ∃ x k id,
      w.workerAt i j = some x ∧ w.consumerAt i = some k ∧
      v.retryAt i n =
        some (copyTask w.env.now w.env.unix id j x.delivery failure k.retry) := by
  cases fails with
  | @scheduled x y ends noted u u' _ p p' there handled fails meanwhile still waits place schedules =>
    obtain ⟨z, failing, given, phase⟩ := failsWorker there handled fails
    obtain ⟨rfl, now, clock⟩ := schedulingNow meanwhile failing phase still waits
    cases phase.symm.trans waits
    have way : Run (Use outside) w u' :=
      (Run.single (.act ⟨_, _, fails⟩)).trans (meanwhile.map fun _ _ h => h.1)
    obtain ⟨k, here, -⟩ := Option.bind_eq_some_iff.mp there
    obtain ⟨m, after, policy⟩ := policyLater way here
    rw [after] at place
    have stands : u'.env.now = w.env.now := now.trans (nowOfStep fails)
    have unix : u'.env.unix = w.env.unix := by
      unfold Env.unix
      rw [stands, clock, wallClockUse (.act ⟨_, _, fails⟩ : Use outside w u)]
    refine ⟨way.next (.act ⟨_, _, schedules⟩), (nowOfStep schedules).trans stands, x, k,
      u'.env.freshId.2, there, here, ?_⟩
    rw [← policy, ← given, ← stands, ← unix]
    exact schedulesWorker still waits after (Option.some.inj place) schedules

theorem retrySends {a : Consumer.Attempted} {ch : ChannelId} {preferStop : Bool}
    (there : w.retryAt i j = some r) (sends : r.phase = .sending a ch)
    (made : w.step (.client i (.retry j)) preferStop = some v) :
    ∃ c, w.clients[i]? = some c ∧ v.env = (w.env.publish ch c.supervisor.topology.exchangeName
      c.supervisor.topology.routingKey r.envelope).1 := by
  obtain ⟨c, k, q, found, -, -, move⟩ := retryOwn there made
  refine ⟨c, found, ?_⟩
  generalize v.env = f at move
  cases move with
  | send here =>
    cases sends.symm.trans here
    rfl
  | wake here => rcases here with here | here <;> cases sends.symm.trans here
  | sample here | unopened here | opened here | conclude here => cases sends.symm.trans here

def next (a : Actor) (w : World β) : World β := (drive a 1 false w).2

theorem nextStep {a : Actor} (moves : (w.step a false).isSome = true) :
    w.step a false = some (next a w) := by
  obtain ⟨v, made⟩ := Option.isSome_iff_exists.mp moves
  unfold next drive
  rw [made]
  rfl

def marked : Delivery :=
  Delivery.new 1 "" "order" [7] [("tenant", .text "north"), (Retry.timeHeader, .boolean true),
    (Retry.countHeader, .text "many")]

def rejectingMade (p : RetryPolicy) : World Memory :=
  let t := ((Topology.new "orders").withQueue "orders").underKey "order"
  let clock (now : Instant) : Int := 1700000000 + now / 1000
  let start : World Memory := { env := { broker := {}, wallClock := clock } }
  (start.make "reader" (.consumer t p {} fun _ _ => ⟨5, .error "rejected"⟩)).settle

def rejecting (p : RetryPolicy) : World Memory :=
  let w := ((rejectingMade p).call 0 (.start .locking)).settle
  { w with env :=
      w.env.withBroker (w.env.broker.deliver "orders" "order" marked.body marked.headers) }.settle

theorem rejectingReached {p : RetryPolicy}
    (seen : ((rejectingMade p).clients[0]?.any fun c => c.held && c.consumer?.isSome) = true) :
    Reachable (fun _ _ => True) (rejecting p) := by
  have made : Reachable (fun _ _ => True) (rejectingMade p) := reachableMade ⟨rfl, rfl, rfl⟩ _ _
  have started := reachableSettled (reachableCall made seen (x := .start .locking) fun _ => trivial)
  exact reachableSettled (reachableBroker started trivial)

def rejected (j : Nat) (t : Instant) (w : World Memory) : World Memory :=
  next (.client 0 (.worker j)) (next (.client 0 (.worker j)) (w.advance t))

def rejectedOnce (p : RetryPolicy) : World Memory := rejected 0 5 (rejecting p)

theorem rejectedFails : Fails (fun _ _ => True) 0 0 0 "rejected" ((rejecting {}).advance 5)
    (rejectedOnce {}) :=
  .scheduled rfl rfl (nextStep (by decide +kernel)) (.refl _) rfl rfl rfl
    (nextStep (by decide +kernel))

end World

end AmqpClient
