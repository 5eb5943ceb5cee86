import AmqpClient.Broker.Memory
import AmqpClient.Proofs.Consumer.Fate
import AmqpClient.Proofs.Consumer.Moves
/-! The retry budget. A message whose handler fails every time comes back as a copy with a counter
one higher, as long as the header can hold it. A budget within what the header holds is spent after
exactly the calls that are left of it; a larger one never is. -/
namespace AmqpClient

namespace Retry

def maxCount : Nat := Nat.pow 2 31 - 1

theorem counterCapped (n : UInt32) : (counter n).toInt = min n.toNat maxCount := by
  have limit : Nat.pow 2 31 = 2147483648 := by decide
  unfold maxCount
  by_cases small : n.toNat < Nat.pow 2 31
  · rw [counterExact small]
    omega
  · unfold counter
    rw [if_neg small, Nat.min_eq_right (by omega)]
    rfl

theorem countCapped (table : Header.Table) : (count table).toNat ≤ maxCount := by
  unfold count
  split
  · rename_i n _
    split
    · exact Nat.zero_le _
    · have high := n.toInt_lt
      unfold maxCount
      have limit : Nat.pow 2 31 = 2147483648 := by decide
      refine Nat.le_trans (Nat.mod_le _ _) ?_
      omega
  · exact Nat.zero_le _

theorem nextCounted (table : Header.Table) : (next (count table)).toNat = (count table).toNat + 1 := by
  have capped := countCapped table
  have limit : maxCount = 2147483647 := by decide
  have high : Nat.pow 2 32 = 4294967296 := by decide
  unfold next
  rw [if_pos (by omega), UInt32.toNat_add]
  exact Nat.mod_eq_of_lt (by simp; omega)

theorem countOfLong {table : Header.Table} {c : Int32} {n : Nat}
    (found : Assoc.find? countHeader table = some (.longInt c)) (value : c.toInt = n) :
    (count table).toNat = n := by
  have positive : ¬ c < 0 := by
    rw [Int32.lt_iff_toInt_lt, value]
    exact Int.not_lt.mpr (Int.natCast_nonneg n)
  have high := c.toInt_lt
  unfold count
  rw [found]
  dsimp only
  rw [if_neg positive, value, Int.toNat_natCast]
  exact Nat.mod_eq_of_lt (by omega)

theorem countOfHeader {table : Header.Table} {n : UInt32}
    (found : Assoc.find? countHeader table = some (.longInt (counter n))) :
    (count table).toNat = min n.toNat maxCount :=
  countOfLong found (counterCapped n)

end Retry

namespace Consumer

open Retry (maxCount)

theorem copyCounted (d : Delivery) (failure : String) (unix : Int) :
    (Retry.count (copyHeaders d failure unix)).toNat =
      min ((Retry.count d.headers).toNat + 1) maxCount := by
  have found : Assoc.find? Retry.countHeader (copyHeaders d failure unix) =
      some (.longInt (Retry.counter (Retry.next (Retry.count d.headers)))) := by
    unfold copyHeaders Assoc.insertAll
    rw [Retry.headersList]
    simp only [List.foldl_cons, List.foldl_nil, Assoc.findInsert, if_true]
  rw [Retry.countOfHeader found, Retry.nextCounted]

inductive Round {β : Type} [Broker β] (i : Nat) (e : Env β) (k : Consumer) :
    Nat → List Header.Table → Env β → Consumer → Prop where
  | refl : Round i e k 0 [] e k
  | work {calls copies f l g m} (before : Round i e k calls copies f l)
      (made : l.workerStep i f = some (g, m)) :
      Round i e k (calls + (m.handled.length - l.handled.length))
        (copies ++ (m.retries.drop l.retries.length).map fun r => r.envelope.headers) g m
  | others {calls copies f l g m} (before : Round i e k calls copies f l)
      (worker : m.workers[i]? = l.workers[i]?) (policy : m.retry = l.retry)
      (handler : m.handler = l.handler) : Round i e k calls copies g m

def Failing (k : Consumer) (d : Delivery) : Prop :=
  ∀ past, ∃ failure, (k.handler past d).result = .error failure

def Handed (p : RetryPolicy) (d : Delivery) (calls : Nat) (copies : List Header.Table) : Prop :=
  ∃ (β : Type) (_ : Broker β) (i : Nat) (c : ChannelId) (e f : Env β) (k l : Consumer) (y : Worker),
    k.retry = p ∧ k.Failing d ∧ k.workers[i]? = some (worker d c) ∧ Round i e k calls copies f l ∧
      l.workers[i]? = some y ∧ y.phase.finished = true

inductive Retried (p : RetryPolicy) (h : Header.Table) : Nat → Header.Table → Prop where
  | first : Retried p h 0 h
  | again {n calls copy} {d : Delivery} (before : Retried p h n d.headers)
      (handed : Handed p d calls [copy]) : Retried p h (n + calls) copy

def callsLeft (p : RetryPolicy) (h : Header.Table) : Nat :=
  p.maxRetries.toNat - (Retry.count h).toNat

def Spent (p : RetryPolicy) (h : Header.Table) : Prop := p.maxRetries ≤ Retry.count h

def WorkerPhase.disposition? : WorkerPhase → Option Disposition
  | .settling _ x => some x
  | .finishing x => some x
  | .done x => some x
  | _ => none

inductive Stage (p : RetryPolicy) (d : Delivery) : WorkerPhase → Nat → List Header.Table → Prop where
  | starting : Stage p d .starting 0 []
  | handling {ends failure} (left : ¬ Spent p d.headers) :
      Stage p d (.handling ends (.error failure)) 1 []
  | scheduling {failure} (left : ¬ Spent p d.headers) : Stage p d (.scheduling failure) 1 []
  | copied {x n delay failure unix} (left : ¬ Spent p d.headers)
      (here : x.disposition? = some (.retried n delay)) :
      Stage p d x 1 [copyHeaders d failure unix]
  | refused {x} (spent : Spent p d.headers) (here : x.disposition? = some .deadLettered) :
      Stage p d x 0 []

section

variable {β : Type} [Broker β] {i : Nat} {e f g : Env β} {k l m : Consumer} {x : Worker}
  {p : RetryPolicy} {d : Delivery} {calls : Nat} {copies : List Header.Table}

theorem workerSetSelf {y : Worker} (found : k.workers[i]? = some x) :
    (k.setWorker i y).workers[i]? = some y :=
  List.getElem?_set_self (List.getElem?_eq_some_iff.mp found).1

theorem stageSame {y : Worker} {q : WorkerPhase} (found : l.workers[i]? = some x)
    (same : y.delivery = d) (next : Stage p d q calls copies) :
    ∃ z, (l.setWorker i (y.goto q)).workers[i]? = some z ∧ z.delivery = d ∧
      Stage p d z.phase (calls + ((l.setWorker i (y.goto q)).handled.length - l.handled.length))
        (copies ++ ((l.setWorker i (y.goto q)).retries.drop l.retries.length).map
          fun r => r.envelope.headers) := by
  refine ⟨_, workerSetSelf found, same, ?_⟩
  have none : (l.setWorker i (y.goto q)).retries.drop l.retries.length = [] :=
    List.drop_eq_nil_of_le (Nat.le_refl _)
  rw [none, List.map_nil, List.append_nil]
  change Stage p d q (calls + (l.handled.length - l.handled.length)) copies
  rwa [Nat.sub_self, Nat.add_zero]

theorem stageStep (policy : l.retry = p) (fails : l.Failing d) (found : l.workers[i]? = some x)
    (same : x.delivery = d) (stage : Stage p d x.phase calls copies)
    (made : l.workerStep i f = some (g, m)) :
    ∃ y, m.workers[i]? = some y ∧ y.delivery = d ∧
      Stage p d y.phase (calls + (m.handled.length - l.handled.length))
        (copies ++ (m.retries.drop l.retries.length).map fun r => r.envelope.headers) := by
  obtain ⟨x', there, move⟩ := workerMove made
  cases Option.some.inj (found.symm.trans there)
  subst same policy
  cases move with
  | refuse here spent =>
    rw [here] at stage
    cases stage with
    | starting => exact stageSame found rfl (.refused spent rfl)
    | copied _ other | refused _ other => cases other
  | handle here left =>
    rw [here] at stage
    cases stage with
    | copied _ other | refused _ other => cases other
    | starting =>
      obtain ⟨failure, result⟩ := fails l.handled
      refine ⟨_, workerSetSelf found, rfl, ?_⟩
      have none : l.retries.drop l.retries.length = [] := List.drop_eq_nil_of_le (Nat.le_refl _)
      have one : (x.delivery :: l.handled).length - l.handled.length = 1 := by
        rw [List.length_cons]; omega
      change Stage _ _ (.handling _ _) (0 + ((x.delivery :: l.handled).length - l.handled.length))
        ([] ++ (l.retries.drop l.retries.length).map _)
      rw [none, one, result]
      exact .handling left
  | succeed here =>
    rw [here] at stage
    cases stage with
    | copied _ other | refused _ other => cases other
  | fail here =>
    rw [here] at stage
    cases stage with
    | handling left => exact stageSame found rfl (.scheduling left)
    | copied _ other | refused _ other => cases other
  | schedule here =>
    rw [here] at stage
    cases stage with
    | copied _ other | refused _ other => cases other
    | scheduling left =>
      refine ⟨_, workerSetSelf (k := l.schedule ..) found, rfl, ?_⟩
      change Stage _ _ _ (1 + (l.handled.length - l.handled.length))
        ([] ++ ((l.retries ++ [_]).drop l.retries.length).map _)
      rw [List.drop_left, Nat.sub_self]
      exact .copied left rfl
  | settle here =>
    rw [here] at stage
    cases stage with
    | copied left here => cases here; exact stageSame found (deliveryNoted _ x) (.copied left rfl)
    | refused spent here => cases here; exact stageSame found (deliveryNoted _ x) (.refused spent rfl)
  | @finish disposition here =>
    rw [here] at stage
    have next : Stage l.retry x.delivery (.done disposition) calls copies := by
      cases stage with
      | copied left here => cases here; exact .copied left rfl
      | refused spent here => cases here; exact .refused spent rfl
    exact stageSame found rfl next

theorem roundStage {c : ChannelId} (policy : k.retry = p) (fails : k.Failing d)
    (given : k.workers[i]? = some (worker d c)) (round : Round i e k calls copies f l) :
    l.retry = p ∧ l.Failing d ∧
      ∃ x, l.workers[i]? = some x ∧ x.delivery = d ∧ Stage p d x.phase calls copies := by
  induction round with
  | refl => exact ⟨policy, fails, _, given, rfl, .starting⟩
  | @work calls copies f l g m before made ih =>
    obtain ⟨policy, fails, x, found, same, stage⟩ := ih
    have frame : m.retry = l.retry ∧ m.handler = l.handler := by
      obtain ⟨_, -, move⟩ := workerMove made
      cases move <;> exact ⟨rfl, rfl⟩
    refine ⟨frame.1.trans policy, ?_, stageStep policy fails found same stage made⟩
    unfold Failing
    rwa [frame.2]
  | others before worker samePolicy handler ih =>
    obtain ⟨policy, fails, x, found, rest⟩ := ih
    refine ⟨samePolicy.trans policy, ?_, x, worker.trans found, rest⟩
    unfold Failing
    rwa [handler]

theorem handedDecided (handed : Handed p d calls copies) :
    (Spent p d.headers ∧ calls = 0 ∧ copies = []) ∨
      (¬ Spent p d.headers ∧ calls = 1 ∧ ∃ failure unix, copies = [copyHeaders d failure unix]) := by
  obtain ⟨β, _, i, c, e, f, k, l, y, policy, fails, given, round, found, ended⟩ := handed
  obtain ⟨-, -, x, there, same, stage⟩ := roundStage policy fails given round
  cases Option.some.inj (there.symm.trans found)
  generalize y.phase = q at stage ended
  cases stage with
  | starting | handling | scheduling => cases ended
  | copied left => exact .inr ⟨left, rfl, _, _, rfl⟩
  | refused spent => exact .inl ⟨spent, rfl, rfl⟩

def WorkerPhase.stepsLeft : WorkerPhase → Nat
  | .starting => 5
  | .handling .. => 4
  | .scheduling _ => 3
  | .settling .. => 2
  | .finishing _ => 1
  | .done _ => 0

theorem stepTaken (found : k.workers[i]? = some x) (move : WorkerMove i e k x f l) :
    ∃ y, l.workers[i]? = some y ∧ y.phase.stepsLeft < x.phase.stepsLeft := by
  cases move with
  | refuse here => exact ⟨_, workerSetSelf found, by rw [here]; exact Nat.lt_of_sub_eq_succ rfl⟩
  | handle here => exact ⟨_, workerSetSelf found, by rw [here]; exact Nat.lt_succ_self 4⟩
  | succeed here => exact ⟨_, workerSetSelf found, by rw [here]; exact Nat.lt_of_sub_eq_succ rfl⟩
  | fail here => exact ⟨_, workerSetSelf found, by rw [here]; exact Nat.lt_succ_self 3⟩
  | schedule here =>
    exact ⟨_, workerSetSelf (k := k.schedule ..) found, by rw [here]; exact Nat.lt_succ_self 2⟩
  | settle here => exact ⟨_, workerSetSelf found, by rw [here]; exact Nat.lt_succ_self 1⟩
  | finish here => exact ⟨_, workerSetSelf found, by rw [here]; exact Nat.lt_succ_self 0⟩

theorem workerGoesOn (e : Env β) (found : k.workers[i]? = some x)
    (going : x.phase.finished = false) :
    ∃ t, (k.workerStep i { e with now := t }).isSome = true := by
  cases phase : x.phase with
  | handling ends result =>
    refine ⟨ends, ?_⟩
    cases result <;> simp only [workerStep, found, phase, Nat.lt_irrefl, if_false, Option.isSome_some]
  | starting =>
    refine ⟨e.now, ?_⟩
    simp only [workerStep, found, phase]
    split <;> rfl
  | done => rw [phase] at going; cases going
  | scheduling | settling | finishing =>
    exact ⟨e.now, by simp only [workerStep, found, phase, Option.isSome_some]⟩

theorem roundEnds (round : Round i e k calls copies f l) (found : l.workers[i]? = some x) :
    ∃ calls copies g m y, Round i e k calls copies g m ∧ m.workers[i]? = some y ∧
      y.phase.finished = true := by
  -- on the steps left; the clock is put where the next one can be made
  generalize fuel : x.phase.stepsLeft = n
  induction n using Nat.strongRecOn generalizing calls copies f l x with
  | ind n ih =>
    cases ended : x.phase.finished with
    | true => exact ⟨calls, copies, f, l, x, round, found, ended⟩
    | false =>
      obtain ⟨t, stirs⟩ := workerGoesOn f found ended
      obtain ⟨⟨g, m⟩, made⟩ := Option.isSome_iff_exists.mp stirs
      obtain ⟨x', there, move⟩ := workerMove made
      cases Option.some.inj (found.symm.trans there)
      obtain ⟨y, after, less⟩ := stepTaken found move
      have waited : Round i e k calls copies { f with now := t } l := .others round rfl rfl rfl
      exact ih _ (fuel ▸ less) (.work waited made) after rfl

theorem everyHanded (p : RetryPolicy) (d : Delivery) : ∃ calls copies, Handed p d calls copies := by
  let k : Consumer :=
    { retry := p, options := {}, handler := fun _ _ => { result := .error "" }, permits := 0
      workers := [worker d 0] }
  let e : Env Broker.Memory := { broker := {}, wallClock := fun _ => 0 }
  have given : k.workers[0]? = some (worker d 0) := rfl
  obtain ⟨calls, copies, f, l, y, round, found, ended⟩ := roundEnds (e := e) .refl given
  exact ⟨calls, copies, _, _, 0, 0, e, f, k, l, y, rfl, fun _ => ⟨_, rfl⟩, given, round, found, ended⟩

variable {h table : Header.Table} {n : Nat}

theorem retriedCount (retried : Retried p h n table) :
    (Retry.count table).toNat = min ((Retry.count h).toNat + n) maxCount := by
  induction retried with
  | first =>
    have := Retry.countCapped h
    omega
  | @again n calls copy d before handed ih =>
    rcases handedDecided handed with ⟨-, -, none⟩ | ⟨-, rfl, failure, unix, same⟩
    · cases none
    · cases same
      rw [copyCounted, ih]
      omega

theorem spentIff : Spent p table ↔ p.maxRetries.toNat ≤ (Retry.count table).toNat :=
  UInt32.le_iff_toNat_le

theorem retriedWithin (small : p.maxRetries.toNat ≤ maxCount) (retried : Retried p h n table) :
    n ≤ callsLeft p h := by
  induction retried with
  | first => exact Nat.zero_le _
  | @again n calls copy d before handed ih =>
    rcases handedDecided handed with ⟨-, -, none⟩ | ⟨left, rfl, -⟩
    · cases none
    · have counted := retriedCount before
      rw [spentIff] at left
      unfold callsLeft at ih ⊢
      omega

theorem retriedOnce (left : ¬ Spent p table) (retried : Retried p h n table) :
    ∃ copy, Retried p h (n + 1) copy := by
  let d : Delivery := Delivery.new 0 "" "" [] table
  obtain ⟨calls, copies, handed⟩ := everyHanded p d
  rcases handedDecided handed with ⟨spent, -⟩ | ⟨-, rfl, failure, unix, rfl⟩
  · exact absurd spent left
  · exact ⟨_, .again (d := d) retried handed⟩

theorem spentLast (small : p.maxRetries.toNat ≤ maxCount) (retried : Retried p h n table) :
    Spent p table ↔ n = callsLeft p h := by
  have counted := retriedCount retried
  have within := retriedWithin small retried
  have capped := Retry.countCapped h
  rw [spentIff]
  unfold callsLeft at within ⊢
  constructor
  · intro spent
    omega
  · intro last
    omega

theorem retriedToLast (small : p.maxRetries.toNat ≤ maxCount) (few : n ≤ callsLeft p h) :
    ∃ table, Retried p h n table := by
  induction n with
  | zero => exact ⟨h, .first⟩
  | succ n ih =>
    obtain ⟨table, retried⟩ := ih (Nat.le_of_succ_le few)
    exact retriedOnce (fun spent => Nat.ne_of_lt few ((spentLast small retried).mp spent)) retried

theorem neverSpent (large : maxCount < p.maxRetries.toNat) (retried : Retried p h n table) :
    ¬ Spent p table := by
  have counted := retriedCount retried
  rw [spentIff]
  omega

theorem retriedForever (large : maxCount < p.maxRetries.toNat) (n : Nat) :
    ∃ table, Retried p h n table := by
  induction n with
  | zero => exact ⟨h, .first⟩
  | succ n ih =>
    obtain ⟨table, retried⟩ := ih
    exact retriedOnce (neverSpent large retried) retried

structure Budgeted (p : RetryPolicy) (h : Header.Table) : Prop where
  handed : ∀ d calls copies, Handed p d calls copies →
    (Spent p d.headers → calls = 0 ∧ copies = []) ∧
      (¬ Spent p d.headers → calls = 1 ∧ ∃ copy, copies = [copy])
  counted : ∀ n table, Retried p h n table →
    (Retry.count table).toNat = min ((Retry.count h).toNat + n) maxCount
  within : p.maxRetries.toNat ≤ maxCount → ∀ n table, Retried p h n table →
    n ≤ callsLeft p h ∧ (Spent p table ↔ n = callsLeft p h)
  ends : p.maxRetries.toNat ≤ maxCount → ∃ table, Retried p h (callsLeft p h) table
  endless : maxCount < p.maxRetries.toNat → ∀ n,
    (∃ table, Retried p h n table) ∧ ∀ table, Retried p h n table → ¬ Spent p table

theorem retryBudget (p : RetryPolicy) (h : Header.Table) : Budgeted p h where
  handed d calls copies handed := by
    rcases handedDecided handed with ⟨spent, none⟩ | ⟨left, once, failure, unix, same⟩
    · exact ⟨fun _ => none, fun left => absurd spent left⟩
    · exact ⟨fun spent => absurd spent left, fun _ => ⟨once, _, same⟩⟩
  counted _ _ := retriedCount
  within small _ _ retried := ⟨retriedWithin small retried, spentLast small retried⟩
  ends small := retriedToLast small (Nat.le_refl _)
  endless large n := ⟨retriedForever large n, fun _ => neverSpent large⟩

def overlong : RetryPolicy := { maxRetries := 2147483648 }

def worn : Header.Table := [(Retry.countHeader, .longInt 2147483647)]

theorem overlongNeverSpent : callsLeft overlong worn = 1 ∧
    ∀ n, (∃ table, Retried overlong worn n table) ∧
      ∀ table, Retried overlong worn n table → ¬ Spent overlong table := by
  have large : maxCount < overlong.maxRetries.toNat := by decide
  exact ⟨by decide, fun n => ⟨retriedForever large n, fun _ => neverSpent large⟩⟩

end

end Consumer

end AmqpClient
