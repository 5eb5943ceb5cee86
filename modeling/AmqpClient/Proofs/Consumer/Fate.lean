import AmqpClient.Consumer.RetryTask
import AmqpClient.Consumer.Worker
import AmqpClient.Proofs.Counts
/-! What becomes of a message. It is handled until an attempt succeeds or the budget is spent, and
between two attempts its copy is published when the wait is over. -/
namespace AmqpClient

inductive Deed where
  | handled
  | copied (exchange key : String) (accepted : Bool)
  | settled (s : Settlement) (accepted : Bool)
  deriving DecidableEq

structure Event where
  deed : Deed
  time : Instant
  body : Bytes
  count : Nat
  deriving DecidableEq

structure Posted where
  time : Instant
  body : Bytes
  headers : Header.Table

structure Desk where
  client : Nat
  channel : ChannelId
  stream : StreamId
  queue : String
  exchange : String
  key : String
  policy : RetryPolicy
  outcome : Bytes → UInt32 → Except String Unit

namespace Desk

variable (x : Desk)

def fails (b : Bytes) (n : Nat) : Bool :=
  match x.outcome b (UInt32.ofNat n) with
  | .ok () => false
  | .error _ => true

def wait (n : Nat) : Nat := (Retry.delay (UInt32.ofNat n) x.policy).milliseconds

def budget (n : Nat) : Nat := x.policy.maxRetries.toNat - n

def failures (m : Nat) (b : Bytes) (n : Nat) : Nat :=
  ((List.range m).takeWhile fun i => x.fails b (n + i)).length

def dueAt (t : Instant) (n i : Nat) : Instant := t + total (fun j => x.wait (n + j)) (List.range i)

def attempt (t : Instant) (b : Bytes) (n i : Nat) : List Event :=
  [⟨.handled, x.dueAt t n i, b, n + i⟩, ⟨.settled .ack true, x.dueAt t n i, b, n + i⟩]

def copy (t : Instant) (b : Bytes) (n i : Nat) : Event :=
  ⟨.copied x.exchange x.key true, x.dueAt t n i, b, n + i⟩

def refusal (t : Instant) (b : Bytes) (n i : Nat) : Event :=
  ⟨.settled (.reject false) true, x.dueAt t n i, b, n + i⟩

def course (m f : Nat) (t : Instant) (b : Bytes) (n : Nat) : List Event :=
  (List.range (min (f + 1) m)).flatMap (fun i => x.attempt t b n i) ++
    (List.range (min f m)).map (fun i => x.copy t b n (i + 1)) ++
    if m ≤ f then [x.refusal t b n m] else []

def fate (p : Posted) : List Event :=
  let n := (Retry.count p.headers).toNat
  x.course (x.budget n) (x.failures (x.budget n) p.body n) p.time p.body n

def future : Nat → Instant → Bytes → Nat → List Event
  | 0, t, b, n => [⟨.settled (.reject false) true, t, b, n⟩]
  | m + 1, t, b, n =>
    ⟨.handled, t, b, n⟩ :: ⟨.settled .ack true, t, b, n⟩ ::
      if x.fails b n then
        ⟨.copied x.exchange x.key true, t + x.wait n, b, n + 1⟩ ::
          future m (t + x.wait n) b (n + 1)
      else []

def due (t : Instant) (b : Bytes) (n : Nat) : List Event := x.future (x.budget n) t b n

def sequel (t : Instant) (b : Bytes) (n : Nat) : List Event :=
  if x.fails b n then
    ⟨.copied x.exchange x.key true, t + x.wait n, b, n + 1⟩ :: x.due (t + x.wait n) b (n + 1)
  else []

variable {x}

theorem dueNext {t : Instant} {b : Bytes} {n : Nat} (left : n < x.policy.maxRetries.toNat) :
    x.due t b n = ⟨.handled, t, b, n⟩ :: ⟨.settled .ack true, t, b, n⟩ :: x.sequel t b n := by
  have more : x.budget n = x.budget (n + 1) + 1 := by unfold budget; omega
  unfold due
  rw [more]
  rfl

theorem dueSpent {t : Instant} {b : Bytes} {n : Nat} (spent : x.policy.maxRetries.toNat ≤ n) :
    x.due t b n = [⟨.settled (.reject false) true, t, b, n⟩] := by
  have none : x.budget n = 0 := Nat.sub_eq_zero_of_le spent
  unfold due
  rw [none]
  rfl

theorem dueAtNext (t : Instant) (n i : Nat) :
    x.dueAt t n (i + 1) = x.dueAt (t + x.wait n) (n + 1) i := by
  have shift : (fun j => x.wait (n + (j + 1))) = fun j => x.wait (n + 1 + j) := by
    funext j
    rw [Nat.add_assoc, Nat.add_comm 1]
  unfold dueAt
  rw [List.range_succ_eq_map, total, totalMap, shift, Nat.add_zero]
  exact (Nat.add_assoc ..).symm

theorem failuresNext (m : Nat) (b : Bytes) (n : Nat) :
    x.failures (m + 1) b n = if x.fails b n then x.failures m b (n + 1) + 1 else 0 := by
  have shift : ((fun i => x.fails b (n + i)) ∘ Nat.succ) = fun i => x.fails b (n + 1 + i) := by
    funext i
    simp only [Function.comp, Nat.succ_eq_add_one]
    rw [Nat.add_assoc, Nat.add_comm 1]
  unfold failures
  rw [List.range_succ_eq_map, List.takeWhile_cons, Nat.add_zero]
  cases x.fails b n with
  | true => simp only [if_true, List.length_cons, List.takeWhile_map, List.length_map, shift]
  | false => rfl

theorem attemptNext (t : Instant) (b : Bytes) (n i : Nat) :
    x.attempt t b n (i + 1) = x.attempt (t + x.wait n) b (n + 1) i := by
  have place : n + (i + 1) = n + 1 + i := by omega
  unfold attempt
  rw [dueAtNext, place]

theorem copyNext (t : Instant) (b : Bytes) (n i : Nat) :
    x.copy t b n (i + 1) = x.copy (t + x.wait n) b (n + 1) i := by
  have place : n + (i + 1) = n + 1 + i := by omega
  unfold copy
  rw [dueAtNext, place]

theorem refusalNext (t : Instant) (b : Bytes) (n i : Nat) :
    x.refusal t b n (i + 1) = x.refusal (t + x.wait n) b (n + 1) i := by
  have place : n + (i + 1) = n + 1 + i := by omega
  unfold refusal
  rw [dueAtNext, place]

theorem courseFailed (m f : Nat) (t : Instant) (b : Bytes) (n : Nat) (ev : Event) :
    (x.course (m + 1) (f + 1) t b n).count ev =
      (x.attempt t b n 0 ++ [x.copy (t + x.wait n) b (n + 1) 0]).count ev +
        (x.course m f (t + x.wait n) b (n + 1)).count ev := by
  have handled : min (f + 1 + 1) (m + 1) = min (f + 1) m + 1 := by omega
  have copied : min (f + 1) (m + 1) = min f m + 1 := by omega
  have spent : m + 1 ≤ f + 1 ↔ m ≤ f := by omega
  unfold course
  rw [handled, copied, List.range_succ_eq_map, List.range_succ_eq_map]
  simp only [List.flatMap_cons, List.flatMap_map, List.map_cons, List.map_map, Function.comp_def,
    Nat.succ_eq_add_one, spent, attemptNext, copyNext, refusalNext, List.count_append,
    List.count_cons, List.count_nil]
  omega

theorem courseOfFuture (m : Nat) (t : Instant) (b : Bytes) (n : Nat) (ev : Event) :
    (x.future m t b n).count ev = (x.course m (x.failures m b n) t b n).count ev := by
  -- on the attempts left: a first one that fails puts the others off by its wait
  induction m generalizing t n with
  | zero => rfl
  | succ m ih =>
    rw [failuresNext]
    unfold future
    cases fails : x.fails b n with
    | true =>
      rw [if_pos rfl, if_pos rfl, courseFailed, ← ih]
      simp only [attempt, copy, dueAt, List.range_zero, total, Nat.add_zero, List.count_append,
        List.count_cons, List.count_nil]
      omega
    | false =>
      rw [if_neg Bool.false_ne_true, if_neg Bool.false_ne_true]
      have one : min (0 + 1) (m + 1) = 1 := by omega
      have none : min 0 (m + 1) = 0 := Nat.zero_min _
      unfold course
      rw [one, none, if_neg (Nat.not_succ_le_zero m)]
      simp only [List.range_one, List.range_zero, List.flatMap_cons, List.flatMap_nil, List.map_nil,
        List.append_nil, attempt, dueAt, total, Nat.add_zero]

theorem fateOfDue (p : Posted) (ev : Event) :
    (x.due p.time p.body (Retry.count p.headers).toNat).count ev = (x.fate p).count ev :=
  courseOfFuture ..

theorem dueLater {t : Instant} {b : Bytes} {m n : Nat} {ev : Event}
    (mem : ev ∈ x.future m t b n) : t ≤ ev.time := by
  induction m generalizing t n with
  | zero =>
    cases List.mem_singleton.mp mem
    exact Nat.le_refl t
  | succ m ih =>
    unfold future at mem
    rcases List.mem_cons.mp mem with rfl | mem
    · exact Nat.le_refl t
    rcases List.mem_cons.mp mem with rfl | mem
    · exact Nat.le_refl t
    split at mem
    · rcases List.mem_cons.mp mem with rfl | mem
      · exact Nat.le_add_right t _
      · exact Nat.le_trans (Nat.le_add_right t _) (ih mem)
    · cases mem

end Desk

namespace Retry

theorem headersList (n : UInt32) (failure : String) (unix : Int64) :
    headers n failure unix = [(errorHeader, .text failure), (timeHeader, .longLongInt unix),
      (countHeader, .longInt (counter n))] := by
  have first : errorHeader < countHeader := by decide
  have second : ¬ timeHeader < errorHeader := by decide
  have third : timeHeader ≠ errorHeader := by decide
  have fourth : timeHeader < countHeader := by decide
  unfold headers Assoc.ofList Assoc.insertAll
  simp only [List.foldl_cons, List.foldl_nil, Assoc.insert, first, second, third, fourth, if_true,
    if_false]

theorem counterExact {n : UInt32} (small : n.toNat < Nat.pow 2 31) :
    (counter n).toInt = n.toNat := by
  have limit : Nat.pow 2 31 = 2147483648 := by decide
  have fits : 2 * n.toNat < 2 ^ 32 := by omega
  unfold counter
  rw [if_pos small]
  exact BitVec.toInt_eq_toNat_of_lt fits

theorem nextExact {n : UInt32} (small : n.toNat + 1 < Nat.pow 2 31) :
    (next n).toNat = n.toNat + 1 := by
  have low : Nat.pow 2 31 = 2147483648 := by decide
  have high : Nat.pow 2 32 = 4294967296 := by decide
  unfold next
  rw [if_pos (by omega), UInt32.toNat_add]
  exact Nat.mod_eq_of_lt (by simp; omega)

theorem countOfCounter {table : Header.Table} {n : UInt32} (small : n.toNat < Nat.pow 2 31)
    (found : Assoc.find? countHeader table = some (.longInt (counter n))) : count table = n := by
  have value := counterExact small
  have positive : ¬ counter n < 0 := by
    rw [Int32.lt_iff_toInt_lt, value]
    simp
  unfold count
  rw [found]
  dsimp only
  rw [if_neg positive, value]
  simp

end Retry

theorem Consumer.countOfCopy (d : Delivery) (failure : String) (unix : Int)
    (small : (Retry.count d.headers).toNat + 1 < Nat.pow 2 31) :
    (Retry.count (copyHeaders d failure unix)).toNat = (Retry.count d.headers).toNat + 1 := by
  have found : Assoc.find? Retry.countHeader (copyHeaders d failure unix) =
      some (.longInt (Retry.counter (Retry.next (Retry.count d.headers)))) := by
    unfold copyHeaders Assoc.insertAll
    rw [Retry.headersList]
    simp only [List.foldl_cons, List.foldl_nil, Assoc.findInsert, if_true]
  have next := Retry.nextExact small
  rw [Retry.countOfCounter (by omega) found, next]

end AmqpClient
