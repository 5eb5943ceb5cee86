import AmqpClient.Proofs.Installation
import Mathlib.Logic.Function.Iterate
/-! Installing again. A broker takes a declaration of something it does not have, or of what it has
exactly so, and refuses one that differs. At such a broker a topology can be installed exactly if it
gives no name to two different things, and then it can be installed any number of times: nothing
changes after the first. The check of a topology does not look at that. -/
namespace AmqpClient

namespace Declaration

def clashes : Declaration → Declaration → Bool
  | .exchange a, .exchange b => a.name == b.name && a != b
  | .queue a, .queue b => a.name == b.name && a != b
  | _, _ => false

def Anchored (has : Declaration → Prop) : Declaration → Prop
  | .exchange _ => True
  | .queue _ => True
  | .bind b => (∃ q, has (.queue q) ∧ q.name = b.queue) ∧ ∃ e, has (.exchange e) ∧ e.name = b.exchange

theorem clashesSelf (d : Declaration) : d.clashes d = false := by
  cases d <;> simp [clashes]

theorem clashesSymm (a b : Declaration) : a.clashes b = b.clashes a := by
  cases a <;> cases b <;> simp only [clashes]
  all_goals rw [Bool.beq_comm, bne_comm]

end Declaration

structure Strict {σ : Type u} (call : Declaration → Attempt σ) (has : σ → Declaration → Prop) :
    Prop where
  takes : ∀ s d, (∀ x, has s x → x.clashes d = false) → d.Anchored (has s) →
    ∃ s', call d s = (s', .ok ()) ∧ (∀ x, has s' x ↔ has s x ∨ x = d) ∧ (has s d → s' = s)
  refuses : ∀ s d x, has s x → x.clashes d = true → ∃ e, call d s = (s, .error e)

namespace Topology

def Consistent (ds : List Declaration) : Prop := ∀ a ∈ ds, ∀ b ∈ ds, a.clashes b = false

def Unambiguous (t : Topology) : Prop :=
  (t.deadLetterExchangeName = t.exchangeName → t.exchangeKind = .direct) ∧
    (t.deadLetterQueueName = t.queueName → t.queueName = "")

variable {σ : Type u} {call : Declaration → Attempt σ} {has : σ → Declaration → Prop} {t : Topology}
  {seen ds : List Declaration} {d : Declaration} {s : σ}

theorem consistentMore (consistent : Consistent seen) (free : ∀ x ∈ seen, x.clashes d = false) :
    Consistent (seen ++ [d]) := by
  intro a first b second
  rcases List.mem_append.mp first with old | new <;> rcases List.mem_append.mp second with old' | new'
  · exact consistent a old b old'
  · cases List.mem_singleton.mp new'
    exact free a old
  · cases List.mem_singleton.mp new
    rw [Declaration.clashesSymm]
    exact free b old'
  · cases List.mem_singleton.mp new
    cases List.mem_singleton.mp new'
    exact d.clashesSelf

theorem anchoredOf (refers : Refers seen d) (known : ∀ x, has s x ↔ x ∈ seen) :
    d.Anchored (has s) := by
  cases d with
  | exchange | queue => trivial
  | bind b =>
    obtain ⟨⟨q, queue, named⟩, e, exchange, named'⟩ := refers
    exact ⟨⟨q, (known _).mpr queue, named⟩, e, (known _).mpr exchange, named'⟩

inductive Taken (call : Declaration → Attempt σ) (has : σ → Declaration → Prop)
    (seen ds : List Declaration) : σ × Outcome → Prop where
  | whole {s : σ} (known : ∀ x, has s x ↔ x ∈ seen ++ ds) (consistent : Consistent (seen ++ ds)) :
      Taken call has seen ds (s, .ok ())
  | part {s : σ} {e : Error} (done rest : List Declaration) (x d : Declaration) (split : ds = done ++ d :: rest)
      (known : ∀ x, has s x ↔ x ∈ seen ++ done) (consistent : Consistent (seen ++ done))
      (other : x ∈ seen ++ done) (clash : x.clashes d = true) (refused : call d s = (s, .error e)) :
      Taken call has seen ds (s, .error e)

theorem Taken.step {r : σ × Outcome} (taken : Taken call has (seen ++ [d]) ds r) :
    Taken call has seen (d :: ds) r := by
  cases taken with
  | whole known consistent =>
    rw [List.append_assoc] at known consistent
    exact .whole known consistent
  | part done rest x failed split known consistent other clash refused =>
    rw [List.append_assoc] at known consistent other
    exact .part (d :: done) rest x failed (by rw [split]; rfl) known consistent other clash refused

theorem carryOutStrict (strict : Strict call has) (known : ∀ x, has s x ↔ x ∈ seen)
    (consistent : Consistent seen) (grounded : Grounded seen ds) :
    Taken call has seen ds (carryOut call ds s) := by
  induction ds generalizing seen s with
  | nil =>
    exact .whole (by simpa using known) (by simpa using consistent)
  | cons d ds ih =>
    obtain ⟨refers, later⟩ := grounded
    by_cases clash : ∃ x ∈ seen, x.clashes d = true
    · obtain ⟨x, other, clash⟩ := clash
      obtain ⟨e, refused⟩ := strict.refuses s d x ((known x).mpr other) clash
      rw [carryOut, Attempt.andThenError refused]
      exact .part [] ds x d rfl (by simpa using known) (by simpa using consistent) (by simpa using other)
        clash refused
    · have free : ∀ x ∈ seen, x.clashes d = false := fun x mem =>
        Bool.eq_false_iff.mpr fun same => clash ⟨x, mem, same⟩
      obtain ⟨s', accepted, more, -⟩ :=
        strict.takes s d (fun x there => free x ((known x).mp there)) (anchoredOf refers known)
      rw [carryOut, Attempt.andThenOk accepted]
      refine .step (ih (fun x => ?_) (consistentMore consistent free) later)
      rw [more, known, List.mem_append, List.mem_singleton]

theorem carryOutKnown (strict : Strict call has) (consistent : ∀ x d, has s x → has s d →
      x.clashes d = false) (anchored : ∀ d ∈ ds, d.Anchored (has s)) (known : ∀ d ∈ ds, has s d) :
    carryOut call ds s = (s, .ok ()) := by
  induction ds with
  | nil => rfl
  | cons d ds ih =>
    have here : has s d := known d List.mem_cons_self
    obtain ⟨s', accepted, -, same⟩ := strict.takes s d (fun x there => consistent x d there here)
      (anchored d List.mem_cons_self)
    rw [carryOut, Attempt.andThenOk accepted, same here]
    exact ih (fun d mem => anchored d (List.mem_cons_of_mem _ mem))
      fun d mem => known d (List.mem_cons_of_mem _ mem)

theorem refersMore {more : List Declaration} (within : seen ⊆ more) (refers : Refers seen d) :
    Refers more d := by
  cases d with
  | exchange => trivial
  | queue q =>
    intro x found
    obtain ⟨e, declared, rest⟩ := refers x found
    exact ⟨e, within declared, rest⟩
  | bind b =>
    obtain ⟨⟨q, queue, named⟩, e, exchange, named'⟩ := refers
    exact ⟨⟨q, within queue, named⟩, e, within exchange, named'⟩

theorem groundedAll (grounded : Grounded [] ds) : ∀ d ∈ ds, Refers ds d := by
  intro d mem
  obtain ⟨done, rest, rfl⟩ := List.append_of_mem mem
  exact refersMore (List.subset_append_left ..) (groundedAt grounded)

theorem groundedStart {rest : List Declaration} (grounded : Grounded seen (ds ++ rest)) :
    Grounded seen ds := by
  induction ds generalizing seen with
  | nil => trivial
  | cons d ds ih => exact ⟨grounded.1, ih grounded.2⟩

theorem carryOutAgain (strict : Strict call has) (grounded : Grounded [] ds) {r : σ × Outcome}
    (taken : Taken call has [] ds r) : carryOut call ds r.1 = r := by
  have known {s : σ} {done : List Declaration} (grounded : Grounded [] done)
      (consistent : Consistent done) (known : ∀ x, has s x ↔ x ∈ done) :
      carryOut call done s = (s, .ok ()) :=
    carryOutKnown strict
      (fun x d there here => consistent x ((known x).mp there) d ((known d).mp here))
      (fun d mem => anchoredOf (groundedAll grounded d mem) known) fun d mem => (known d).mpr mem
  cases taken with
  | whole all consistent => exact known grounded consistent all
  | part done rest x d split all consistent other clash refused =>
    rw [split] at grounded
    rw [split, carryOutAppend, Attempt.andThenOk (known (groundedStart grounded) consistent all)]
    rw [carryOut, Attempt.andThenError refused]

theorem takenWhole {r : σ × Outcome} (taken : Taken call has [] ds r) :
    r.2 = .ok () ↔ Consistent ds := by
  cases taken with
  | whole known consistent => exact ⟨fun _ => consistent, fun _ => rfl⟩
  | part done rest x d split known consistent other clash refused =>
    refine ⟨nofun, fun whole => ?_⟩
    have free := whole x (split ▸ List.mem_append_left _ other) d (by rw [split]; simp)
    rw [clash] at free
    cases free

theorem exchangePlanned (t : Topology) (e : Exchange) : .exchange e ∈ t.plan ↔
    (t.deadLetterExchangeName ≠ "" ∧ e = ⟨t.deadLetterExchangeName, .direct, true⟩) ∨
      e = ⟨t.exchangeName, t.exchangeKind, true⟩ := by
  rw [planSpelled]
  split <;> split <;> split <;> simp_all

theorem queuePlanned (t : Topology) (q : Queue) : .queue q ∈ t.plan ↔
    (t.deadLetterQueueName ≠ "" ∧ q = ⟨t.deadLetterQueueName, true, none⟩) ∨
      t.queueName ≠ "" ∧ q = ⟨t.queueName, true, some t.mainArguments⟩ := by
  rw [planSpelled]
  split <;> split <;> split <;> simp_all

theorem exchangesAgree (valid : t.validate = .ok ()) :
    (∀ a b, .exchange a ∈ t.plan → .exchange b ∈ t.plan → a.name = b.name → a = b) ↔
      (t.deadLetterExchangeName = t.exchangeName → t.exchangeKind = .direct) := by
  obtain ⟨named, -⟩ := validParts valid
  simp only [exchangePlanned]
  constructor
  · intro agree same
    have both := agree _ _ (.inl ⟨same ▸ named, rfl⟩) (.inr rfl) same
    exact (congrArg Exchange.kind both).symm
  · rintro direct a b (⟨-, rfl⟩ | rfl) (⟨-, rfl⟩ | rfl) same
    · rfl
    · rw [direct same]
      exact congrArg (Exchange.mk · _ _) same
    · rw [direct same.symm]
      exact congrArg (Exchange.mk · _ _) same
    · rfl

theorem queuesAgree (t : Topology) :
    (∀ a b, .queue a ∈ t.plan → .queue b ∈ t.plan → a.name = b.name → a = b) ↔
      (t.deadLetterQueueName = t.queueName → t.queueName = "") := by
  simp only [queuePlanned]
  constructor
  · intro agree same
    refine Decidable.byContradiction fun named => ?_
    have both := agree _ _ (.inl ⟨same ▸ named, rfl⟩) (.inr ⟨named, rfl⟩) same
    cases congrArg Queue.arguments both
  · rintro apart a b (⟨-, rfl⟩ | ⟨named, rfl⟩) (⟨-, rfl⟩ | ⟨named', rfl⟩) same
    · rfl
    · exact absurd (apart same) named'
    · exact absurd (apart same.symm) named
    · rfl

theorem consistentAgree : Consistent ds ↔
    (∀ a b, .exchange a ∈ ds → .exchange b ∈ ds → a.name = b.name → a = b) ∧
      ∀ a b, .queue a ∈ ds → .queue b ∈ ds → a.name = b.name → a = b := by
  constructor
  · intro consistent
    refine ⟨fun a b first second same => ?_, fun a b first second same => ?_⟩
    · simpa [Declaration.clashes, same] using consistent _ first _ second
    · simpa [Declaration.clashes, same] using consistent _ first _ second
  · rintro ⟨exchanges, queues⟩ a first b second
    cases a <;> cases b <;> simp only [Declaration.clashes]
    · rename_i a b
      by_cases same : a.name = b.name
      · simp [exchanges a b first second same]
      · simp [same]
    · rename_i a b
      by_cases same : a.name = b.name
      · simp [queues a b first second same]
      · simp [same]

theorem planConsistent (valid : t.validate = .ok ()) : Consistent t.plan ↔ t.Unambiguous :=
  consistentAgree.trans (and_congr (exchangesAgree valid) (queuesAgree t))

/-- At a broker without any of them, an installation succeeds exactly if the two exchanges and the
two queues are the same where they share a name; and installing again, any number of times, has the
same outcome and changes nothing. -/
theorem installedAgain (valid : t.validate = .ok ()) (strict : Strict call has)
    (empty : ∀ d, ¬ has s d) :
    let run := t.install call s
    ((∀ a b, .exchange a ∈ t.plan → .exchange b ∈ t.plan → a.name = b.name → a = b) ↔
      (t.deadLetterExchangeName = t.exchangeName → t.exchangeKind = .direct)) ∧
    ((∀ a b, .queue a ∈ t.plan → .queue b ∈ t.plan → a.name = b.name → a = b) ↔
      (t.deadLetterQueueName = t.queueName → t.queueName = "")) ∧
    (run.2 = .ok () ↔ t.Unambiguous) ∧
    (t.Unambiguous → ∀ d, has run.1 d ↔ d ∈ t.plan) ∧
    ∀ n, (fun r => t.install call r.1)^[n] run = run := by
  have grounded := planGrounded valid
  have taken : Taken call has [] t.plan (t.install call s) := by
    rw [installPlan]
    exact carryOutStrict strict (by simpa using empty) (fun _ mem => nomatch mem) grounded
  have whole := (takenWhole taken).trans (planConsistent valid)
  refine ⟨exchangesAgree valid, queuesAgree t, whole, fun clear => ?_,
    Function.iterate_fixed ?_⟩
  · have done := whole.mpr clear
    generalize t.install call s = run at taken done
    cases taken with
    | whole known => exact known
    | part => cases done
  · have again := carryOutAgain strict grounded taken
    rw [← installPlan] at again
    exact again

abbrev Register := List Declaration

def register (d : Declaration) : Attempt Register := fun known =>
  if known.any (·.clashes d) then (known, .error (.channel "declared otherwise"))
  else if d ∈ known then (known, .ok ())
  else (known ++ [d], .ok ())

theorem registerStrict : Strict register fun known d => d ∈ known where
  takes known d free _ := by
    have clear : ¬ known.any (·.clashes d) = true := by simpa using free
    unfold register
    rw [if_neg clear]
    split
    · rename_i there
      refine ⟨known, rfl, fun x => ⟨.inl, ?_⟩, fun _ => rfl⟩
      rintro (old | rfl) <;> assumption
    · rename_i new
      exact ⟨known ++ [d], rfl, by simp, fun there => absurd there new⟩
  refuses known d x there clash := by
    have clashes : known.any (·.clashes d) = true := List.any_eq_true.mpr ⟨x, there, clash⟩
    unfold register
    rw [if_pos clashes]
    exact ⟨_, rfl⟩

theorem ordersInstalledAgain : orders.validate = .ok () ∧ orders.Unambiguous ∧
    (orders.install register []).2 = .ok () ∧ (orders.install register []).1 = orders.plan ∧
    (fun r => orders.install register r.1)^[3] (orders.install register []) =
      orders.install register [] := by
  have valid : orders.validate = .ok () := rfl
  have clear : orders.Unambiguous := ⟨fun same => absurd same (by decide), fun same => absurd same (by decide)⟩
  obtain ⟨-, -, whole, -, again⟩ :=
    installedAgain valid registerStrict (s := []) fun _ => List.not_mem_nil
  exact ⟨valid, clear, whole.mpr clear, rfl, again 3⟩

def circular : Topology := ((Topology.new "orders").ofKind .topic).withDeadLetter "orders" "" ""

def sink : Topology :=
  ((Topology.new "orders").withQueue "orders").withDeadLetter "orders.dlx" "orders" ""

theorem namesakesRefused :
    (circular.validate = .ok () ∧ (∃ a b, .exchange a ∈ circular.plan ∧
        .exchange b ∈ circular.plan ∧ a.name = b.name ∧ a ≠ b) ∧
      (circular.install register []).2 = .error (.channel "declared otherwise")) ∧
    sink.validate = .ok () ∧ (∃ a b, .queue a ∈ sink.plan ∧ .queue b ∈ sink.plan ∧
        a.name = b.name ∧ a ≠ b) ∧
      (sink.install register []).2 = .error (.channel "declared otherwise") := by
  refine ⟨⟨rfl, ⟨⟨"orders", .direct, true⟩, ⟨"orders", .topic, true⟩, ?_⟩, rfl⟩, rfl,
    ⟨⟨"orders", true, none⟩, ⟨"orders", true, some sink.mainArguments⟩, ?_⟩, rfl⟩
  · decide
  · decide

end Topology

end AmqpClient
