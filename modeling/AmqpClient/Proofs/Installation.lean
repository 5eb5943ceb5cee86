import AmqpClient.Topology.Install
import AmqpClient.Trace
/-! What an installation leaves at the broker, wherever it stops: a start of the fixed plan, in
which nothing is named before it is declared. A message that the main queue rejects finds the
dead-letter queue bound under the very key it is sent on with. -/
namespace AmqpClient

namespace Attempt

variable {σ : Type u}

theorem andThenOk {f g : Attempt σ} {s s' : σ} (first : f s = (s', .ok ())) :
    f.andThen g s = g s' := by
  rw [andThen, first]

theorem andThenError {f g : Attempt σ} {s s' : σ} {e : Error} (first : f s = (s', .error e)) :
    f.andThen g s = (s', .error e) := by
  rw [andThen, first]

theorem thenSkip (f : Attempt σ) : f.andThen skip = f := by
  funext s
  rcases first : f s with ⟨s', e | ⟨⟩⟩
  · rw [andThenError first]
  · rw [andThenOk first, skip]

theorem andThenAssoc (f g h : Attempt σ) : (f.andThen g).andThen h = f.andThen (g.andThen h) := by
  funext s
  rcases first : f s with ⟨s', e | ⟨⟩⟩
  · rw [andThenError first, andThenError (andThenError first)]
  · rw [andThenOk first, andThen, andThenOk first]
    rfl

end Attempt

abbrev CallLog := List (Declaration × Outcome)

namespace Topology

variable {σ : Type u}

def logged (call : Declaration → Attempt σ) (d : Declaration) : Attempt (σ × CallLog) := fun s =>
  let r := call d s.1
  ((r.1, s.2 ++ [(d, r.2)]), r.2)

def accomplished (done : List Declaration) : CallLog := done.map fun d => (d, .ok ())

theorem carryOutAppend (call : Declaration → Attempt σ) (first rest : List Declaration) :
    carryOut call (first ++ rest) = (carryOut call first).andThen (carryOut call rest) := by
  induction first with
  | nil => rfl
  | cons d first ih => rw [List.cons_append, carryOut, carryOut, ih, Attempt.andThenAssoc]

theorem carryOutQueue (call : Declaration → Attempt σ) (q : Option (Queue × Binding)) :
    carryOut call (queuePlan q) = q.elim Attempt.skip (installQueue call) := by
  cases q with
  | none => rfl
  | some q => exact congrArg _ (Attempt.thenSkip _)

theorem installPlan (call : Declaration → Attempt σ) (t : Topology) :
    t.install call = carryOut call t.plan := by
  have exchange : carryOut call (t.deadLetterExchange.map Declaration.exchange).toList =
      t.deadLetterExchange.elim Attempt.skip fun e => call (.exchange e) := by
    cases t.deadLetterExchange with
    | none => rfl
    | some e => exact Attempt.thenSkip _
  have main : carryOut call [.exchange t.mainExchange] = call (.exchange t.mainExchange) :=
    Attempt.thenSkip _
  rw [plan, carryOutAppend, carryOutAppend, carryOutAppend, exchange, main, carryOutQueue,
    carryOutQueue]
  rfl

inductive Course (ds : List Declaration) : CallLog → Outcome → Prop where
  | complete : Course ds (accomplished ds) (.ok ())
  | aborted (done rest : List Declaration) (d : Declaration) (e : Error)
      (split : ds = done ++ d :: rest) :
      Course ds (accomplished done ++ [(d, .error e)]) (.error e)

theorem Course.step {ds : List Declaration} {log : CallLog} {outcome : Outcome} (d : Declaration)
    (course : Course ds log outcome) : Course (d :: ds) ((d, .ok ()) :: log) outcome := by
  cases course with
  | complete => exact .complete
  | aborted done rest failed e split => exact .aborted (d :: done) rest failed e (by rw [split]; rfl)

theorem carryOutLogged (call : Declaration → Attempt σ) (ds : List Declaration) (s : σ)
    (log : CallLog) : ∃ more, carryOut (logged call) ds (s, log) =
      (((carryOut call ds s).1, log ++ more), (carryOut call ds s).2) ∧
        Course ds more (carryOut call ds s).2 := by
  induction ds generalizing s log with
  | nil => exact ⟨[], by rw [List.append_nil]; rfl, .complete⟩
  | cons d ds ih =>
    rcases first : call d s with ⟨s', e | ⟨⟩⟩
    · have noted : logged call d (s, log) = ((s', log ++ [(d, .error e)]), .error e) := by
        rw [logged, first]
      refine ⟨[(d, .error e)], ?_, ?_⟩
      · rw [carryOut, carryOut, Attempt.andThenError noted, Attempt.andThenError first]
      · rw [carryOut, Attempt.andThenError first]
        exact .aborted [] ds d e rfl
    · have noted : logged call d (s, log) = ((s', log ++ [(d, .ok ())]), .ok ()) := by
        rw [logged, first]
      obtain ⟨more, same, course⟩ := ih s' (log ++ [(d, .ok ())])
      refine ⟨(d, .ok ()) :: more, ?_, ?_⟩
      · rw [carryOut, carryOut, Attempt.andThenOk noted, Attempt.andThenOk first, same,
          List.append_assoc]
        rfl
      · rw [carryOut, Attempt.andThenOk first]
        exact course.step d

theorem Course.declared {ds : List Declaration} {log : CallLog} {outcome : Outcome}
    (course : Course ds log outcome) : log.map Prod.fst <+: ds := by
  cases course with
  | complete => simp [accomplished, Function.comp_def]
  | aborted done rest d e split =>
    rw [split]
    exact ⟨rest, by simp [accomplished, Function.comp_def]⟩

theorem Course.succeeded {ds : List Declaration} {log : CallLog} {outcome : Outcome}
    (course : Course ds log outcome) : outcome = .ok () ↔ log = accomplished ds := by
  cases course with
  | complete => simp
  | aborted done rest d e split =>
    refine ⟨fun same => (nomatch same), fun same => ?_⟩
    have failed : (d, .error e) ∈ accomplished ds := by rw [← same]; simp
    simp [accomplished] at failed

theorem Course.before {ds : List Declaration} {log : CallLog} {outcome : Outcome}
    (course : Course ds log outcome) {before after : CallLog} {d : Declaration} {o : Outcome}
    (here : log = before ++ (d, o) :: after) :
    ∃ done rest, ds = done ++ d :: rest ∧ before = accomplished done := by
  cases course with
  | complete =>
    obtain ⟨done, rest, split, first, second⟩ := List.map_eq_append_iff.mp here
    obtain ⟨x, rest, rfl, same, -⟩ := List.map_eq_cons_iff.mp second
    cases same
    exact ⟨done, rest, split, first.symm⟩
  | aborted done rest failed e split =>
    rcases List.eq_nil_or_concat after with rfl | ⟨after, last, rfl⟩
    · obtain ⟨same, last⟩ := List.append_inj' here rfl
      cases last
      exact ⟨done, rest, split, same.symm⟩
    · rw [List.concat_eq_append, ← List.cons_append, ← List.append_assoc] at here
      obtain ⟨here, -⟩ := List.append_inj' here rfl
      obtain ⟨early, late, split', first, second⟩ := List.map_eq_append_iff.mp here
      obtain ⟨x, late, rfl, same, -⟩ := List.map_eq_cons_iff.mp second
      cases same
      exact ⟨early, late ++ failed :: rest, by rw [split, split']; simp, first.symm⟩

def Refers (seen : List Declaration) : Declaration → Prop
  | .exchange _ => True
  | .queue q => ∀ x, Assoc.find? "x-dead-letter-exchange" q.table = some x →
      ∃ e, .exchange e ∈ seen ∧ x = .text e.name ∧ e.kind = .direct ∧ e.durable = true
  | .bind b => (∃ q, .queue q ∈ seen ∧ q.name = b.queue) ∧
      ∃ e, .exchange e ∈ seen ∧ e.name = b.exchange

def Grounded (seen : List Declaration) : List Declaration → Prop
  | [] => True
  | d :: ds => Refers seen d ∧ Grounded (seen ++ [d]) ds

theorem groundedAt {seen done rest : List Declaration} {d : Declaration}
    (grounded : Grounded seen (done ++ d :: rest)) : Refers (seen ++ done) d := by
  induction done generalizing seen with
  | nil => simpa using grounded.1
  | cons x done ih => simpa using ih grounded.2

def mainArguments (t : Topology) : QueueArguments :=
  QueueArguments.standard.withDeadLetter t.deadLetterExchangeName t.deadLetterRoutingKey

theorem deadLetterExchangePart (t : Topology) :
    (t.deadLetterExchange.map Declaration.exchange).toList =
      if t.deadLetterExchangeName = "" then []
      else [.exchange ⟨t.deadLetterExchangeName, .direct, true⟩] := by
  unfold deadLetterExchange
  split <;> rfl

theorem deadLetterQueuePart (t : Topology) : queuePlan t.deadLetterQueue =
    if t.deadLetterQueueName = "" then []
    else [.queue ⟨t.deadLetterQueueName, true, none⟩,
      .bind ⟨t.deadLetterQueueName, t.deadLetterExchangeName, t.deadLetterRoutingKey⟩] := by
  unfold deadLetterQueue
  split <;> rfl

theorem mainQueuePart (t : Topology) : queuePlan t.mainQueue =
    if t.queueName = "" then []
    else [.queue ⟨t.queueName, true, some t.mainArguments⟩,
      .bind ⟨t.queueName, t.exchangeName, t.routingKey⟩] := by
  unfold mainQueue isProducerOnly
  by_cases unnamed : t.queueName = ""
  · rw [if_pos (by simpa using unnamed), if_pos unnamed]
    rfl
  · rw [if_neg (by simpa using unnamed), if_neg unnamed]
    rfl

theorem planSpelled (t : Topology) : t.plan =
    (if t.deadLetterExchangeName = "" then []
      else [.exchange ⟨t.deadLetterExchangeName, .direct, true⟩]) ++
    (if t.deadLetterQueueName = "" then []
      else [.queue ⟨t.deadLetterQueueName, true, none⟩,
        .bind ⟨t.deadLetterQueueName, t.deadLetterExchangeName, t.deadLetterRoutingKey⟩]) ++
    [.exchange ⟨t.exchangeName, t.exchangeKind, true⟩] ++
    (if t.queueName = "" then []
      else [.queue ⟨t.queueName, true, some t.mainArguments⟩,
        .bind ⟨t.queueName, t.exchangeName, t.routingKey⟩]) := by
  rw [plan, deadLetterExchangePart, deadLetterQueuePart, mainQueuePart]
  rfl

theorem validParts {t : Topology} (valid : t.validate = .ok ()) :
    t.exchangeName ≠ "" ∧ (t.deadLetterQueueName ≠ "" → t.deadLetterExchangeName ≠ "") := by
  unfold validate at valid
  split at valid
  · cases valid
  · rename_i named
    split at valid
    · cases valid
    · rename_i safe
      exact ⟨named, fun queue exchange => safe ⟨queue, exchange⟩⟩

theorem deadLetterArguments (a : QueueArguments) :
    Assoc.find? "x-dead-letter-exchange" a.table = a.deadLetter.map (.text ·.exchange) ∧
      Assoc.find? "x-dead-letter-routing-key" a.table = a.deadLetter.map (.text ·.routingKey) := by
  unfold QueueArguments.table
  cases a.deadLetter <;>
    simp [Assoc.ofList, Assoc.insertAll, Assoc.findInsert]

theorem mainDeadLetter (t : Topology) : t.mainArguments.deadLetter =
    if t.deadLetterExchangeName = "" then none
    else some ⟨t.deadLetterExchangeName, t.deadLetterRoutingKey⟩ := by
  unfold mainArguments QueueArguments.withDeadLetter
  split <;> rfl

theorem plainRefers (seen : List Declaration) (name : String) :
    Refers seen (.queue ⟨name, true, none⟩) := by
  intro x found
  cases found

theorem exchangeRefers (seen : List Declaration) (e : Exchange) : Refers seen (.exchange e) :=
  trivial

theorem bindRefers (seen : List Declaration) (b : Binding) : Refers seen (.bind b) ↔
    (∃ q, .queue q ∈ seen ∧ q.name = b.queue) ∧ ∃ e, .exchange e ∈ seen ∧ e.name = b.exchange :=
  Iff.rfl

theorem planGrounded {t : Topology} (valid : t.validate = .ok ()) : Grounded [] t.plan := by
  obtain ⟨-, safe⟩ := validParts valid
  have main (seen : List Declaration)
      (first : t.deadLetterExchangeName = "" ∨
        .exchange ⟨t.deadLetterExchangeName, .direct, true⟩ ∈ seen) :
      Refers seen (.queue ⟨t.queueName, true, some t.mainArguments⟩) := by
    intro x found
    change Assoc.find? _ t.mainArguments.table = _ at found
    rw [(deadLetterArguments _).1, mainDeadLetter] at found
    split at found
    · cases found
    · rename_i named
      cases found
      exact ⟨_, first.resolve_left named, rfl, rfl, rfl⟩
  rw [planSpelled]
  by_cases exchange : t.deadLetterExchangeName = ""
  · have noQueue : t.deadLetterQueueName = "" :=
      Decidable.byContradiction fun queue => safe queue exchange
    rw [if_pos exchange, if_pos noQueue]
    split
    · simp [Grounded, exchangeRefers]
    · simp [Grounded, exchangeRefers, bindRefers, main _ (.inl exchange)]
  · rw [if_neg exchange]
    split <;> split <;>
      simp [Grounded, exchangeRefers, bindRefers, plainRefers, main _ (.inr _)]

def rejects (q : Queue) (key : String) : Option (String × String) :=
  (Trace.extract? q.table "x-dead-letter-exchange").map fun exchange =>
    (exchange, (Trace.extract? q.table "x-dead-letter-routing-key").getD key)

def Routes (log : CallLog) (exchange key queue : String) : Prop :=
  (∃ before e after, log = before ++ (.exchange e, .ok ()) :: after ∧ e.name = exchange ∧
    e.kind = .direct ∧ ∀ other o, (.exchange other, o) ∈ before → other.name ≠ exchange) ∧
  (.bind ⟨queue, exchange, key⟩, .ok ()) ∈ log

theorem mainRejects {t : Topology} (named : t.deadLetterExchangeName ≠ "") (key : String) :
    rejects ⟨t.queueName, true, some t.mainArguments⟩ key =
      some (t.deadLetterExchangeName, t.deadLetterRoutingKey) := by
  have table : Queue.table ⟨t.queueName, true, some t.mainArguments⟩ = t.mainArguments.table := rfl
  obtain ⟨exchange, under⟩ := deadLetterArguments t.mainArguments
  rw [mainDeadLetter, if_neg named] at exchange under
  simp [rejects, table, Trace.extract?, exchange, under, Header.Value.text, Bytes.textOfText]

theorem deadLetterRoutes {t : Topology} (named : t.deadLetterExchangeName ≠ "")
    (queue : t.deadLetterQueueName ≠ "") : Routes (accomplished t.plan) t.deadLetterExchangeName
      t.deadLetterRoutingKey t.deadLetterQueueName := by
  rw [planSpelled, if_neg named, if_neg queue]
  refine ⟨⟨[], _, _, rfl, rfl, rfl, by simp⟩, by simp [accomplished]⟩

/-- The calls of an installation are a start of the plan that the first failure ends, and its
outcome is theirs. Nothing is bound, and nothing made a dead-letter exchange, before it is
declared. Where both queues are named, what the main queue rejects goes to the exchange and under
the key that the dead-letter queue is bound with, and so arrives there. -/
theorem installationSound {t : Topology} (valid : t.validate = .ok ())
    (call : Declaration → Attempt σ) (s : σ) :
    let run := t.install (logged call) (s, [])
    let log := run.1.2
    (run.1.1, run.2) = t.install call s ∧
    t.plan =
      (if t.deadLetterExchangeName = "" then []
        else [.exchange ⟨t.deadLetterExchangeName, .direct, true⟩]) ++
      (if t.deadLetterQueueName = "" then []
        else [.queue ⟨t.deadLetterQueueName, true, none⟩,
          .bind ⟨t.deadLetterQueueName, t.deadLetterExchangeName, t.deadLetterRoutingKey⟩]) ++
      [.exchange ⟨t.exchangeName, t.exchangeKind, true⟩] ++
      (if t.queueName = "" then []
        else [.queue ⟨t.queueName, true, some t.mainArguments⟩,
          .bind ⟨t.queueName, t.exchangeName, t.routingKey⟩]) ∧
    log.map Prod.fst <+: t.plan ∧
    Course t.plan log run.2 ∧
    (run.2 = .ok () ↔ log = accomplished t.plan) ∧
    (∀ before d o after, log = before ++ (d, o) :: after →
      ∃ seen, before = accomplished seen ∧ Refers seen d) ∧
    (t.queueName ≠ "" → t.deadLetterQueueName ≠ "" →
      let q : Queue := ⟨t.queueName, true, some t.mainArguments⟩
      Assoc.find? "x-dead-letter-exchange" q.table = some (.text t.deadLetterExchangeName) ∧
      Assoc.find? "x-dead-letter-routing-key" q.table = some (.text t.deadLetterRoutingKey) ∧
      (run.2 = .ok () → ∀ key, ∃ exchange under, rejects q key = some (exchange, under) ∧
        Routes log exchange under t.deadLetterQueueName)) := by
  obtain ⟨-, safe⟩ := validParts valid
  obtain ⟨log, same, course⟩ := carryOutLogged call t.plan s []
  rw [List.nil_append] at same
  simp only [installPlan, same]
  refine ⟨trivial, planSpelled t, course.declared, course, course.succeeded,
    fun before d o after here => ?_, fun _ queue => ?_⟩
  · obtain ⟨done, rest, split, first⟩ := course.before here
    have grounded := planGrounded valid
    rw [split] at grounded
    exact ⟨done, first, by simpa using groundedAt grounded⟩
  · obtain ⟨exchange, under⟩ := deadLetterArguments t.mainArguments
    rw [mainDeadLetter, if_neg (safe queue)] at exchange under
    refine ⟨exchange, under, fun finished key => ⟨_, _, mainRejects (safe queue) key, ?_⟩⟩
    rw [course.succeeded.mp finished]
    exact deadLetterRoutes (safe queue) queue

def orders : Topology :=
  ((((Topology.new "orders").ofKind .topic).withQueue "orders.all").underKey "order.*").withDeadLetter
    "orders.dlx" "orders.dead" ""

def refusing (n : Nat) (_ : Declaration) : Attempt Nat := fun calls =>
  (calls + 1, if calls = n then .error (.channel "refused") else .ok ())

theorem ordersInstalled :
    orders.validate = .ok () ∧
    (let run := orders.install (logged (refusing 6)) (0, [])
     run.2 = .ok () ∧ Routes run.1.2 "orders.dlx" "" "orders.dead") ∧
    (let run := orders.install (logged (refusing 4)) (0, [])
     run.2 = .error (.channel "refused") ∧ run.1.2.map Prod.fst = orders.plan.take 5 ∧
       Course orders.plan run.1.2 run.2) := by
  have valid : orders.validate = .ok () := rfl
  have whole := installationSound valid (refusing 6) 0
  have broken := installationSound valid (refusing 4) 0
  obtain ⟨-, -, -, -, -, -, arrives⟩ := whole
  obtain ⟨-, -, -, course, -, -⟩ := broken
  obtain ⟨-, -, routes⟩ := arrives (by decide) (by decide)
  obtain ⟨exchange, under, target, arrived⟩ := routes rfl "order.made"
  have named : orders.deadLetterExchangeName ≠ "" := by decide
  rw [mainRejects named] at target
  cases target
  exact ⟨valid, ⟨rfl, arrived⟩, rfl, rfl, course⟩

end Topology

end AmqpClient
