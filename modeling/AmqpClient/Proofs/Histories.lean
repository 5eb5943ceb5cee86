import AmqpClient.Proofs.Broker.Operations
import AmqpClient.Proofs.Publications
import Mathlib.Data.List.Nodup
/-! Histories of a broker in memory, from the start on. What is said of every history holds of the
broker in every world: whatever clients do and whatever is done from outside, the broker has a history
of single operations. -/
namespace AmqpClient.Broker

def gather {α : Type} (f : Operation → Memory → List α) : List Operation → Memory → List α
  | [], _ => []
  | x :: rest, m => f x m ++ gather f rest (x.perform m)

def performAll (history : List Operation) (m : Memory) : Memory :=
  history.foldl (fun m x => x.perform m) m

section

variable {α : Type} {f : Operation → Memory → List α} {history later : List Operation} {m : Memory}

theorem performAppend : performAll (history ++ later) m = performAll later (performAll history m) :=
  List.foldl_append

theorem gatherAppend :
    gather f (history ++ later) m = gather f history m ++ gather f later (performAll history m) := by
  induction history generalizing m with
  | nil => rfl
  | cons x rest ih =>
    rw [List.cons_append, gather, ih, ← List.append_assoc]
    rfl

theorem placesHistory (history : List Operation) (m : Memory) :
    m.store.Places (gather Operation.creates history m) (performAll history m).store := by
  induction history generalizing m with
  | nil => exact Store.placesSame rfl rfl
  | cons x rest ih => exact Store.placesTrans (effectPlaces (operationEffect x m)) (ih (x.perform m))

theorem numbersHistory (history : List Operation) (m : Memory) : ∃ k,
    (performAll history m).store.lastTag = m.store.lastTag + k ∧
      gather Operation.numbers history m = List.range' (m.store.lastTag + 1) k := by
  induction history generalizing m with
  | nil => exact ⟨0, rfl, rfl⟩
  | cons x rest ih =>
    obtain ⟨k, grown, first⟩ := effectNumbers (operationEffect x m)
    obtain ⟨l, after, others⟩ := ih (x.perform m)
    refine ⟨k + l, after.trans (by omega), ?_⟩
    change x.numbers m ++ gather Operation.numbers rest (x.perform m) = _
    rw [others, grown, ← List.range'_append_1, Operation.numbers, first]
    congr 2
    omega

theorem numbersCreated (history : List Operation) (m : Memory) :
    ((gather Operation.creates history m).map fun p => p.2.tag).Sublist
      (gather Operation.numbers history m) := by
  induction history generalizing m with
  | nil => exact List.Sublist.refl _
  | cons x rest ih =>
    rw [gather, List.map_append]
    exact (List.sublist_append_left ..).append (ih (x.perform m))

theorem bindingsHistory (history : List Operation) (m : Memory) (b : Binding) :
    b ∈ (performAll history m).store.bindings ↔
      b ∈ m.store.bindings ∨ b ∈ gather Operation.binds history m := by
  induction history generalizing m with
  | nil => exact ⟨.inl, fun either => either.elim id fun none => by cases none⟩
  | cons x rest ih =>
    rw [gather, List.mem_append, ← or_assoc, ← effectBindings (operationEffect x m) b]
    exact ih (x.perform m)

theorem historyKeeps {P : Store → Prop}
    (kept : ∀ (x : Operation) (m : Memory), P m.store → P (x.perform m).store)
    (history : List Operation) (m : Memory) (holds : P m.store) :
    P (performAll history m).store := by
  induction history generalizing m with
  | nil => exact holds
  | cons x rest ih => exact ih (x.perform m) (kept x m holds)

theorem distinctOperation (x : Operation) (m : Memory) (distinct : m.store.bindings.Nodup) :
    (x.perform m).store.bindings.Nodup :=
  effectDistinct (operationEffect x m) distinct

theorem tidyOperation (x : Operation) (m : Memory) (tidy : m.store.Tidy) :
    (x.perform m).store.Tidy := by
  -- every stream may be gone
  have kept {s t : Store} (carries : Store.Carries (fun _ => True) s t) (tidy : s.Tidy) : t.Tidy :=
    carries.tidy tidy
  refine kept ?_ tidy
  cases x with
  | dial => exact Memory.carriesDial
  | watchConnection c => exact Store.carriesWatchConnection c m.store
  | watchChannel c => exact Store.carriesWatchChannel c m.store
  | declare c d => exact Memory.carriesDeclare c d
  | consume c queue => exact Memory.carriesConsume c queue
  | poll i => exact Store.carriesPoll i m.store
  | dropStream i => exact Store.carriesMore (Store.carriesDrop i m.store) fun _ _ => trivial
  | publish c exchange key e => exact Memory.carriesPublish c exchange key e
  | closeChannel c => exact Store.carriesShutChannel c .silent m.store
  | closeConnection c => exact Store.carriesShutConnection c .silent m.store
  | command x => exact carriesCommand ⟨x, _, rfl, rfl⟩

end

inductive Place where
  | waiting
  | stream (i : StreamId)

namespace Store

variable {s : Store} {p : String × Delivery}

def placed (s : Store) : Place → List (String × Delivery)
  | .waiting => s.pending
  | .stream i => (s.streams[i]?.map Stream.fed).getD []

theorem placedStream {i : StreamId} (here : p ∈ s.placed (.stream i)) :
    ∃ x, s.streams[i]? = some x ∧ p ∈ x.fed := by
  rw [placed] at here
  cases found : s.streams[i]? with
  | none => rw [found] at here; cases here
  | some x => rw [found] at here; exact ⟨x, rfl, here⟩

theorem placedMessages : p ∈ s.messages ↔ ∃ place, p ∈ s.placed place := by
  unfold messages
  rw [List.mem_append, List.mem_flatMap]
  constructor
  · rintro (waits | ⟨x, mem, fed⟩)
    · exact ⟨.waiting, waits⟩
    · obtain ⟨i, found⟩ := List.getElem?_of_mem mem
      refine ⟨.stream i, ?_⟩
      rw [placed, found]
      exact fed
  · rintro ⟨_ | i, here⟩
    · exact .inl here
    · obtain ⟨x, found, fed⟩ := placedStream here
      exact .inr ⟨x, List.mem_of_getElem? found, fed⟩

theorem placedOnce {a b : Place} (distinct : s.messages.Nodup) (first : p ∈ s.placed a)
    (second : p ∈ s.placed b) : a = b := by
  obtain ⟨-, fed, apart⟩ := List.nodup_append.mp distinct
  have beyond {i : StreamId} (waits : p ∈ s.pending) (here : p ∈ s.placed (.stream i)) : False := by
    obtain ⟨x, found, here⟩ := placedStream here
    exact apart p waits p (List.mem_flatMap.mpr ⟨x, List.mem_of_getElem? found, here⟩) rfl
  have streams := List.pairwise_iff_getElem.mp (List.nodup_flatMap.mp fed).2
  have other {i j : StreamId} (less : i < j) (one : p ∈ s.placed (.stream i))
      (two : p ∈ s.placed (.stream j)) : False := by
    obtain ⟨x, found, one⟩ := placedStream one
    obtain ⟨y, there, two⟩ := placedStream two
    obtain ⟨inside, rfl⟩ := List.getElem?_eq_some_iff.mp found
    obtain ⟨within, rfl⟩ := List.getElem?_eq_some_iff.mp there
    exact streams i j inside within less one two
  cases a with
  | waiting =>
    cases b with
    | waiting => rfl
    | stream j => exact (beyond first second).elim
  | stream i =>
    cases b with
    | waiting => exact (beyond second first).elim
    | stream j =>
      rcases Nat.lt_trichotomy i j with less | rfl | more
      · exact (other less first second).elim
      · rfl
      · exact (other more second first).elim

end Store

structure Routed (exchange key : String) (e : Envelope) (bindings : List Binding)
    (new : List (String × Delivery)) : Prop where
  once : (new.map Prod.fst).Nodup
  queues : ∀ q, q ∈ new.map Prod.fst ↔ (⟨q, exchange, key⟩ : Binding) ∈ bindings
  alike : ∀ p ∈ new, ∃ tag, p.2 = Delivery.new tag exchange key e.body e.headers

theorem publishRouted {c : ChannelId} {exchange key : String} {e : Envelope} {m : Memory}
    (distinct : m.store.bindings.Nodup) (taken : (m.publish c exchange key e).2.accepted = true) :
    Routed exchange key e m.store.bindings ((Operation.publish c exchange key e).creates m) := by
  have matched {b : Binding} (mem : b ∈ m.store.matching exchange key) :
      b ∈ m.store.bindings ∧ b = ⟨b.queue, exchange, key⟩ := by
    obtain ⟨bound, mine⟩ := List.mem_filter.mp mem
    simp only [Bool.and_eq_true, beq_iff_eq] at mine
    obtain ⟨rfl, rfl⟩ := mine
    exact ⟨bound, rfl⟩
  rw [Operation.creates, if_pos taken]
  refine ⟨?_, fun q => ?_, Store.deliveriesAlike _ _ _⟩
  · rw [Store.deliveriesQueues]
    refine List.Nodup.map_on (fun x first y second same => ?_) (distinct.filter _)
    rw [(matched first).2, (matched second).2, same]
  · rw [Store.deliveriesQueues, List.mem_map]
    constructor
    · rintro ⟨b, mem, rfl⟩
      exact (matched mem).2 ▸ (matched mem).1
    · intro bound
      exact ⟨_, List.mem_filter.mpr ⟨bound, by simp⟩, rfl⟩

def after (history : List Operation) : Memory := performAll history {}

def created (history : List Operation) : List (String × Delivery) :=
  gather Operation.creates history {}

structure Arranged (history : List Operation) : Prop where
  numbered : (gather Operation.numbers history {}).Pairwise (· < ·)
  nothingElse : ∀ place, ∀ p ∈ (after history).store.placed place, p ∈ created history
  once : ∀ p ∈ created history, ∃ place, p ∈ (after history).store.placed place ∧
    ∀ other, p ∈ (after history).store.placed other → other = place
  moves : ∀ later place, ∀ p ∈ (after history).store.placed place,
    ∃ next, p ∈ (after (history ++ later)).store.placed next ∧ (next = place ∨ place = .waiting)
  ordered : ∀ place,
    (((after history).store.placed place).map fun p => p.2.tag).Pairwise (· < ·)
  unstranded : ∀ p ∈ (after history).store.pending, ∀ x ∈ (after history).store.streams, ∀ c,
    (after history).store.channelOpen c = true → x.live c p.1 = false
  bound : ∀ b, b ∈ (after history).store.bindings ↔ b ∈ gather Operation.binds history {}
  routed : ∀ c exchange key e, ((after history).publish c exchange key e).2.accepted = true →
    Routed exchange key e (after history).store.bindings
      ((Operation.publish c exchange key e).creates (after history))

section

variable (history : List Operation)

theorem numbersIncrease : (gather Operation.numbers history {}).Pairwise (· < ·) := by
  obtain ⟨k, -, numbers⟩ := numbersHistory history {}
  rw [numbers]
  exact List.pairwise_lt_range' ..

theorem createdIncrease : ((created history).map fun p => p.2.tag).Pairwise (· < ·) :=
  (numbersIncrease history).sublist (numbersCreated history {})

theorem createdMessages : (after history).store.messages.Perm (created history) :=
  (placesHistory history {}).messages

theorem placedCreated (place : Place) :
    ((after history).store.placed place).Sublist (created history) := by
  have places := placesHistory history {}
  cases place with
  | waiting => exact places.waiting
  | stream i =>
    rw [Store.placed]
    cases found : (after history).store.streams[i]? with
    | none => exact List.nil_sublist _
    | some x => exact places.opened i x (Nat.zero_le i) found

theorem messagesDistinct : (after history).store.messages.Nodup := by
  refine (createdMessages history).nodup_iff.mpr ?_
  refine List.Pairwise.of_map (fun p => p.2.tag) (fun p q less same => ?_) (createdIncrease history)
  exact Nat.lt_irrefl _ (same ▸ less)

theorem placedKept (later : List Operation) (i : StreamId) {p : String × Delivery}
    (here : p ∈ (after history).store.placed (.stream i)) :
    p ∈ (after (history ++ later)).store.placed (.stream i) := by
  obtain ⟨x, found, fed⟩ := Store.placedStream here
  obtain ⟨y, more, there, grown, -⟩ := (placesHistory later (after history)).kept i x found
  unfold after at there ⊢
  rw [performAppend, Store.placed, there]
  change p ∈ y.fed
  rw [grown]
  exact List.mem_append_left _ fed

theorem placedSomewhere {p : String × Delivery} (made : p ∈ created history) :
    ∃ place, p ∈ (after history).store.placed place :=
  Store.placedMessages.mp ((createdMessages history).mem_iff.mpr made)

theorem placedLater (later : List Operation) (place : Place) (p : String × Delivery)
    (here : p ∈ (after history).store.placed place) :
    ∃ next, p ∈ (after (history ++ later)).store.placed next ∧ (next = place ∨ place = .waiting) := by
  cases place with
  | stream i => exact ⟨.stream i, placedKept history later i here, .inl rfl⟩
  | waiting =>
    have made : p ∈ created (history ++ later) := by
      unfold created
      rw [gatherAppend]
      exact List.mem_append_left _ ((placedCreated history .waiting).mem here)
    obtain ⟨next, there⟩ := placedSomewhere (history ++ later) made
    exact ⟨next, there, .inr rfl⟩

theorem pendingUnclaimed : ∀ p ∈ (after history).store.pending,
    ∀ x ∈ (after history).store.streams, ∀ c, (after history).store.channelOpen c = true →
      x.live c p.1 = false := by
  intro p waits x mem c _
  have tidy : (after history).store.Tidy :=
    historyKeeps tidyOperation history {} ⟨fun _ none => (by cases none), fun _ none => (by cases none)⟩
  refine Bool.eq_false_iff.mpr fun live => ?_
  unfold Stream.live at live
  simp only [Bool.and_eq_true, beq_iff_eq] at live
  obtain ⟨⟨⟨fed, reads⟩, -⟩, mine⟩ := live
  rw [tidy.waits p waits x mem mine fed] at reads
  cases reads

end

def Operated (m n : Memory) : Prop := ∃ x : Operation, n = x.perform m

theorem historyCovers :
    Env.Covers fun e f : Env Memory => ∃ history, f.broker = performAll history e.broker where
  idle _ := ⟨[], rfl⟩
  trans := by
    rintro e f g ⟨first, early⟩ ⟨second, late⟩
    exact ⟨first ++ second, by rw [late, early, performAppend]⟩
  record _ _ := ⟨[], rfl⟩
  freshId _ := ⟨[], rfl⟩
  beginDial _ _ := ⟨[], rfl⟩
  dial _ _ _ := ⟨[.dial], rfl⟩
  watchConnection c _ := ⟨[.watchConnection c], rfl⟩
  watchChannel c _ := ⟨[.watchChannel c], rfl⟩
  declare c d _ := ⟨[.declare c d], rfl⟩
  prefetch _ _ _ := ⟨[], rfl⟩
  consume c queue _ _ := ⟨[.consume c queue], rfl⟩
  poll i _ := ⟨[.poll i], rfl⟩
  dropStream i _ := ⟨[.dropStream i], rfl⟩
  publish c exchange key m _ := ⟨[.publish c exchange key m], rfl⟩
  settle _ _ _ _ := ⟨[], rfl⟩
  closeChannel c _ := ⟨[.closeChannel c], rfl⟩
  closeConnection c _ := ⟨[.closeConnection c], rfl⟩

theorem historyStep {w v : World Memory} (step : World.Step Operated w v) :
    ∃ history, v.env.broker = performAll history w.env.broker := by
  cases step with
  | act made => exact World.actCovered historyCovers made
  | broker change =>
    obtain ⟨x, done⟩ := change
    exact ⟨[x], done⟩
  | time | make | call | letGo => exact ⟨[], rfl⟩

theorem historyRun {w v : World Memory} (run : World.FreeRun Operated w v) :
    ∃ history, v.env.broker = performAll history w.env.broker := by
  induction run with
  | refl => exact ⟨[], rfl⟩
  | next _ last ih =>
    obtain ⟨before, early⟩ := ih
    obtain ⟨more, late⟩ := historyStep last
    exact ⟨before ++ more, by rw [late, early, performAppend]⟩

theorem historyArranged (history : List Operation) : Arranged history where
  numbered := numbersIncrease history
  nothingElse place _ here := (placedCreated history place).mem here
  once p made := by
    obtain ⟨place, here⟩ := placedSomewhere history made
    exact ⟨place, here, fun other there => Store.placedOnce (messagesDistinct history) there here⟩
  moves := placedLater history
  ordered place :=
    (createdIncrease history).sublist ((placedCreated history place).map _)
  unstranded := pendingUnclaimed history
  bound b := (bindingsHistory history {} b).trans (or_iff_right List.not_mem_nil)
  routed _ _ _ _ taken :=
    publishRouted (historyKeeps (P := fun s => s.bindings.Nodup) distinctOperation history {}
      List.nodup_nil) taken

/-- Whatever anybody does on a broker in memory, its messages stay apart and in order, and none waits
that somebody would take. -/
theorem messagesArranged {start w : World Memory} (empty : start.env.broker = {})
    (run : World.FreeRun Operated start w) :
    (∀ history, Arranged history) ∧ ∃ history, w.env.broker = after history := by
  refine ⟨historyArranged, ?_⟩
  obtain ⟨history, done⟩ := historyRun run
  exact ⟨history, by rw [done, empty, after]⟩

open World (letterConfirmed letterOpened letterSent post postAsked)

def letterFetched : World Memory :=
  { letterConfirmed with
    env := letterConfirmed.env.withBroker
      ((Operation.consume 0 "letters").perform letterConfirmed.env.broker) }

theorem fetchedRun : World.FreeRun Operated
    { env := { broker := {}, wallClock := fun _ => 0 } } letterFetched := by
  have posted : World.FreeRun Operated { env := { broker := {}, wallClock := fun _ => 0 } } post :=
    (World.Run.single (.make _ "sender" _)).trans (World.freeOfActs (World.settleActs _))
  have asked := posted.next (.call post 0 (.publish World.letter))
  have acting : World.Run World.Acts postAsked letterConfirmed :=
    ((World.Run.single ⟨_, _, (Option.some_get _).symm⟩).next ⟨_, _, (Option.some_get _).symm⟩).next
      ⟨_, _, (Option.some_get _).symm⟩
  exact (asked.trans (World.freeOfActs acting)).next (.broker _ ⟨_, rfl⟩)

theorem letterArranged :
    letterConfirmed.env.broker.store.pending.map (fun p => p.2.tag) = [1] ∧
      letterFetched.env.broker.store.pending.map (fun p => p.2.tag) = [] ∧
      (letterFetched.env.broker.store.placed (.stream 0)).map (fun p => p.2.tag) = [1] ∧
      ∃ history, letterFetched.env.broker = after history ∧ Arranged history := by
  obtain ⟨all, history, done⟩ := messagesArranged rfl fetchedRun
  exact ⟨rfl, rfl, rfl, history, done, all history⟩

end AmqpClient.Broker
