import AmqpClient.Proofs.Broker.Routing
import AmqpClient.Proofs.Course
import AmqpClient.Proofs.Replies
import AmqpClient.Proofs.TraceHeaders
import AmqpClient.Scenario.Command
/-! A publish call is one attempt. It asks for the channel of the session once; if that is not
healthy the call fails at that instant, and otherwise the message is handed to the broker once and
the call ends with the answer or at its deadline. This is so in every prompt run, whatever other
tasks and the broker do meanwhile. -/
namespace AmqpClient

variable {β : Type} [Broker β]

inductive Session.Answers (b : β) (s : Session) : Except Error ChannelId → Prop where
  | closed (state : s.state = .closed) : s.Answers b (.error .closed)
  | notConnected (state : s.state ≠ .closed) (unhealthy : s.healthy b = false) :
      s.Answers b (.error .notConnected)
  | healthy {n c} (state : s.state = .connected) (connection : s.connection = some n)
      (connectionOpen : Broker.connectionOpen b n = true) (channel : s.channel = some c)
      (channelOpen : Broker.channelOpen b c = true) : s.Answers b (.ok c)

theorem Session.answersAsked (b : β) (s : Session) : s.Answers b (s.channel? b) := by
  unfold channel?
  split
  · exact .closed (by assumption)
  · rename_i unclosed
    split
    · rename_i c channel
      split
      · rename_i sound
        unfold healthy at sound
        rw [channel] at sound
        simp only [Bool.and_eq_true, beq_iff_eq] at sound
        obtain ⟨⟨state, connected⟩, channelOpen⟩ := sound
        obtain ⟨n, connection, connectionOpen⟩ := (Option.any_eq_true _ _).mp connected
        exact .healthy state connection connectionOpen channel channelOpen
      · exact .notConnected unclosed (Bool.eq_false_iff.mpr (by assumption))
    · rename_i none
      refine .notConnected unclosed ?_
      unfold healthy
      rw [none]
      exact Bool.and_false _

theorem Session.askedAnswers {b : β} {s : Session} {answer : Except Error ChannelId}
    (answers : s.Answers b answer) : s.channel? b = answer := by
  unfold channel?
  cases answers with
  | closed state => rw [if_pos state]
  | notConnected state unhealthy =>
    rw [if_neg state, unhealthy]
    cases s.channel <;> rfl
  | healthy state connection connectionOpen channel channelOpen =>
    have sound : s.healthy b = true := by
      simp [healthy, state, connection, connectionOpen, channel, channelOpen]
    rw [if_neg (by simp [state]), sound, channel]
    rfl

structure Message.Carried (m : Message) (e : Envelope) : Prop where
  body : e.body = m.body
  headers : ∀ name, Assoc.find? name e.headers =
    (Trace.lastSet name m.trace).or (Assoc.find? name (m.headers.getD []))

namespace Publication

theorem envelopeCarries (m : Message) (id : String) : m.Carried (envelope m id) where
  body := rfl
  headers name := Trace.injectFind name m.trace (m.headers.getD [])

inductive Move (s : Supervisor) (e : Env β) (p : Publication) : Env β → Publication → Prop where
  | begin {limit t} (here : p.phase = .queued limit) (ends : Instant.add? e.now limit = some t) :
      Move s e p e { p with message := { p.message with deadline := some t }, phase := .opening }
  | late {limit} (here : p.phase = .queued limit) (beyond : Instant.add? e.now limit = none) :
      Move s e p e { p with phase := .overflowed }
  | refused {x} (here : p.phase = .opening) (unhealthy : s.channel? e.broker = .error x) :
      Move s e p e { p with phase := .done (.error x) }
  | opened {c} (here : p.phase = .opening) (healthy : s.channel? e.broker = .ok c) :
      Move s e p e { p with phase := .sending c }
  | overflow {c} (here : p.phase = .sending c) (beyond : p.deadline? e.now = none) :
      Move s e p e { p with phase := .overflowed }
  | send {c t f r} (here : p.phase = .sending c) (due : p.deadline? e.now = some t)
      (asked : e.freshId.1.publish c s.topology.exchangeName (routingKey s.topology p.message)
        (envelope p.message e.freshId.2) = (f, r)) :
      Move s e p f { p with phase := .confirming (.ofReply e.now t r) }
  | conclude {c o} (here : p.phase = .confirming c) (answer : c.result? e.now = some o) :
      Move s e p e { p with phase := .done o }

theorem stepMove {s : Supervisor} {e f : Env β} {p q : Publication} (h : p.step s e = some (f, q)) :
    Move s e p f q := by
  unfold step at h
  split at h
  case h_1 here =>
    split at h <;> cases h
    · exact .begin here (by assumption)
    · exact .late here (by assumption)
  case h_2 here =>
    split at h <;> cases h
    · exact .opened here (by assumption)
    · exact .refused here (by assumption)
  case h_3 here =>
    split at h
    · cases h
      exact .overflow here (by assumption)
    · cases h
      exact .send here (by assumption) rfl
  case h_4 here =>
    obtain ⟨o, answer, same⟩ := Option.map_eq_some_iff.mp h
    cases same
    exact .conclude here answer
  all_goals contradiction

theorem stuckWaits {s : Supervisor} {e : Env β} {p : Publication} (stuck : p.step s e = none) :
    (∃ o, p.phase = .done o) ∨ p.phase = .overflowed ∨
      ∃ c, p.phase = .confirming c ∧ c.result? e.now = none := by
  unfold step at stuck
  split at stuck
  case h_4 c here => exact .inr (.inr ⟨c, here, Option.map_eq_none_iff.mp stuck⟩)
  case h_5 o here => exact .inl ⟨o, here⟩
  case h_6 here => exact .inr (.inl here)
  all_goals split at stuck <;> cases stuck

end Publication

theorem Client.callKept {a : Activity} {preferStop : Bool} {e f : Env β} {c d : Client} {j : Nat}
    {x : Call} (made : c.step a preferStop e = some (f, d)) (here : c.calls[j]? = some x)
    (apart : a ≠ .call j) : d.calls[j]? = some x := by
  have other {i : Nat} {y : Call} (apart : Activity.call i ≠ .call j) :
      (c.calls.set i y)[j]? = some x :=
    (List.getElem?_set_ne fun same => apart (congrArg _ same)).trans here
  cases a with
  | call i =>
    change c.callStep i e = _ at made
    unfold callStep at made
    split at made
    case h_5 => cases made
    all_goals
      obtain ⟨_, -, same⟩ := Option.map_eq_some_iff.mp made
      cases same
      exact other apart
  | recovery | watcher =>
    obtain ⟨_, -, same⟩ := Option.map_eq_some_iff.mp made
    cases same
    exact here
  | loop | retry =>
    obtain ⟨_, _, -, -, rfl⟩ := consumerStepSource made
    exact here
  | worker i =>
    obtain ⟨_, _, -, -, rfl⟩ := consumerStepSource (g := fun _ e k => k.workerStep i e) made
    exact here

namespace World

inductive Acting (outside : β → β → Prop) (a : Actor) (w : World β) :
    List (World β × World β) → World β → Prop where
  | start : Acting outside a w [] w
  | own {turns v u preferStop} (before : Acting outside a w turns v)
      (made : v.step a preferStop = some u) : Acting outside a w ((v, u) :: turns) u
  | other {turns v u} (before : Acting outside a w turns v) (used : Use outside v u)
      (prompt : Prompt v u) (apart : ∀ preferStop, v.step a preferStop ≠ some u) :
      Acting outside a w turns u

def StepsInto (i j : Nat) (x : World β × World β) (e : Env β) : Prop :=
  ∃ c q, x.1.clients[i]? = some c ∧
    x.2 = { x.1 with env := e, clients := x.1.clients.set i (c.setCall j (.publish q)) }

structure Asks (i : Nat) (began : Instant) (x : World β × World β)
    (answer : Except Error ChannelId) : Prop where
  time : x.1.env.now = began
  session : ∃ c, x.1.clients[i]? = some c ∧ c.supervisor.session.Answers x.1.env.broker answer

structure Attempts (i j : Nat) (t : Topology) (p : Publication) (began : Instant)
    (x y : World β × World β) (deadline : Instant) (reply : Reply) : Prop where
  asks : ∃ c m e, Asks i began x (.ok c) ∧ p.message.Carried m ∧ StepsInto i j y e ∧
    y.1.env.freshId.1.publish c t.exchangeName (Publication.routingKey t p.message) m = (e, reply)
  asking : StepsInto i j x x.1.env
  time : y.1.env.now = began
  due : p.deadline? began = some deadline

inductive PublishStage (i j : Nat) (t : Topology) (p : Publication) (began now : Instant) :
    List (World β × World β) → Publishing → Prop where
  | opening (time : now = began) : PublishStage i j t p began now [] .opening
  | refused {x error} (asks : Asks i began x (.error error))
      (ends : StepsInto i j x (x.1.env.record (.ended i j (.error error)))) :
      PublishStage i j t p began now [x] (.done (.error error))
  | sending {x c} (asks : Asks i began x (.ok c)) (asking : StepsInto i j x x.1.env)
      (time : now = began) : PublishStage i j t p began now [x] (.sending c)
  | overflowed {x y c} (asks : Asks i began x (.ok c)) (asking : StepsInto i j x x.1.env)
      (never : p.deadline? began = none) (stops : StepsInto i j y y.1.env) :
      PublishStage i j t p began now [y, x] .overflowed
  | confirming {x y deadline reply} (attempts : Attempts i j t p began x y deadline reply)
      (since : began ≤ now) (early : now ≤ (reply.concludesBy began deadline).1) :
      PublishStage i j t p began now [y, x] (.confirming (.ofReply began deadline reply))
  | done {x y z deadline reply o} (attempts : Attempts i j t p began x y deadline reply)
      (concludes : reply.concludesBy began deadline = (z.1.env.now, o))
      (ends : StepsInto i j z (z.1.env.record (.ended i j o))) :
      PublishStage i j t p began now [z, y, x] (.done o)

structure Underway (i j : Nat) (t : Topology) (p : Publication) (began : Instant)
    (turns : List (World β × World β)) (v : World β) (c : Client) (q : Publication) : Prop where
  client : v.clients[i]? = some c
  topology : c.supervisor.topology = t
  call : c.calls[j]? = some (.publish q)
  message : q.message = p.message
  timeout : q.timeout = p.timeout
  stage : PublishStage i j t p began v.env.now turns q.phase

variable {outside : β → β → Prop} {i j : Nat} {t : Topology} {p q : Publication}
  {began : Instant} {turns : List (World β × World β)} {w v u : World β} {c : Client}

def noteEnd (i j : Nat) (q : Publication) (e : Env β) : Env β :=
  match q.phase with
  | .done o => e.record (.ended i j o)
  | _ => e

theorem publishStep {preferStop : Bool} (found : v.clients[i]? = some c)
    (here : c.calls[j]? = some (.publish q))
    (made : v.step (.client i (.call j)) preferStop = some u) :
    ∃ e r, Publication.Move c.supervisor v.env q e r ∧
      u = { v with
        env := noteEnd i j r e, clients := v.clients.set i (c.setCall j (.publish r)) } := by
  obtain ⟨c', e, d, found', stepped, rfl⟩ := clientStepSource made
  cases found.symm.trans found'
  change c.callStep j v.env = _ at stepped
  unfold Client.callStep at stepped
  rw [here] at stepped
  obtain ⟨⟨f, r⟩, published, same⟩ := Option.map_eq_some_iff.mp stepped
  cases same
  refine ⟨_, r, Publication.stepMove published, ?_⟩
  have now : (c.setCall j (.publish r)).calls[j]? = some (.publish r) :=
    List.getElem?_set_self (List.getElem?_eq_some_iff.mp here).1
  unfold recordEnd noteEnd
  dsimp only
  rw [now]
  obtain ⟨_, _, phase⟩ := r
  cases phase <;> rfl

theorem underwayOwn {preferStop : Bool} (on : Underway i j t p began turns v c q)
    (made : v.step (.client i (.call j)) preferStop = some u) :
    ∃ d r, Underway i j t p began ((v, u) :: turns) u d r := by
  obtain ⟨e, r, move, after⟩ := publishStep on.client on.call made
  have turned : StepsInto i j (v, u) (noteEnd i j r e) := ⟨c, r, on.client, after⟩
  have client : u.clients[i]? = some (c.setCall j (.publish r)) :=
    after ▸ List.getElem?_set_self (List.getElem?_eq_some_iff.mp on.client).1
  have call : (c.setCall j (.publish r)).calls[j]? = some (.publish r) :=
    List.getElem?_set_self (List.getElem?_eq_some_iff.mp on.call).1
  have goes (message : r.message = p.message) (timeout : r.timeout = p.timeout)
      (stage : PublishStage i j t p began v.env.now ((v, u) :: turns) r.phase) :
      ∃ d r', Underway i j t p began ((v, u) :: turns) u d r' :=
    ⟨_, r, client, on.topology, call, message, timeout, nowOfStep made ▸ stage⟩
  have asks {answer : Except Error ChannelId} (time : v.env.now = began)
      (given : c.supervisor.session.channel? v.env.broker = answer) :
      Asks i began (v, u) answer :=
    ⟨time, c, on.client, given ▸ c.supervisor.session.answersAsked v.env.broker⟩
  have deadline (now : Instant) : q.deadline? now = p.deadline? now := by
    unfold Publication.deadline?
    rw [on.message, on.timeout]
  have stage := on.stage
  cases move with
  | begin here | late here =>
    rw [here] at stage
    cases stage
  | refused here unhealthy =>
    rw [here] at stage
    cases stage with
    | opening time => exact goes on.message on.timeout (.refused (asks time unhealthy) turned)
  | opened here healthy =>
    rw [here] at stage
    cases stage with
    | opening time => exact goes on.message on.timeout (.sending (asks time healthy) turned time)
  | overflow here beyond =>
    rw [here] at stage
    cases stage with
    | sending asks asking time =>
      rw [deadline, time] at beyond
      exact goes on.message on.timeout (.overflowed asks asking beyond turned)
  | @send ch limit _ reply here due asked =>
    rw [here] at stage
    cases stage with
    | sending asks asking time =>
      rw [deadline, time] at due
      rw [on.topology, on.message] at asked
      have attempts : Attempts i j t p began _ (v, u) limit reply :=
        ⟨⟨ch, _, e, asks, Publication.envelopeCarries .., turned, asked⟩, asking, time, due⟩
      refine goes on.message on.timeout ?_
      rw [time]
      exact .confirming attempts (Nat.le_refl _) (reply.concludesAfter began limit)
  | conclude here answer =>
    rw [here] at stage
    cases stage with
    | confirming attempts since early =>
      have concludes := Reply.concludedResult _ since early answer
      exact goes on.message on.timeout (.done attempts concludes turned)

theorem callKept {x : Call} (used : Use outside v u) (found : v.clients[i]? = some c)
    (here : c.calls[j]? = some x)
    (apart : ∀ preferStop, v.step (.client i (.call j)) preferStop ≠ some u) :
    ∃ d, u.clients[i]? = some d ∧ d.calls[j]? = some x := by
  have modified {n : Nat} {f : Client → Client} (kept : (f c).calls[j]? = some x) :
      ∃ d, (v.clients.modify n f)[i]? = some d ∧ d.calls[j]? = some x := by
    refine ⟨if n = i then f c else c, by rw [List.getElem?_modify, found]; rfl, ?_⟩
    split
    · exact kept
    · exact here
  cases used with
  | act made =>
    obtain ⟨a, preferStop, made⟩ := made
    cases a with
    | opening n =>
      refine ⟨c, ?_, here⟩
      obtain ⟨-, same | ⟨o, l, s, t, more⟩⟩ := openingStepClients made
      · rw [same]
        exact found
      · rw [more, List.getElem?_append_left (List.getElem?_eq_some_iff.mp found).1]
        exact found
    | client n a =>
      obtain ⟨b, e, d, was, stepped, rfl⟩ := clientStepSource made
      by_cases mine : n = i
      · subst mine
        cases was.symm.trans found
        refine ⟨d, List.getElem?_set_self (List.getElem?_eq_some_iff.mp was).1, ?_⟩
        exact Client.callKept stepped here fun same => apart preferStop (same ▸ made)
      · exact ⟨c, (List.getElem?_set_ne mine).trans found, here⟩
  | time | broker | make => exact ⟨c, found, here⟩
  | call =>
    refine modified ?_
    rw [List.getElem?_append_left (List.getElem?_eq_some_iff.mp here).1]
    exact here
  | letGo => exact modified here

theorem confirmingTimer (on : Underway i j t p began turns v c q) {k : Confirmation}
    (here : q.phase = .confirming k) : k.timer ∈ v.timers := by
  refine List.mem_append_right _ (List.mem_flatMap.mpr ⟨c, List.mem_of_getElem? on.client, ?_⟩)
  refine List.mem_append_left _ (List.mem_append_left _
    (List.mem_filterMap.mpr ⟨_, List.mem_of_getElem? on.call, ?_⟩))
  change q.timer? = _
  unfold Publication.timer?
  rw [here]

theorem callStuck (found : v.clients[i]? = some c) (here : c.calls[j]? = some (.publish q))
    (stuck : v.step (.client i (.call j)) false = none) :
    (∃ o, q.phase = .done o) ∨ q.phase = .overflowed ∨
      ∃ k, q.phase = .confirming k ∧ k.result? v.env.now = none := by
  change v.clientStep i (.call j) false = none at stuck
  unfold clientStep at stuck
  rw [found] at stuck
  have stuck : c.callStep j v.env = none := Option.map_eq_none_iff.mp stuck
  unfold Client.callStep at stuck
  rw [here] at stuck
  exact Publication.stuckWaits (Option.map_eq_none_iff.mp stuck)

theorem stageLater {now later : Instant} {k : Confirmation}
    (stage : PublishStage i j t p began now turns (.confirming k)) (waits : k.result? now = none)
    (after : now ≤ later) (timer : now < k.timer → later ≤ k.timer) :
    now < k.timer ∧ PublishStage i j t p began later turns (.confirming k) := by
  cases stage with
  | @confirming x y deadline reply attempts since early =>
    obtain ⟨unanswered, ends⟩ := reply.concludedLater since waits
    rw [ends] at timer ⊢
    exact ⟨unanswered, .confirming attempts (Nat.le_trans since after) (timer unanswered)⟩

theorem underwayOther (on : Underway i j t p began turns v c q) (used : Use outside v u)
    (prompt : Prompt v u) (apart : ∀ preferStop, v.step (.client i (.call j)) preferStop ≠ some u) :
    ∃ d, Underway i j t p began turns u d q := by
  obtain ⟨d, client, call⟩ := callKept used on.client on.call apart
  obtain ⟨d', client', topology, -⟩ := settingsUse used on.client
  cases client.symm.trans client'
  refine ⟨d, client, topology.trans on.topology, call, on.message, on.timeout, ?_⟩
  rcases Nat.eq_or_lt_of_le (laterUse used) with now | later
  · exact now ▸ on.stage
  · -- time passes only when the call can make no step
    obtain ⟨quiet, timers⟩ := prompt later
    have stage := on.stage
    rcases callStuck on.client on.call (quiet (.client i (.call j)) false) with
      ⟨o, here⟩ | here | ⟨k, here, waits⟩
    · rw [here] at stage ⊢
      cases stage with
      | refused asks ends => exact .refused asks ends
      | done attempts concludes ends => exact .done attempts concludes ends
    · rw [here] at stage ⊢
      cases stage with
      | overflowed asks asking never stops => exact .overflowed asks asking never stops
    · have timer : k.timer ∈ v.timers := confirmingTimer on here
      rw [here] at stage ⊢
      exact (stageLater stage waits (Nat.le_of_lt later) (timers k.timer timer)).2

structure Posts (outside : β → β → Prop) (i j : Nat) (c : Client) (p : Publication)
    (w : World β) (turns : List (World β × World β)) (u : World β) : Prop where
  client : w.clients[i]? = some c
  call : c.calls[j]? = some (.publish p)
  opening : p.phase = .opening
  acting : Acting outside (.client i (.call j)) w turns u

theorem underwayRun (run : Posts outside i j c p w turns u) :
    ∃ d q, Underway i j c.supervisor.topology p w.env.now turns u d q := by
  obtain ⟨client, call, opening, acting⟩ := run
  induction acting with
  | start => exact ⟨c, p, client, rfl, call, rfl, rfl, opening ▸ .opening rfl⟩
  | own _ made ih =>
    obtain ⟨d, q, on⟩ := ih
    exact underwayOwn on made
  | other _ used prompt apart ih =>
    obtain ⟨d, q, on⟩ := ih
    obtain ⟨d, on⟩ := underwayOther on used prompt apart
    exact ⟨d, q, on⟩

def Awaits (u : World β) (q : Publication) : Prop :=
  (∃ o, q.phase = .done o) ∨ q.phase = .overflowed ∨
    ∃ k, q.phase = .confirming k ∧ u.env.now < k.timer ∧ k.timer ∈ u.timers

theorem underwayAwaits (on : Underway i j t p began turns v c q)
    (stuck : v.step (.client i (.call j)) false = none) : v.Awaits q := by
  rcases callStuck on.client on.call stuck with ended | never | ⟨k, here, waits⟩
  · exact .inl ended
  · exact .inr (.inl never)
  · have timer : k.timer ∈ v.timers := confirmingTimer on here
    have stage := on.stage
    rw [here] at stage
    have early := (stageLater stage waits (Nat.le_refl _) Nat.le_of_lt).1
    exact .inr (.inr ⟨k, here, early, timer⟩)

open Broker (Memory Store)
open Scenario (Measure)

structure Unpublished (x : World Memory × World Memory) : Prop where
  broker : x.2.env.broker = x.1.env.broker
  records : Measure.published.count x.2.env = Measure.published.count x.1.env

structure Published (t : Topology) (p : Publication) (x : World Memory × World Memory) : Prop where
  records : Measure.published.count x.2.env = Measure.published.count x.1.env + 1
  message : ∃ c m, p.message.Carried m ∧
    x.2.env.journal = ⟨x.1.env.now, .published c t.exchangeName
      (Publication.routingKey t p.message) m (.after 0 (.ok ()))⟩ :: x.1.env.journal ∧
    x.1.env.broker.store.Receives (Store.deliveries (fun tag => Delivery.new tag t.exchangeName
        (Publication.routingKey t p.message) m.body m.headers) x.1.env.broker.store.lastTag
      (x.1.env.broker.store.matching t.exchangeName (Publication.routingKey t p.message)))
      x.2.env.broker.store

omit [Broker β] in
theorem steppedEnv {x : World β × World β} {e : Env β} (turned : StepsInto i j x e) :
    x.2.env = e := by
  obtain ⟨d, r, -, same⟩ := turned
  exact congrArg World.env same

theorem asksUnpublished {x : World Memory × World Memory} (turned : StepsInto i j x x.1.env) :
    Unpublished x := by
  constructor <;> rw [steppedEnv turned]

theorem endsUnpublished {x : World Memory × World Memory} {o : Outcome}
    (turned : StepsInto i j x (x.1.env.record (.ended i j o))) : Unpublished x := by
  constructor <;> rw [steppedEnv turned] <;> rfl

theorem attemptInMemory {x y : World Memory × World Memory} {deadline : Instant} {reply : Reply}
    (attempts : Attempts i j t p began x y deadline reply) :
    (∃ ended, reply.concludesBy began deadline = (ended, .ok ()) ∧ Published t p y) ∨
      ∃ ended error, reply.concludesBy began deadline = (ended, .error error) ∧ Unpublished y := by
  obtain ⟨c, m, e, -, carried, turned, sent⟩ := attempts.asks
  have after : y.2.env = e := steppedEnv turned
  let a := Memory.publish c t.exchangeName (Publication.routingKey t p.message) m y.1.env.broker
  have outcome : y.1.env.broker.Published t.exchangeName (Publication.routingKey t p.message) m a :=
    Memory.publishOutcome ..
  have sent : ((y.1.env.freshId.1.withBroker a.1).record (.published c t.exchangeName
    (Publication.routingKey t p.message) m a.2), a.2) = (e, reply) := sent
  clear_value a
  cases outcome with
  | taken receives =>
    cases sent
    refine .inl ⟨_, rfl, ?_, c, m, carried, ?_, ?_⟩
    all_goals rw [after]
    · exact List.countP_cons_of_pos rfl
    · rfl
    · exact receives
  | refused error =>
    cases sent
    refine .inr ⟨_, error, rfl, ?_, ?_⟩
    all_goals rw [after]
    · rfl
    · exact List.countP_cons_of_neg Bool.false_ne_true
  | unanswered =>
    cases sent
    refine .inr ⟨_, .publishTimeout, rfl, ?_, ?_⟩
    all_goals rw [after]
    · rfl
    · exact List.countP_cons_of_neg Bool.false_ne_true

theorem endedInMemory {v : World Memory} {turns : List (World Memory × World Memory)}
    (on : Underway i j t p began turns v c q) :
    (q.phase = .done (.ok ()) → ∃ x y z, turns = [z, y, x] ∧ Unpublished x ∧ Published t p y ∧
      Unpublished z) ∧
    ∀ error, q.phase = .done (.error error) → ∀ x ∈ turns, Unpublished x := by
  have stage := on.stage
  constructor
  · intro here
    rw [here] at stage
    cases stage with
    | @done x y z deadline reply o attempts concludes ends =>
      refine ⟨x, y, z, rfl, asksUnpublished attempts.asking, ?_,
        endsUnpublished ends⟩
      rcases attemptInMemory attempts with ⟨ended, -, published⟩ | ⟨ended, error, failed, -⟩
      · exact published
      · cases failed.symm.trans concludes
  · intro error here
    rw [here] at stage
    cases stage with
    | @refused x error asks ends =>
      intro y mem
      cases List.mem_singleton.mp mem
      exact endsUnpublished ends
    | @done x y z deadline reply o attempts concludes ends =>
      rcases attemptInMemory attempts with ⟨ended, taken, -⟩ | ⟨ended, error, -, refused⟩
      · cases taken.symm.trans concludes
      · simp only [List.forall_mem_cons, List.not_mem_nil, false_implies, implies_true, and_true]
        exact ⟨endsUnpublished ends, refused,
          asksUnpublished attempts.asking⟩

/-- A publish call makes the steps of one attempt and no others, none of which changes a session, and
it can make the next one unless it is over or waits for the broker. In memory, a message that is
published makes one record and one delivery for each binding; a call that fails makes none. -/
theorem publishedOnce :
    (∀ {β : Type} [Broker β] {outside : β → β → Prop} {i j : Nat} {c : Client} {p : Publication}
      {w u : World β} {turns : List (World β × World β)},
      Posts outside i j c p w turns u →
      ∃ d q, Underway i j c.supervisor.topology p w.env.now turns u d q ∧
        (u.step (.client i (.call j)) false = none → u.Awaits q)) ∧
    ∀ {outside : Memory → Memory → Prop} {i j : Nat} {c : Client} {p : Publication}
      {w u : World Memory} {turns : List (World Memory × World Memory)},
      Posts outside i j c p w turns u →
      ∃ d q, u.clients[i]? = some d ∧ d.calls[j]? = some (.publish q) ∧
        (q.phase = .done (.ok ()) → ∃ x y z, turns = [z, y, x] ∧ Unpublished x ∧
          Published c.supervisor.topology p y ∧ Unpublished z) ∧
        ∀ error, q.phase = .done (.error error) → ∀ x ∈ turns, Unpublished x := by
  constructor
  · intro β _ outside i j c p w u turns run
    obtain ⟨d, q, on⟩ := underwayRun run
    exact ⟨d, q, on, underwayAwaits on⟩
  · intro outside i j c p w u turns run
    obtain ⟨d, q, on⟩ := underwayRun run
    exact ⟨d, q, on.client, on.call, endedInMemory on⟩

def post : World Memory :=
  let t := ((Topology.new "letters").underKey "letter").withQueue "letters"
  let start : World Memory := { env := { broker := {}, wallClock := fun _ => 0 } }
  (start.make "sender" (.producer t {})).settle

def letter : Publication :=
  { message := { body := [1], trace := [("Traceparent", "00")] }, timeout := .ofSeconds 5 }

def postAsked : World Memory := post.call 0 (.publish letter)

def sender : Client := postAsked.clients.get ⟨0, by decide +kernel⟩

def letterOpened : World Memory :=
  (postAsked.step (.client 0 (.call 0)) false).get (by decide +kernel)

def letterSent : World Memory :=
  (letterOpened.step (.client 0 (.call 0)) false).get (by decide +kernel)

def letterConfirmed : World Memory :=
  (letterSent.step (.client 0 (.call 0)) false).get (by decide +kernel)

theorem letterRun : Posts (fun _ _ => False) 0 0 sender letter postAsked
    [(letterSent, letterConfirmed), (letterOpened, letterSent), (postAsked, letterOpened)]
    letterConfirmed where
  client := rfl
  call := rfl
  opening := rfl
  acting := ((Acting.start.own (Option.some_get _).symm).own (Option.some_get _).symm).own
    (Option.some_get _).symm

theorem letterPublished :
    (∃ d q, Underway 0 0 sender.supervisor.topology letter 0
        [(letterSent, letterConfirmed), (letterOpened, letterSent), (postAsked, letterOpened)]
        letterConfirmed d q ∧ q.phase = .done (.ok ()) ∧ letterConfirmed.Awaits q) ∧
      Published sender.supervisor.topology letter (letterOpened, letterSent) ∧
      letterConfirmed.env.broker.store.messages.map (fun m => (m.1, m.2.body)) =
        [("letters", [1])] := by
  have ended : (letterConfirmed.clients[0]?.bind fun d => d.calls[0]?) =
      some (.publish { letter with phase := .done (.ok ()) }) := rfl
  have seen {d : Client} {q : Publication} (found : letterConfirmed.clients[0]? = some d)
      (here : d.calls[0]? = some (.publish q)) : q.phase = .done (.ok ()) := by
    rw [found, Option.bind_some, here] at ended
    cases ended
    rfl
  have stuck : letterConfirmed.step (.client 0 (.call 0)) false = none :=
    Option.isNone_iff_eq_none.mp (by decide +kernel)
  obtain ⟨d, q, on, rests⟩ := publishedOnce.1 letterRun
  obtain ⟨d', q', found, here, taken, -⟩ := publishedOnce.2 letterRun
  obtain ⟨x, y, z, turns, -, published, -⟩ := taken (seen found here)
  cases turns
  exact ⟨⟨d, q, on, seen on.client on.call, rests stuck⟩, published, rfl⟩

end World

end AmqpClient
