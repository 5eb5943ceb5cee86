import AmqpClient.Proofs.Postings
import AmqpClient.Scenario
/-! What a service publishes. A message that is awaited and one that is left to run are the same on
the broker, made of the time of the call; and a message that is not taken leaves nothing behind. -/
namespace AmqpClient

namespace World

open Broker (Memory Store)
open Scenario (Measure)

structure Taken (posting : Posting) (headers : Header.Table) (x : World Memory × World Memory) :
    Prop where
  hands : ∃ channel, Hands channel posting headers x (.after 0 (.ok ()))
  records : Measure.published.count x.2.env = Measure.published.count x.1.env + 1
  receives : x.1.env.broker.store.Receives (Store.deliveries
    (fun tag => Delivery.new tag posting.exchange posting.key posting.body headers)
    x.1.env.broker.store.lastTag (x.1.env.broker.store.matching posting.exchange posting.key))
    x.2.env.broker.store

structure Sound (i : Nat) (channel : ChannelId) (v : World Memory) : Prop where
  healthy : ∃ c, v.clients[i]? = some c ∧ c.supervisor.channel? v.env.broker = .ok channel
  taking : v.env.broker.failing = false
  answering : v.env.broker.stalled = false

structure Accounts (i j : Nat) (posting : Posting) (headers : Header.Table)
    (changes : List (World Memory × World Memory)) (phase : Publishing) : Prop where
  alone : ∀ x ∈ changes, Goes i j x → StepsInto i j x x.2.env
  same : ∀ x ∈ changes, Goes i j x →
    Silent i j x ∨ ∃ channel reply, Hands channel posting headers x reply
  taken : phase = .done (.ok ()) → ∃ after x before, changes = after ++ x :: before ∧ Goes i j x ∧
    Taken posting headers x ∧ ∀ y ∈ after ++ before, Goes i j y → Unpublished y
  lost : (phase = .overflowed ∨ ∃ error, phase = .done (.error error)) →
    ∀ x ∈ changes, Goes i j x → Unpublished x

inductive Finishes (i : Nat) (began : Instant) (due : Option Instant) (posting : Posting)
    (headers : Header.Table) (turns : List (World Memory × World Memory)) :
    Instant → Outcome → Prop where
  | taken {x} (mem : x ∈ turns) (time : x.1.env.now = began) (taken : Taken posting headers x) :
      Finishes i began due posting headers turns began (.ok ())
  | closed {x c} (mem : x ∈ turns) (time : x.1.env.now = began) (client : x.1.clients[i]? = some c)
      (state : c.supervisor.session.state = .closed) :
      Finishes i began due posting headers turns began (.error .closed)
  | notConnected {x c} (mem : x ∈ turns) (time : x.1.env.now = began)
      (client : x.1.clients[i]? = some c) (state : c.supervisor.session.state ≠ .closed)
      (unhealthy : c.supervisor.session.healthy x.1.env.broker = false) :
      Finishes i began due posting headers turns began (.error .notConnected)
  | refused {x channel error} (mem : x ∈ turns) (time : x.1.env.now = began)
      (hands : Hands channel posting headers x (.after 0 (.error error))) :
      Finishes i began due posting headers turns began (.error error)
  | unconfirmed {x channel deadline} (mem : x ∈ turns) (time : x.1.env.now = began)
      (hands : Hands channel posting headers x .never) (limit : due = some deadline) :
      Finishes i began due posting headers turns (max began deadline) (.error .publishTimeout)

structure Concludes (i j : Nat) (began : Instant) (due : Option Instant) (posting : Posting)
    (headers : Header.Table) (turns : List (World Memory × World Memory)) (u : World Memory)
    (phase : Publishing) : Prop where
  ended : ∀ o, phase = .done o →
    ∃ z ∈ turns, Finishes i began due posting headers turns z.1.env.now o
  rests : u.step (.client i (.call j)) false = none →
    (∃ o, phase = .done o) ∨ (phase = .overflowed ∧ due = none) ∨
      ∃ ending o, Finishes i began due posting headers turns ending o ∧ u.env.now < ending ∧
        ending ∈ u.timers
  sound : ∀ channel, (∀ x ∈ turns, Sound i channel x.1) → due ≠ none →
    u.step (.client i (.call j)) false = none → phase = .done (.ok ())
  lost : (phase = .overflowed ∨ ∃ error, phase = .done (.error error)) →
    ∀ x ∈ turns, StepsInto i j x x.2.env ∧ Unpublished x

variable {outside : Memory → Memory → Prop} {i j : Nat} {t : Topology} {p : Publication}
  {w v : World Memory} {posting : Posting} {headers : Header.Table} {channel : ChannelId}
  {reply : Reply} {x : World Memory × World Memory}
  {changes turns : List (World Memory × World Memory)} {now began : Instant}
  {due : Option Instant} {phase : Publishing}

theorem silentUnpublished (silent : Silent i j x) : Unpublished x := by
  refine ⟨silent.broker, ?_⟩
  rcases silent.journal with same | ⟨o, noted⟩
  · exact congrArg (List.countP _) same
  · exact (congrArg (List.countP _) noted).trans (List.countP_cons_of_neg Bool.false_ne_true)

theorem handsInMemory (hands : Hands channel posting headers x reply) :
    (reply = .after 0 (.ok ()) ∧ Taken posting headers x) ∨
      (reply = .never ∨ ∃ error, reply = .after 0 (.error error)) ∧ Unpublished x := by
  obtain ⟨id, sent, noted⟩ := id hands
  have outcome := Memory.publishOutcome channel posting.exchange posting.key
    (posting.envelope headers id) x.1.env.broker
  rw [show Memory.publish _ _ _ _ _ = _ from sent] at outcome
  generalize after : x.2.env.broker = b at outcome
  cases outcome with
  | taken receives =>
    refine .inl ⟨rfl, ⟨channel, hands⟩, ?_, ?_⟩
    · exact (congrArg (List.countP _) noted).trans (List.countP_cons_of_pos rfl)
    · rw [after]
      exact receives
  | refused error =>
    exact .inr ⟨.inr ⟨error, rfl⟩, after,
      (congrArg (List.countP _) noted).trans (List.countP_cons_of_neg Bool.false_ne_true)⟩
  | unanswered =>
    exact .inr ⟨.inl rfl, after,
      (congrArg (List.countP _) noted).trans (List.countP_cons_of_neg Bool.false_ne_true)⟩

theorem handsSound (hands : Hands channel posting headers x reply) (sound : Sound i channel x.1) :
    reply = .after 0 (.ok ()) := by
  obtain ⟨⟨c, -, asked⟩, taking, answering⟩ := sound
  obtain ⟨id, sent, -⟩ := hands
  have answers := c.supervisor.session.answersAsked x.1.env.broker
  rw [show c.supervisor.session.channel? _ = _ from asked] at answers
  cases answers with
  | healthy state connection connectionOpen held channelOpen =>
    have sent : Memory.publish _ _ _ _ _ = _ := sent
    have isOpen : x.1.env.broker.store.channelOpen channel = true := channelOpen
    unfold Memory.publish at sent
    simp only [isOpen, taking, answering, Bool.not_true, Bool.false_eq_true, if_false] at sent
    exact (congrArg Prod.snd sent).symm

theorem handingInMemory (handing : Handing i j posting headers changes now phase) :
    (phase = .done (.ok ()) → ∃ after y before, changes = after ++ y :: before ∧ Goes i j y ∧
      Taken posting headers y ∧ ∀ z ∈ after ++ before, Goes i j z → Unpublished z) ∧
    (phase = .overflowed ∨ (∃ error, phase = .done (.error error)) →
      ∀ y ∈ changes, Goes i j y → Unpublished y) := by
  cases handing with
  | unsent silent unsent =>
    refine ⟨fun finished => ?_, fun _ y mem goes => silentUnpublished (silent y mem goes)⟩
    rw [finished] at unsent
    cases unsent
  | waiting => simp
  | @finished y reply deadline ended o once since result =>
    obtain ⟨goes, ⟨channel, hands⟩, after, before, rfl, others⟩ := once
    have quiet : ∀ z ∈ after ++ before, Goes i j z → Unpublished z :=
      fun z mem own => silentUnpublished (others z mem own)
    rcases handsInMemory hands with ⟨rfl, taken⟩ | ⟨failed, unpublished⟩
    · cases (Reply.resultAtOnce since).symm.trans result
      exact ⟨fun _ => ⟨after, y, before, rfl, goes, taken, quiet⟩, by simp⟩
    · obtain ⟨error, rfl⟩ := Reply.resultFailed reply failed result
      refine ⟨by simp, fun _ z mem own => ?_⟩
      rcases List.mem_cons.mp (List.perm_middle.mem_iff.mp mem) with rfl | mem
      · exact unpublished
      · exact quiet z mem own

theorem endsSound {ended : Instant} {o : Outcome}
    (ends : EndsBy i began due posting headers turns ended o)
    (sound : ∀ x ∈ turns, Sound i channel x.1) : ended = began ∧ o = .ok () := by
  have asked {x : World Memory × World Memory} {answer : Except Error ChannelId} (mem : x ∈ turns)
      (asks : Asks i began x answer) : answer = .ok channel := by
    obtain ⟨c, found, answers⟩ := asks.session
    obtain ⟨d, found', answered⟩ := (sound x mem).healthy
    cases found.symm.trans found'
    exact (Session.askedAnswers answers).symm.trans answered
  cases ends with
  | refused mem asks => cases asked mem asks
  | @answered x y channel' deadline reply mem asks next time hands limit concludes =>
    cases asked mem asks
    cases handsSound hands (sound y next)
    simp only [Reply.concludesBy, true_or, if_true, Nat.add_zero] at concludes
    cases concludes
    exact ⟨rfl, rfl⟩

theorem resolvesSound {v : World Memory}
    (resolves : Resolves i j began due posting headers turns v phase) (since : began ≤ v.env.now)
    (sound : ∀ x ∈ turns, Sound i channel x.1) (limited : due ≠ none)
    (stuck : v.step (.client i (.call j)) false = none) : phase = .done (.ok ()) := by
  rcases resolves.rests stuck with ⟨o, finished⟩ | ⟨-, never⟩ | ⟨ended, o, ends, early, -⟩
  · obtain ⟨z, -, ends⟩ := resolves.ended o finished
    rw [finished, (endsSound ends sound).2]
  · exact absurd never limited
  · rw [(endsSound ends sound).1] at early
    exact absurd since (Nat.not_le.mpr early)

theorem endsFinishes {ended : Instant} {o : Outcome}
    (ends : EndsBy i began due posting headers turns ended o) :
    Finishes i began due posting headers turns ended o := by
  cases ends with
  | refused mem asks same =>
    cases same
    obtain ⟨c, client, answers⟩ := asks.session
    cases answers with
    | closed state => exact .closed mem asks.time client state
    | notConnected state unhealthy => exact .notConnected mem asks.time client state unhealthy
  | @answered x y channel deadline reply mem asks next time hands limit concludes =>
    rcases handsInMemory hands with ⟨rfl, taken⟩ | ⟨rfl | ⟨error, rfl⟩, -⟩
    all_goals
      simp only [Reply.concludesBy, true_or, if_true, Nat.add_zero] at concludes
      cases concludes
    · exact .taken next time taken
    · exact .unconfirmed next time hands limit
    · exact .refused next time hands

theorem accountsRun (begun : Begun i j t p w) (course : Course (Use outside) w changes v) :
    ∃ q, CallAt i j t v q ∧
      Accounts i j (p.message.posting t) p.message.carriedHeaders changes q.phase := by
  obtain ⟨q, posted⟩ := postedRun begun course
  obtain ⟨taken, lost⟩ := handingInMemory posted.handing
  exact ⟨q, posted.call, posted.alone, fun x mem goes => handingSteps posted.handing mem goes,
    taken, lost⟩

theorem concludesRun (begun : Begun i j t p w)
    (acting : Acting outside (.client i (.call j)) w turns v) :
    ∃ q, CallAt i j t v q ∧ Concludes i j w.env.now (p.due? w.env.now) (p.message.posting t)
      p.message.carriedHeaders turns v q.phase := by
  obtain ⟨changes, course, each⟩ := actingCourse acting
  obtain ⟨q, call, accounts⟩ := accountsRun begun course
  obtain ⟨q', call', resolves⟩ := resolvesRun begun acting
  cases callAtOne call call'
  refine ⟨q, call, fun o finished => ?_, fun stuck => ?_, fun channel sound limited stuck =>
    resolvesSound resolves (courseLater course) sound limited stuck, fun failed x mem => ?_⟩
  · obtain ⟨z, mem, ends⟩ := resolves.ended o finished
    exact ⟨z, mem, endsFinishes ends⟩
  · rcases resolves.rests stuck with finished | never | ⟨ending, o, ends, waits⟩
    · exact .inl finished
    · exact .inr (.inl never)
    · exact .inr (.inr ⟨ending, o, endsFinishes ends, waits⟩)
  · obtain ⟨mem, goes⟩ := each x mem
    exact ⟨accounts.alone x mem goes, accounts.lost failed x mem goes⟩

end World

namespace Service

open Broker (Memory)
open Scenario (PublishRequest Stage)
open World (Use Course Acting Begun CallAt Accounts Concludes)

inductive Way where
  | awaited
  | background
  deriving DecidableEq, Repr

def key (t : Topology) (r : PublishRequest) : Flavour → String
  | .plain => r.key.getD t.routingKey
  | .events => t.routingKey
  | .tasks => "tasks." ++ r.kind

def posting (t : Topology) (f : Flavour) (service : String) (unix : Int) (r : PublishRequest) :
    Posting :=
  ⟨t.exchangeName, key t r f, (ServiceMessage.new unix service r.kind r.payload).encode,
    "application/json", 2⟩

/-- Who names a key for a task names that of its kind. -/
def OwnKey (f : Flavour) (r : PublishRequest) : Prop :=
  f = .tasks → ∀ named, r.key = some named → named = "tasks." ++ r.kind

namespace Way

variable {β : Type}

def publication (f : Flavour) (service : String) (timeout : Duration) (e : Env β)
    (r : PublishRequest) : Way → Publication
  | awaited =>
    { message := { Service.message f service e.unix r.kind r.payload r.key with
        trace := r.trace
        deadline := r.deadline.map (e.now + ·) }
      timeout }
  | background =>
    { message := Service.message f service e.unix r.kind r.payload
        (if f = .plain then r.key else none)
      timeout
      phase := .queued Publication.backgroundTimeout }

def headers (r : PublishRequest) : Way → Header.Table
  | awaited => Trace.inject r.trace []
  | background => []

def due (timeout : Duration) (now : Instant) (r : PublishRequest) : Way → Option Instant
  | awaited => (r.deadline.map (now + ·)).or (Instant.add? now timeout)
  | background => Instant.add? now (.ofSeconds 5)

variable {f : Flavour} {service : String} {timeout : Duration} {e : Env β} {r : PublishRequest}
  {t : Topology} (way : Way)

theorem keyed (own : OwnKey f r) :
    Publication.routingKey t (way.publication f service timeout e r).message = key t r f := by
  cases f with
  | plain => cases way <;> rfl
  | events => cases way <;> rfl
  | tasks =>
    cases way with
    | awaited =>
      change r.key.getD (taskKey r.kind) = _
      cases named : r.key with
      | none => rfl
      | some k => exact own rfl k named
    | background => rfl

theorem publicationPosts (own : OwnKey f r) :
    (way.publication f service timeout e r).message.posting t =
      posting t f service e.unix r := by
  unfold posting Message.posting
  rw [way.keyed own]
  cases way <;> simp only [publication, message]

theorem publicationHeaders :
    (way.publication f service timeout e r).message.carriedHeaders = way.headers r := by
  cases way <;> rfl

theorem publicationDue :
    (way.publication f service timeout e r).due? e.now = way.due timeout e.now r := by
  cases way with
  | awaited =>
    cases limit : r.deadline <;>
      simp [publication, Publication.due?, Publication.deadline?, due, limit]
  | background => rfl

theorem publicationBegins :
    (way.publication f service timeout e r).phase = .opening ∨
      ∃ limit, (way.publication f service timeout e r).phase = .queued limit := by
  cases way with
  | awaited => exact .inl rfl
  | background => exact .inr ⟨_, rfl⟩

theorem backgroundDue {now deadline : Instant}
    (due : background.due timeout now r = some deadline) : deadline = now + 5000 := by
  simp only [Way.due, Instant.add?] at due
  split at due
  · cases due
  · exact (Option.some.inj due).symm

end Way

theorem callBegun {w : World Memory} {i : Nat} {c : Client} {p : Publication}
    (found : w.clients[i]? = some c)
    (phase : p.phase = .opening ∨ ∃ limit, p.phase = .queued limit) :
    Begun i c.calls.length c.supervisor.topology p (w.call i (.publish p)) := by
  refine ⟨⟨{ c with calls := c.calls ++ [.publish p] }, ?_, rfl, List.getElem?_concat_length⟩,
    phase⟩
  change (w.clients.modify i _)[i]? = _
  rw [List.getElem?_modify_eq, found]
  rfl

/-- Awaited or left to run, a message of a service is given to the broker in one form, which is made
at the call and leaves only its identity and its trace open. If the broker takes it, it is published
once; a call that ends without that has changed nothing but itself. -/
theorem postedAlike {outside : Memory → Memory → Prop} {w : World Memory} {i : Nat} {c : Client}
    {f : Flavour} {service : String} {timeout : Duration} {r : PublishRequest}
    (found : w.clients[i]? = some c) (role : c.role = .service f service timeout)
    (own : OwnKey f r) :
    let call (way : Way) : Call := .publish (way.publication f service timeout w.env r)
    let m := posting c.supervisor.topology f service w.env.unix r
    let j := c.calls.length
    (∀ s : Stage Memory, s.world = w →
      (∀ label, s.publish i c r label = s.invoke i c (call .awaited) label) ∧
      s.publishAsync i c r =
        ({ s with world := w.call i (call .background) }, .outcome (.ok ()))) ∧
    (∀ deadline, Way.background.due timeout w.env.now r = some deadline →
      deadline = w.env.now + 5000) ∧
    ∀ way : Way,
      (∀ changes u, Course (Use outside) (w.call i (call way)) changes u →
        ∃ q, CallAt i j c.supervisor.topology u q ∧
          Accounts i j m (way.headers r) changes q.phase) ∧
      ∀ turns u, Acting outside (.client i (.call j)) (w.call i (call way)) turns u →
        ∃ q, CallAt i j c.supervisor.topology u q ∧
          Concludes i j w.env.now (way.due timeout w.env.now r) m (way.headers r) turns u
            q.phase := by
  intro call m j
  refine ⟨fun s here => ⟨fun label => ?_, ?_⟩, fun _ => Way.backgroundDue, fun way => ?_⟩
  · subst here
    unfold Stage.publish Stage.message
    rw [role]
    rfl
  · subst here
    unfold Stage.publishAsync
    rw [role]
    rfl
  · have begun : Begun i j c.supervisor.topology (way.publication f service timeout w.env r)
        (w.call i (call way)) :=
      callBegun found way.publicationBegins
    have same : (way.publication f service timeout w.env r).message.posting c.supervisor.topology =
        m := way.publicationPosts own
    rw [← same, ← way.publicationHeaders, ← way.publicationDue]
    exact ⟨fun changes u course => World.accountsRun begun course,
      fun turns u acting => World.concludesRun (w := w.call i (call way)) begun acting⟩

def office : World Memory :=
  let t := (Topology.tasks.underKey "tasks.email.verify").withQueue "emails"
  let start : World Memory := { env := { broker := {}, wallClock := fun _ => 0 } }
  (start.make "accounts" (.service .tasks "accounts" t {})).settle

def clerk : Client := office.clients.get ⟨0, by decide +kernel⟩

def welcome : PublishRequest :=
  { kind := "email.verify", key := some "tasks.email.verify", trace := [("traceparent", "00")] }

def asked (way : Way) : World Memory :=
  office.call 0 (.publish (way.publication .tasks "accounts" (.ofSeconds 5) office.env welcome))

def goesOn : Nat → World Memory → List (World Memory × World Memory) × World Memory
  | 0, w => ([], w)
  | n + 1, w =>
    let before := goesOn n w
    match before.2.step (.client 0 (.call 0)) false with
    | some u => ((before.2, u) :: before.1, u)
    | none => before

theorem goesActing (n : Nat) (w : World Memory) :
    Acting (fun _ _ => False) (.client 0 (.call 0)) w (goesOn n w).1 (goesOn n w).2 := by
  induction n with
  | zero => exact .start
  | succ n ih =>
    simp only [goesOn]
    split
    · exact ih.own (by assumption)
    · exact ih

def Way.Welcomes (way : Way) : Prop :=
  let m := posting clerk.supervisor.topology .tasks "accounts" 0 welcome
  let w := goesOn 4 (asked way)
  m.key = "tasks.email.verify" ∧
    (∃ q, CallAt 0 0 clerk.supervisor.topology w.2 q ∧ q.phase = .done (.ok ()) ∧
      ∃ x ∈ w.1, World.Taken m (way.headers welcome) x) ∧
    w.2.env.broker.store.messages.map (fun d => (d.1, d.2.routingKey)) =
      [("emails", "tasks.email.verify")]

theorem callReturned {i j : Nat} {t : Topology} {w : World Memory} {q : Publication} {o : Outcome}
    (call : CallAt i j t w q) (returned : Stage.callResult? i j w = some (.returned o)) :
    q.phase = .done o := by
  obtain ⟨c, found, -, here⟩ := call
  obtain ⟨m, limit, phase⟩ := q
  have result : (Call.publish ⟨m, limit, phase⟩).result? = some (.returned o) := by
    simpa [Stage.callResult?, found, here] using returned
  cases phase <;> cases result
  rfl

theorem welcomeReturns (way : Way) : Scenario.Stage.callResult? 0 0 (goesOn 4 (asked way)).2 =
    some (.returned (.ok ())) := by
  cases way <;> rfl

theorem welcomePosted : OwnKey .tasks welcome ∧ Way.awaited.Welcomes ∧ Way.background.Welcomes := by
  have own : OwnKey .tasks welcome := fun _ named same => (Option.some.inj same).symm
  have posts := (@postedAlike (fun _ _ => False) office 0 clerk .tasks "accounts" (.ofSeconds 5)
    welcome rfl rfl own).2.2
  have welcomes (way : Way) : way.Welcomes := by
    obtain ⟨q, call, concludes⟩ := (posts way).2 _ _ (goesActing 4 (asked way))
    have finished : q.phase = .done (.ok ()) := callReturned call (welcomeReturns way)
    obtain ⟨z, -, finishes⟩ := concludes.ended _ finished
    generalize z.1.env.now = ended at finishes
    refine ⟨rfl, ⟨q, call, finished, ?_⟩, by cases way <;> rfl⟩
    cases finishes with
    | taken mem time taken => exact ⟨_, mem, taken⟩
  exact ⟨own, welcomes .awaited, welcomes .background⟩

end Service

end AmqpClient
