import AmqpClient.Proofs.Publications
/-! What a publish call hands to the broker, whenever its steps come. Its message is fixed when the
call is made; only the deadline of a background call is set later, when the call begins. Such a call
goes on as one that is awaited and has that deadline. -/
namespace AmqpClient

structure Posting where
  exchange : String
  key : String
  body : Bytes
  contentType : String
  deliveryMode : UInt8
  deriving DecidableEq, Repr

def Posting.envelope (p : Posting) (headers : Header.Table) (id : String) : Envelope :=
  ⟨p.body, p.contentType, headers, p.deliveryMode, id⟩

namespace Message

def posting (t : Topology) (m : Message) : Posting :=
  ⟨t.exchangeName, Publication.routingKey t m, m.body, "application/json", 2⟩

def carriedHeaders (m : Message) : Header.Table := Trace.inject m.trace (m.headers.getD [])

def Same (m n : Message) : Prop := { n with deadline := m.deadline } = m

theorem samePosting {m n : Message} (same : m.Same n) (t : Topology) :
    n.posting t = m.posting t := by
  unfold Same at same
  rw [← same]
  rfl

theorem sameHeaders {m n : Message} (same : m.Same n) : n.carriedHeaders = m.carriedHeaders := by
  unfold Same at same
  rw [← same]
  rfl

end Message

def Publishing.Unsent : Publishing → Prop
  | .confirming _ | .done (.ok ()) => False
  | _ => True

def Publication.awaitedBy (deadline : Instant) (p : Publication) : Publication :=
  { p with message := { p.message with deadline := some deadline }, phase := .opening }

def Publication.due? (now : Instant) (p : Publication) : Option Instant :=
  match p.phase with
  | .queued limit => Instant.add? now limit
  | _ => p.deadline? now

namespace World

variable {β : Type}

structure Silent (i j : Nat) (x : World β × World β) : Prop where
  broker : x.2.env.broker = x.1.env.broker
  journal : x.2.env.journal = x.1.env.journal ∨
    ∃ o, x.2.env.journal = ⟨x.1.env.now, .ended i j o⟩ :: x.1.env.journal

variable [Broker β]

def Goes (i j : Nat) (x : World β × World β) : Prop :=
  ∃ preferStop, x.1.step (.client i (.call j)) preferStop = some x.2

def Hands (channel : ChannelId) (posting : Posting) (headers : Header.Table)
    (x : World β × World β) (reply : Reply) : Prop :=
  ∃ id,
    Broker.publish channel posting.exchange posting.key (posting.envelope headers id)
      x.1.env.broker = (x.2.env.broker, reply) ∧
    x.2.env.journal = ⟨x.1.env.now, .published channel posting.exchange posting.key
      (posting.envelope headers id) reply⟩ :: x.1.env.journal

structure HandsOnce (i j : Nat) (posting : Posting) (headers : Header.Table)
    (changes : List (World β × World β)) (x : World β × World β) (reply : Reply) : Prop where
  goes : Goes i j x
  hands : ∃ channel, Hands channel posting headers x reply
  others : ∃ after before, changes = after ++ x :: before ∧
    ∀ y ∈ after ++ before, Goes i j y → Silent i j y

inductive Handing (i j : Nat) (posting : Posting) (headers : Header.Table)
    (changes : List (World β × World β)) (now : Instant) : Publishing → Prop where
  | unsent {phase} (silent : ∀ x ∈ changes, Goes i j x → Silent i j x) (unsent : phase.Unsent) :
      Handing i j posting headers changes now phase
  | waiting {x reply deadline} (once : HandsOnce i j posting headers changes x reply)
      (since : x.1.env.now ≤ now) :
      Handing i j posting headers changes now (.confirming (.ofReply x.1.env.now deadline reply))
  | finished {x reply deadline ended o} (once : HandsOnce i j posting headers changes x reply)
      (since : x.1.env.now ≤ ended)
      (result : (Confirmation.ofReply x.1.env.now deadline reply).result? ended = some o) :
      Handing i j posting headers changes now (.done o)

def CallAt (i j : Nat) (t : Topology) (v : World β) (q : Publication) : Prop :=
  ∃ c, v.clients[i]? = some c ∧ c.supervisor.topology = t ∧ c.calls[j]? = some (.publish q)

structure Posted (i j : Nat) (t : Topology) (m : Message) (changes : List (World β × World β))
    (v : World β) (q : Publication) : Prop where
  call : CallAt i j t v q
  message : m.Same q.message
  handing : Handing i j (m.posting t) m.carriedHeaders changes v.env.now q.phase
  alone : ∀ x ∈ changes, Goes i j x → StepsInto i j x x.2.env

inductive EndsBy (i : Nat) (began : Instant) (due : Option Instant) (posting : Posting)
    (headers : Header.Table) (turns : List (World β × World β)) (ended : Instant) (o : Outcome) :
    Prop where
  | refused {x error} (mem : x ∈ turns) (asks : Asks i began x (.error error))
      (same : (began, .error error) = (ended, o)) : EndsBy i began due posting headers turns ended o
  | answered {x y channel deadline reply} (mem : x ∈ turns) (asks : Asks i began x (.ok channel))
      (next : y ∈ turns) (time : y.1.env.now = began)
      (hands : Hands channel posting headers y reply) (limit : due = some deadline)
      (concludes : reply.concludesBy began deadline = (ended, o)) :
      EndsBy i began due posting headers turns ended o

structure Resolves (i j : Nat) (began : Instant) (due : Option Instant) (posting : Posting)
    (headers : Header.Table) (turns : List (World β × World β)) (u : World β)
    (phase : Publishing) : Prop where
  ended : ∀ o, phase = .done o →
    ∃ z ∈ turns, EndsBy i began due posting headers turns z.1.env.now o
  rests : u.step (.client i (.call j)) false = none →
    (∃ o, phase = .done o) ∨ (phase = .overflowed ∧ due = none) ∨
      ∃ ending o, EndsBy i began due posting headers turns ending o ∧ u.env.now < ending ∧
        ending ∈ u.timers

inductive Backstage (i j : Nat) (t : Topology) (p : Publication) (limit : Duration)
    (began : Instant) : List (World β × World β) → World β → Publication → Prop where
  | queued {v} (call : CallAt i j t v p) (time : v.env.now = began) :
      Backstage i j t p limit began [] v p
  | late {x v q} (call : CallAt i j t v q) (stops : q.phase = .overflowed)
      (never : Instant.add? began limit = none) : Backstage i j t p limit began [x] v q
  | underway {x turns v c q deadline} (due : Instant.add? began limit = some deadline)
      (on : Underway i j t (p.awaitedBy deadline) began turns v c q) :
      Backstage i j t p limit began (turns ++ [x]) v q

variable {outside : β → β → Prop} {i j : Nat} {t : Topology} {m : Message} {w v u : World β}
  {p q : Publication} {posting : Posting} {headers : Header.Table} {x y : World β × World β}
  {changes turns : List (World β × World β)} {phase : Publishing}

omit [Broker β] in
theorem callAtSet {c : Client} {r : Publication} {e : Env β} (found : v.clients[i]? = some c)
    (here : c.calls[j]? = some (.publish q)) :
    CallAt i j c.supervisor.topology
      { v with env := e, clients := v.clients.set i (c.setCall j (.publish r)) } r :=
  ⟨_, List.getElem?_set_self (List.getElem?_eq_some_iff.mp found).1, rfl,
    List.getElem?_set_self (List.getElem?_eq_some_iff.mp here).1⟩

theorem onceSilent {reply : Reply} (once : HandsOnce i j posting headers changes x reply)
    (silent : Goes i j y → Silent i j y) :
    HandsOnce i j posting headers (y :: changes) x reply := by
  obtain ⟨goes, hands, after, before, rfl, others⟩ := once
  exact ⟨goes, hands, y :: after, before, rfl, List.forall_mem_cons.mpr ⟨silent, others⟩⟩

theorem handingSilent {now later : Instant}
    (handing : Handing i j posting headers changes now phase)
    (silent : Goes i j y → Silent i j y) (after : now ≤ later) :
    Handing i j posting headers (y :: changes) later phase := by
  cases handing with
  | unsent quiet unsent => exact .unsent (List.forall_mem_cons.mpr ⟨silent, quiet⟩) unsent
  | waiting once since => exact .waiting (onceSilent once silent) (Nat.le_trans since after)
  | finished once since result => exact .finished (onceSilent once silent) since result

theorem handingSteps {now : Instant} (handing : Handing i j posting headers changes now phase)
    (mem : x ∈ changes) (goes : Goes i j x) :
    Silent i j x ∨ ∃ channel reply, Hands channel posting headers x reply := by
  have sent {y : World β × World β} {reply : Reply}
      (once : HandsOnce i j posting headers changes y reply) :
      Silent i j x ∨ ∃ channel reply, Hands channel posting headers x reply := by
    obtain ⟨-, ⟨channel, hands⟩, after, before, rfl, others⟩ := once
    rcases List.mem_cons.mp (List.perm_middle.mem_iff.mp mem) with rfl | mem
    · exact .inr ⟨channel, reply, hands⟩
    · exact .inl (others x mem goes)
  cases handing with
  | unsent silent => exact .inl (silent x mem goes)
  | waiting once => exact sent once
  | finished once => exact sent once

theorem postedOwn {preferStop : Bool} (posted : Posted i j t m changes v q)
    (made : v.step (.client i (.call j)) preferStop = some u) :
    ∃ r, Posted i j t m ((v, u) :: changes) u r := by
  obtain ⟨⟨c, found, topology, here⟩, message, handing, alone⟩ := posted
  obtain ⟨e, r, move, after⟩ := publishStep found here made
  have call : CallAt i j t u r := topology ▸ after ▸ callAtSet found here
  have goes : Goes i j (v, u) := ⟨preferStop, made⟩
  have turned : StepsInto i j (v, u) u.env := ⟨c, r, found, by subst after; rfl⟩
  have stays (message : m.Same r.message)
      (handing : Handing i j (m.posting t) m.carriedHeaders ((v, u) :: changes) v.env.now r.phase) :
      ∃ r', Posted i j t m ((v, u) :: changes) u r' :=
    ⟨r, call, message, nowOfStep made ▸ handing,
      List.forall_mem_cons.mpr ⟨fun _ => turned, alone⟩⟩
  subst after
  cases move with
  | begin phase | late phase | opened phase | overflow phase =>
    rw [phase] at handing
    cases handing with
    | unsent silent =>
      exact stays message
        (.unsent (List.forall_mem_cons.mpr ⟨fun _ => ⟨rfl, .inl rfl⟩, silent⟩) trivial)
  | refused phase =>
    rw [phase] at handing
    cases handing with
    | unsent silent =>
      exact stays message
        (.unsent (List.forall_mem_cons.mpr ⟨fun _ => ⟨rfl, .inr ⟨_, rfl⟩⟩, silent⟩) trivial)
  | @send channel limit f reply phase due asked =>
    rw [phase] at handing
    cases handing with
    | unsent silent =>
      refine stays message (.waiting
        ⟨goes, ⟨channel, v.env.freshId.2, ?_⟩, [], changes, rfl, silent⟩ (Nat.le_refl _))
      rw [← Message.samePosting message, ← Message.sameHeaders message, ← topology]
      cases asked
      exact ⟨rfl, rfl⟩
  | conclude phase answer =>
    rw [phase] at handing
    cases handing with
    | unsent silent unsent => cases unsent
    | waiting once since =>
      exact stays message (.finished (onceSilent once fun _ => ⟨rfl, .inr ⟨_, rfl⟩⟩) since answer)

omit [Broker β] in
theorem callAtOne {r : Publication} (here : CallAt i j t v q) (there : CallAt i j t v r) :
    q = r := by
  obtain ⟨c, found, -, call⟩ := here
  obtain ⟨d, found', -, call'⟩ := there
  cases found.symm.trans found'
  cases call.symm.trans call'
  rfl

theorem callAtOther (call : CallAt i j t v q) (used : Use outside v u)
    (apart : ¬ Goes i j (v, u)) : CallAt i j t u q := by
  obtain ⟨c, found, topology, here⟩ := call
  obtain ⟨d, client, call⟩ :=
    callKept used found here fun preferStop made => apart ⟨preferStop, made⟩
  obtain ⟨d', client', kept, -⟩ := settingsUse used found
  cases client.symm.trans client'
  exact ⟨d, client, kept.trans topology, call⟩

theorem postedOther (posted : Posted i j t m changes v q) (used : Use outside v u)
    (apart : ¬ Goes i j (v, u)) : Posted i j t m ((v, u) :: changes) u q where
  call := callAtOther posted.call used apart
  message := posted.message
  handing := handingSilent posted.handing (fun goes => absurd goes apart) (laterUse used)
  alone := List.forall_mem_cons.mpr ⟨fun goes => absurd goes apart, posted.alone⟩

def Begun (i j : Nat) (t : Topology) (p : Publication) (w : World β) : Prop :=
  CallAt i j t w p ∧ (p.phase = .opening ∨ ∃ limit, p.phase = .queued limit)

theorem postedRun (begun : Begun i j t p w) (course : Course (Use outside) w changes v) :
    ∃ q, Posted i j t p.message changes v q := by
  induction course with
  | refl =>
    refine ⟨p, begun.1, rfl, .unsent (fun _ mem => absurd mem List.not_mem_nil) ?_,
      fun _ mem => absurd mem List.not_mem_nil⟩
    rcases begun.2 with phase | ⟨limit, phase⟩
    all_goals
      rw [phase]
      trivial
  | @next changes v u _ last ih =>
    obtain ⟨q, posted⟩ := ih
    by_cases goes : Goes i j (v, u)
    · obtain ⟨preferStop, made⟩ := goes
      exact postedOwn posted made
    · exact ⟨q, postedOther posted last goes⟩

theorem courseLater (course : Course (Use outside) w changes v) : w.env.now ≤ v.env.now := by
  induction course with
  | refl => exact Nat.le_refl _
  | next _ last ih => exact Nat.le_trans ih (laterUse last)

theorem actingCourse (acting : Acting outside (.client i (.call j)) w turns v) :
    ∃ changes, Course (Use outside) w changes v ∧ ∀ x ∈ turns, x ∈ changes ∧ Goes i j x := by
  induction acting with
  | start => exact ⟨[], .refl, fun _ mem => absurd mem List.not_mem_nil⟩
  | own _ made ih =>
    obtain ⟨changes, course, each⟩ := ih
    refine ⟨_, course.next (.act ⟨_, _, made⟩), List.forall_mem_cons.mpr
      ⟨⟨List.mem_cons_self, _, made⟩, fun x mem => ?_⟩⟩
    exact ⟨List.mem_cons_of_mem _ (each x mem).1, (each x mem).2⟩
  | other _ used _ _ ih =>
    obtain ⟨changes, course, each⟩ := ih
    exact ⟨_, course.next used,
      fun x mem => ⟨List.mem_cons_of_mem _ (each x mem).1, (each x mem).2⟩⟩

variable {began : Instant} {due : Option Instant} {c : Client}

theorem attemptsHands {deadline : Instant} {reply : Reply}
    (attempts : Attempts i j t p began x y deadline reply)
    (handed : Silent i j y ∨ ∃ channel reply, Hands channel posting headers y reply) :
    ∃ channel, Asks i began x (.ok channel) ∧ Hands channel posting headers y reply := by
  obtain ⟨c, m, e, asks, -, turned, sent⟩ := attempts.asks
  have journal : y.2.env.journal = ⟨y.1.env.now, .published c t.exchangeName
      (Publication.routingKey t p.message) m reply⟩ :: y.1.env.journal := by
    rw [steppedEnv turned]
    cases sent
    rfl
  rcases handed with silent | ⟨channel, other, hands⟩
  · rcases silent.journal with same | ⟨o, noted⟩
    · exact absurd (same.symm.trans journal) (List.cons_ne_self _ _).symm
    · cases (List.cons.inj (noted.symm.trans journal)).1
  · obtain ⟨id, -, noted⟩ := id hands
    have same := (List.cons.inj (noted.symm.trans journal)).1
    simp only [Entry.mk.injEq, Fact.published.injEq, true_and] at same
    obtain ⟨rfl, -, -, -, rfl⟩ := same
    exact ⟨channel, asks, hands⟩

theorem underwayResolves (on : Underway i j t p began turns v c q)
    (handed : ∀ x ∈ turns, Silent i j x ∨
      ∃ channel reply, Hands channel (p.message.posting t) p.message.carriedHeaders x reply) :
    Resolves i j began (p.deadline? began) (p.message.posting t) p.message.carriedHeaders turns v
      q.phase where
  ended o finished := by
    have stage := on.stage
    rw [finished] at stage
    cases stage with
    | @refused x error asks ends =>
      exact ⟨x, List.mem_cons_self, .refused List.mem_cons_self asks (by rw [asks.time])⟩
    | @done x y z deadline reply o attempts concludes ends =>
      obtain ⟨channel, asks, hands⟩ := attemptsHands attempts (handed y (by simp))
      exact ⟨z, List.mem_cons_self,
        .answered (by simp) asks (by simp) attempts.time hands attempts.due concludes⟩
  rests stuck := by
    have stage := on.stage
    rcases callStuck on.client on.call stuck with finished | here | ⟨k, here, waits⟩
    · exact .inl finished
    · rw [here] at stage
      cases stage with
      | overflowed asks asking never stops => exact .inr (.inl ⟨here, never⟩)
    · have timer := confirmingTimer on here
      rw [here] at stage
      cases stage with
      | @confirming x y deadline reply attempts since early =>
        obtain ⟨channel, asks, hands⟩ := attemptsHands attempts (handed y (by simp))
        obtain ⟨unanswered, ends⟩ := reply.concludedLater since waits
        exact .inr (.inr ⟨_, _,
          .answered (by simp) asks (by simp) attempts.time hands attempts.due rfl,
          unanswered, ends ▸ timer⟩)

theorem endsMore {more : List (World β × World β)} {ended : Instant} {o : Outcome}
    (ends : EndsBy i began due posting headers turns ended o) (kept : turns ⊆ more) :
    EndsBy i began due posting headers more ended o := by
  cases ends with
  | refused mem asks same => exact .refused (kept mem) asks same
  | answered mem asks next time hands limit concludes =>
    exact .answered (kept mem) asks (kept next) time hands limit concludes

variable {limit : Duration}

theorem backstageOwn {preferStop : Bool} (queued : p.phase = .queued limit)
    (back : Backstage i j t p limit began turns v q)
    (made : v.step (.client i (.call j)) preferStop = some u) :
    ∃ r, Backstage i j t p limit began ((v, u) :: turns) u r := by
  cases back with
  | queued call time =>
    obtain ⟨c, found, rfl, here⟩ := call
    obtain ⟨e, r, move, after⟩ := publishStep found here made
    have call : CallAt i j c.supervisor.topology u r := after ▸ callAtSet found here
    have now : u.env.now = began := (nowOfStep made).trans time
    cases move with
    | begin phase ends =>
      cases queued.symm.trans phase
      obtain ⟨d, client, topology, call⟩ := call
      have started : Underway i j c.supervisor.topology (p.awaitedBy _) began [] u d _ :=
        ⟨client, topology, call, rfl, rfl, .opening now⟩
      have first := Backstage.underway (x := (v, u)) (time ▸ ends) started
      exact ⟨_, first⟩
    | late phase beyond =>
      cases queued.symm.trans phase
      exact ⟨_, .late call rfl (time ▸ beyond)⟩
    | refused phase | opened phase | overflow phase | send phase | conclude phase =>
      cases queued.symm.trans phase
  | late call stops never =>
    obtain ⟨c, found, -, here⟩ := call
    obtain ⟨e, r, move, -⟩ := publishStep found here made
    cases move with
    | begin phase | late phase | refused phase | opened phase | overflow phase | send phase
    | conclude phase => cases stops.symm.trans phase
  | underway due on =>
    obtain ⟨d, r, more⟩ := underwayOwn on made
    exact ⟨r, .underway due more⟩

theorem backstageOther (queued : p.phase = .queued limit)
    (back : Backstage i j t p limit began turns v q) (used : Use outside v u) (prompt : Prompt v u)
    (apart : ¬ Goes i j (v, u)) : Backstage i j t p limit began turns u q := by
  cases back with
  | queued call time =>
    refine .queued (callAtOther call used apart) ?_
    rcases Nat.eq_or_lt_of_le (laterUse used) with now | later
    · exact now ▸ time
    · -- the call has a step to make, so no time passes
      obtain ⟨c, found, -, here⟩ := call
      rcases callStuck found here ((prompt later).1 (.client i (.call j)) false) with
        ⟨o, phase⟩ | phase | ⟨k, phase, -⟩
      all_goals cases queued.symm.trans phase
  | late call stops never => exact .late (callAtOther call used apart) stops never
  | underway due on =>
    obtain ⟨d, on⟩ := underwayOther on used prompt fun preferStop made => apart ⟨preferStop, made⟩
    exact .underway due on

theorem backstageRun (queued : p.phase = .queued limit) (call : CallAt i j t w p)
    (acting : Acting outside (.client i (.call j)) w turns v) :
    ∃ q, Backstage i j t p limit w.env.now turns v q := by
  induction acting with
  | start => exact ⟨p, .queued call rfl⟩
  | own _ made ih =>
    obtain ⟨q, back⟩ := ih
    exact backstageOwn queued back made
  | other _ used prompt apart ih =>
    obtain ⟨q, back⟩ := ih
    exact ⟨q, backstageOther queued back used prompt fun goes => goes.elim apart⟩

theorem backstageCall (back : Backstage i j t p limit began turns v q) : CallAt i j t v q := by
  cases back with
  | queued call => exact call
  | late call => exact call
  | underway due on => exact ⟨_, on.client, on.topology, on.call⟩

theorem backstageResolves (queued : p.phase = .queued limit)
    (back : Backstage i j t p limit began turns v q)
    (handed : ∀ x ∈ turns, Silent i j x ∨
      ∃ channel reply, Hands channel (p.message.posting t) p.message.carriedHeaders x reply) :
    Resolves i j began (Instant.add? began limit) (p.message.posting t) p.message.carriedHeaders
      turns v q.phase := by
  cases back with
  | queued call time =>
    refine ⟨fun o finished => (nomatch queued.symm.trans finished), fun stuck => ?_⟩
    obtain ⟨c, found, -, here⟩ := call
    rcases callStuck found here stuck with ⟨o, phase⟩ | phase | ⟨k, phase, -⟩
    all_goals cases queued.symm.trans phase
  | late call stops never =>
    exact ⟨fun o finished => (nomatch stops.symm.trans finished),
      fun _ => .inr (.inl ⟨stops, never⟩)⟩
  | @underway x turns v c q deadline due on =>
    obtain ⟨ended, rests⟩ :=
      underwayResolves on fun x mem => handed x (List.mem_append_left _ mem)
    have kept : turns ⊆ turns ++ [x] := List.subset_append_left ..
    refine ⟨fun o finished => ?_, fun stuck => ?_⟩
    · obtain ⟨z, mem, ends⟩ := ended o finished
      exact ⟨z, kept mem, due ▸ endsMore ends kept⟩
    · rcases rests stuck with finished | ⟨-, never⟩ | ⟨ending, o, ends, early, timer⟩
      · exact .inl finished
      · cases never
      · exact .inr (.inr ⟨ending, o, due ▸ endsMore ends kept, early, timer⟩)

theorem resolvesRun (begun : Begun i j t p w)
    (acting : Acting outside (.client i (.call j)) w turns v) :
    ∃ q, CallAt i j t v q ∧ Resolves i j w.env.now (p.due? w.env.now) (p.message.posting t)
      p.message.carriedHeaders turns v q.phase := by
  have handed : ∀ x ∈ turns, Silent i j x ∨ ∃ channel reply,
      Hands channel (p.message.posting t) p.message.carriedHeaders x reply := by
    obtain ⟨changes, course, each⟩ := actingCourse acting
    obtain ⟨q, posted⟩ := postedRun begun course
    exact fun x mem => handingSteps posted.handing (each x mem).1 (each x mem).2
  obtain ⟨⟨c, client, rfl, call⟩, opening | ⟨limit, queued⟩⟩ := begun
  · obtain ⟨d, q, on⟩ := underwayRun ⟨client, call, opening, acting⟩
    have due : p.due? w.env.now = p.deadline? w.env.now := by rw [Publication.due?, opening]
    exact ⟨q, ⟨d, on.client, on.topology, on.call⟩, due ▸ underwayResolves on handed⟩
  · obtain ⟨q, back⟩ := backstageRun queued ⟨c, client, rfl, call⟩ acting
    have due : p.due? w.env.now = Instant.add? w.env.now limit := by rw [Publication.due?, queued]
    exact ⟨q, backstageCall back, due ▸ backstageResolves queued back handed⟩

end World

end AmqpClient
