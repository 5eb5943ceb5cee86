import AmqpClient.Proofs.ServicePosts
import AmqpClient.Proofs.Waits
/-! The deadlines that a client computes from its settings. A sleep has an end whatever its length,
but the deadline of a publish call is a plain sum, and settings are accepted under which there is no
such instant: a call that then gets to its attempt neither returns nor fails. -/
namespace AmqpClient

namespace Instant

def Fits (now : Instant) (d : Duration) : Prop :=
  Duration.perMillisecond * now + d.nanoseconds < Duration.perSecond * limitSeconds

theorem addFits (now : Instant) (d : Duration) : add? now d = none ↔ ¬ now.Fits d := by
  unfold add? Fits
  split
  · exact ⟨fun _ => Nat.not_lt_of_le (by assumption), fun _ => rfl⟩
  · exact ⟨nofun, fun beyond => absurd (Nat.lt_of_not_le (by assumption)) beyond⟩

end Instant

def Duration.Counted (d : Duration) : Prop := d.nanoseconds < Nat.pow 2 64 * perSecond

theorem Duration.countedSeconds {n : Nat} (few : n < Nat.pow 2 64) : (ofSeconds n).Counted := by
  unfold Counted ofSeconds
  rw [Nat.mul_comm]
  exact Nat.mul_lt_mul_of_pos_right few (Nat.pow_pos (by decide))

namespace Config

theorem countedOfBinary {x : Binary64} {d : Duration} (read : Duration.ofBinary64? x = some d) :
    d.Counted := by
  unfold Duration.ofBinary64? at read
  dsimp only at read
  split at read
  · cases read
  · rename_i accepted
    cases read
    exact Nat.lt_of_not_le fun beyond => accepted (.inr beyond)

theorem countedOfNode {x : Json.Node} {d : Duration} (read : duration? x = some d) :
    d.Counted := by
  unfold duration? at read
  split at read
  · simp only [bind, Option.bind_eq_some_iff] at read
    obtain ⟨_, -, _, -, read⟩ := read
    exact countedOfBinary read
  · cases read

theorem fieldSource {α : Type} {r : Record} {name : String} {read : Json.Node → Option α}
    {default x : α} (found : r.field name read default = some x) :
    x = default ∨ ∃ y, read y = some x := by
  unfold Record.field at found
  split at found
  · exact .inl (Option.some.inj found).symm
  · exact .inr ⟨_, found⟩

theorem countedField {r : Record} {name : String} {default d : Duration} (usual : default.Counted)
    (found : r.field name duration? default = some d) : d.Counted := by
  rcases fieldSource found with rfl | ⟨y, read⟩
  · exact usual
  · exact countedOfNode read

end Config

structure ProducerOptions.Counted (o : ProducerOptions) : Prop where
  reconnectDelay : o.reconnectDelay.Counted
  publishTimeout : o.publishTimeout.Counted

structure ConsumerOptions.Counted (o : ConsumerOptions) : Prop where
  reconnectDelay : o.reconnectDelay.Counted
  unavailableBackoff : o.unavailableBackoff.Counted
  resubscribeDelay : o.resubscribeDelay.Counted

theorem ProducerOptions.countedRead {x : Json.Node} {o : ProducerOptions}
    (read : ofNode? x = some o) : o.Counted := by
  simp only [ofNode?, bind, Option.bind_eq_some_iff] at read
  obtain ⟨r, -, reconnect, first, publish, second, same⟩ := read
  cases same
  exact ⟨Config.countedField (Duration.countedSeconds (by decide)) first,
    Config.countedField (Duration.countedSeconds (by decide)) second⟩

theorem ConsumerOptions.countedRead {x : Json.Node} {o : ConsumerOptions}
    (read : ofNode? x = some o) : o.Counted := by
  simp only [ofNode?, bind, Option.bind_eq_some_iff] at read
  obtain ⟨r, -, reconnect, first, _, -, _, -, backoff, second, resubscribe, third, _, -, same⟩ := read
  cases same
  exact ⟨Config.countedField (Duration.countedSeconds (by decide)) first,
    Config.countedField (Duration.countedSeconds (by decide)) second,
    Config.countedField (Duration.countedSeconds (by decide)) third⟩

theorem Retry.delayCounted (n : UInt32) (p : RetryPolicy) : (delay n p).Counted :=
  Duration.countedSeconds (delaySeconds n p).toNat_lt

theorem parseRead {α : Type} {read : Json.Node → Option α} {text : String} {o : α}
    (parsed : Config.parse? read text = some o) : ∃ x, read x = some o := by
  obtain ⟨x, -, read⟩ := Option.bind_eq_some_iff.mp parsed
  exact ⟨x, read⟩

def Publication.limit? (p : Publication) : Option Duration :=
  match p.phase with
  | .queued limit => some limit
  | _ => if p.message.deadline.isNone then some p.timeout else none

theorem Publication.dueBeyond (p : Publication) (now : Instant) :
    p.due? now = none ↔ ∃ d, p.limit? = some d ∧ ¬ now.Fits d := by
  unfold due? limit? deadline?
  cases p.phase with
  | queued limit => simp [Instant.addFits]
  | _ => cases p.message.deadline <;> simp [Instant.addFits]

namespace World

variable {β : Type} [Broker β]

structure Meets (i j : Nat) (began : Instant) (due : Option Instant)
    (turns : List (World β × World β)) (v : World β) (phase : Publishing) : Prop where
  overflows : phase = .overflowed → due = none
  refused : due = none → ∀ o, phase = .done o →
    ∃ x ∈ turns, ∃ error, Asks i began x (.error error) ∧ o = .error error
  rests : v.step (.client i (.call j)) false = none →
    (∃ o, phase = .done o) ∨ phase = .overflowed ∨
      ∃ deadline ending, due = some deadline ∧ ending ∈ v.timers ∧ v.env.now < ending ∧
        ending ≤ deadline

variable {outside : β → β → Prop} {i j : Nat} {t : Topology} {w v : World β} {p q : Publication}
  {turns : List (World β × World β)} {c : Client} {began : Instant} {limit : Duration}

theorem underwayMeets (on : Underway i j t p began turns v c q) :
    Meets i j began (p.deadline? began) turns v q.phase where
  overflows here := by
    have stage := on.stage
    rw [here] at stage
    cases stage with
    | overflowed asks asking never stops => exact never
  refused beyond o here := by
    have stage := on.stage
    rw [here] at stage
    cases stage with
    | refused asks ends => exact ⟨_, List.mem_cons_self, _, asks, rfl⟩
    | done attempts concludes ends => cases beyond.symm.trans attempts.due
  rests stuck := by
    have stage := on.stage
    rcases callStuck on.client on.call stuck with finished | here | ⟨k, here, waits⟩
    · exact .inl finished
    · exact .inr (.inl here)
    · have timer := confirmingTimer on here
      rw [here] at stage
      cases stage with
      | @confirming x y deadline reply attempts since early =>
        obtain ⟨unanswered, ends⟩ := reply.concludedLater since waits
        -- the timer may be set for an answer on its way, which comes before the deadline
        have within := (Confirmation.ofReply began deadline reply).timerInTime
        have limit : (Confirmation.ofReply began deadline reply).deadline = deadline := by
          cases reply <;> rfl
        exact .inr (.inr ⟨deadline, _, attempts.due, timer, ends ▸ unanswered,
          Nat.le_trans within (Nat.le_of_eq limit)⟩)

theorem backstageMeets (queued : p.phase = .queued limit)
    (back : Backstage i j t p limit began turns v q) :
    Meets i j began (Instant.add? began limit) turns v q.phase := by
  cases back with
  | queued call time =>
    refine ⟨fun here => (nomatch queued.symm.trans here),
      fun _ o here => (nomatch queued.symm.trans here), fun stuck => ?_⟩
    obtain ⟨c, found, -, here⟩ := call
    rcases callStuck found here stuck with ⟨o, phase⟩ | phase | ⟨k, phase, -⟩
    all_goals cases queued.symm.trans phase
  | late call stops never =>
    exact ⟨fun _ => never, fun _ o here => (nomatch stops.symm.trans here),
      fun _ => .inr (.inl stops)⟩
  | @underway x turns v c q deadline due on =>
    obtain ⟨overflows, -, rests⟩ := underwayMeets on
    refine ⟨fun here => (nomatch overflows here), fun beyond => (nomatch beyond.symm.trans due), ?_⟩
    rw [due]
    exact rests

theorem meetsRun (begun : Begun i j t p w)
    (acting : Acting outside (.client i (.call j)) w turns v) : ∃ q, CallAt i j t v q ∧
      Meets i j w.env.now (p.due? w.env.now) turns v q.phase := by
  obtain ⟨⟨c, client, rfl, call⟩, opening | ⟨limit, queued⟩⟩ := begun
  · obtain ⟨d, q, on⟩ := underwayRun ⟨client, call, opening, acting⟩
    have due : p.due? w.env.now = p.deadline? w.env.now := by rw [Publication.due?, opening]
    exact ⟨q, ⟨d, on.client, on.topology, on.call⟩, due ▸ underwayMeets on⟩
  · obtain ⟨q, back⟩ := backstageRun queued ⟨c, client, rfl, call⟩ acting
    have due : p.due? w.env.now = Instant.add? w.env.now limit := by rw [Publication.due?, queued]
    exact ⟨q, backstageCall back, due ▸ backstageMeets queued back⟩

/-- However long the waits of a client were to be, each has its end, and who waits goes on then. A
publish call overflows only if its deadline lies beyond the last instant, and it does so whenever it
is not refused its channel; with any other deadline it returns. Settings are accepted up to twice the
length at which that begins. -/
theorem deadlinesComputed (reached : Reachable outside w) (found : w.clients[i]? = some c) :
    (∀ a length ends, c.Waits a length ends → w.Sleeping length ends) ∧
    (∀ {j t p v turns}, Begun i j t p w → Acting outside (.client i (.call j)) w turns v →
      (∃ q, CallAt i j t v q ∧ Meets i j w.env.now (p.due? w.env.now) turns v q.phase) ∧
        (p.due? w.env.now = none ↔ ∃ d, p.limit? = some d ∧ ¬ w.env.now.Fits d)) ∧
    (∀ text o, Config.parse? ProducerOptions.ofNode? text = some o → o.Counted) ∧
    (∀ text o, Config.parse? ConsumerOptions.ofNode? text = some o → o.Counted) ∧
    ∀ n p, (Retry.delay n p).Counted := by
  refine ⟨fun a length ends => waitsSleeping reached found,
    fun begun acting => ⟨meetsRun begun acting, Publication.dueBeyond ..⟩, ?_, ?_,
    Retry.delayCounted⟩
  · intro text o parsed
    obtain ⟨x, read⟩ := parseRead parsed
    exact ProducerOptions.countedRead read
  · intro text o parsed
    obtain ⟨x, read⟩ := parseRead parsed
    exact ConsumerOptions.countedRead read

open Broker (Memory)
open Scenario (Stage)

def mailer (o : ProducerOptions) : World Memory :=
  let t := ((Topology.new "letters").underKey "letter").withQueue "letters"
  let start : World Memory := { env := { broker := {}, wallClock := fun _ => 0 } }
  (start.make "sender" (.producer t o)).settle

def mail (o : ProducerOptions) : Publication :=
  { message := { body := [1] }, timeout := o.publishTimeout }

def mailing (o : ProducerOptions) : World Memory := (mailer o).call 0 (.publish (mail o))

theorem mailerReached {outside : Memory → Memory → Prop} (o : ProducerOptions) :
    Reachable outside (mailer o) :=
  reachableMade ⟨rfl, rfl, rfl⟩ _ _

def awaiting (o : ProducerOptions) : Bool :=
  match (mailer o).clients with
  | [⟨_, .producer _, [], true⟩] => true
  | _ => false

theorem mailerHeld {o : ProducerOptions} (seen : awaiting o = true) : ∃ s timeout,
    (mailer o).clients = [⟨s, .producer timeout, [], true⟩] := by
  unfold awaiting at seen
  split at seen
  · rename_i s timeout clients
    exact ⟨s, timeout, clients⟩
  · cases seen

theorem mailingReached {outside : Memory → Memory → Prop} {o : ProducerOptions}
    (seen : awaiting o = true) : Reachable outside (mailing o) := by
  obtain ⟨s, timeout, clients⟩ := mailerHeld seen
  exact reachableNext (mailerReached o) (.call _ (congrArg (·[0]?) clients) rfl rfl)

theorem mailingBegun {o : ProducerOptions} (seen : awaiting o = true) :
    ∃ t, Begun 0 0 t (mail o) (mailing o) := by
  obtain ⟨s, timeout, clients⟩ := mailerHeld seen
  refine ⟨_, ⟨⟨s, .producer timeout, [.publish (mail o)], true⟩, ?_, rfl, rfl⟩, .inl rfl⟩
  unfold mailing call
  rw [clients]
  rfl

def endless : ProducerOptions := { publishTimeout := .ofSeconds (Nat.pow 10 19) }

/-- They are read from a text, and a call under them, to a broker that would take its message, has
neither returned nor failed when nobody can go on. -/
theorem endlessOverflows :
    Config.parse? ProducerOptions.ofNode? "\x7b\"publish_timeout\":1e19\x7d" = some endless ∧
      Reachable (fun _ _ => False) (mailing endless).settle ∧ (mailing endless).settle.Quiet ∧
      Stage.callResult? 0 0 (mailing endless).settle = some .overflowed ∧
      (mailing endless).settle.env.broker.store.messages = [] :=
  ⟨by decide +kernel, reachableSettled (mailingReached (by decide +kernel)),
    quietSeen (by decide +kernel), rfl, rfl⟩

def lasting : ProducerOptions :=
  { reconnectDelay := .ofSeconds (Nat.pow 10 19), publishTimeout := .ofSeconds (9 * Nat.pow 10 18) }

def lastingLost : World Memory :=
  let w := mailer lasting
  { w with env := w.env.withBroker (w.env.broker.killConnection "gone") }.settle

theorem lastingReached : Reachable (fun _ _ => True) lastingLost :=
  reachableSettled (reachableBroker (mailerReached lasting) trivial)

theorem lastingMet :
    (∃ c, lastingLost.clients[0]? = some c ∧
      c.Waits .recovery (.ofSeconds (Nat.pow 10 19)) Instant.longestSleep ∧
      lastingLost.Sleeping (.ofSeconds (Nat.pow 10 19)) Instant.longestSleep) ∧
    (∃ t q, CallAt 0 0 t (Service.goesOn 3 (mailing lasting)).2 q ∧ q.phase = .done (.ok ()) ∧
      Meets 0 0 0 ((mail lasting).due? 0) (Service.goesOn 3 (mailing lasting)).1
        (Service.goesOn 3 (mailing lasting)).2 q.phase) ∧
    lasting.Counted ∧
    ({ resubscribeDelay := .ofSeconds (Nat.pow 10 19) } : ConsumerOptions).Counted := by
  have seen : awaiting lasting = true := by decide +kernel
  obtain ⟨t, begun⟩ := mailingBegun seen
  obtain ⟨⟨c, there, -⟩, -⟩ := id begun
  obtain ⟨-, met, producers, consumers, -⟩ := deadlinesComputed (mailingReached seen) there
  refine ⟨?_, ?_, ?_, ?_⟩
  · have waiting : lastingLost.clients.map (fun c =>
        (c.supervisor.recovery, c.supervisor.reconnectDelay)) =
        [(.pausing Instant.longestSleep, .ofSeconds (Nat.pow 10 19))] := rfl
    obtain ⟨c, rest, clients, head, -⟩ := List.map_eq_cons_iff.mp waiting
    obtain ⟨pausing, delay⟩ := Prod.mk.inj head
    have found : lastingLost.clients[0]? = some c := congrArg (·[0]?) clients
    have waits : c.Waits .recovery (.ofSeconds (Nat.pow 10 19)) Instant.longestSleep :=
      delay ▸ .reconnect pausing
    exact ⟨c, found, waits, (deadlinesComputed lastingReached found).1 _ _ _ waits⟩
  · obtain ⟨⟨q, call, meets⟩, -⟩ := met begun (Service.goesActing 3 _)
    exact ⟨t, q, call, Service.callReturned call rfl, meets⟩
  · exact producers "\x7b\"reconnect_delay\":1e19,\"publish_timeout\":9e18\x7d" _
      (by decide +kernel)
  · exact consumers "\x7b\"resubscribe_delay\":1e19\x7d" _ (by decide +kernel)

end World

end AmqpClient
