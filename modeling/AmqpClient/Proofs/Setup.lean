import AmqpClient.Network
import AmqpClient.Proofs.Hands
/-! Making a client, to its end. What a client demands of its configuration is looked at first and
asks nothing of the broker; then comes one dial, and after it a start of the topology's plan. Where
any of this fails, the failure is the answer: what was opened is closed again, channel first, and
nothing is left that could make a step, wait for an instant or dial again. -/
namespace AmqpClient

def Topology.demands (t : Topology) : List (Bool × String) :=
  [(t.exchangeName ≠ "", "exchange name is required"),
    (t.deadLetterQueueName = "" ∨ t.deadLetterExchangeName ≠ "",
      "dead letter queue `" ++ t.deadLetterQueueName ++ "` needs a dead letter exchange")]

def Plan.demands : Plan → List (Bool × String)
  | .supervisor t _ => t.demands
  | .producer t _ => t.demands
  | .service _ name t _ => (name ≠ "", "service name is required") :: t.demands
  | .consumer t _ o _ =>
    (t.queueName ≠ "", "consumer requires a queue name") ::
      (o.maxInFlight ≠ 0, "max_in_flight must be at least 1") :: t.demands

def firstUnmet (demands : List (Bool × String)) : Outcome :=
  match demands.find? (!·.1) with
  | none => .ok ()
  | some (_, reason) => .error (.invalidConfig reason)

theorem firstUnmetCons (met : Bool) (reason : String) (rest : List (Bool × String)) :
    firstUnmet ((met, reason) :: rest) =
      if met then firstUnmet rest else .error (.invalidConfig reason) := by
  cases met <;> rfl

theorem firstUnmetNone {demands : List (Bool × String)} :
    firstUnmet demands = .ok () ↔ ∀ d ∈ demands, d.1 := by
  induction demands with
  | nil => simp [firstUnmet]
  | cons d rest ih =>
    obtain ⟨met, reason⟩ := d
    rw [firstUnmetCons, List.forall_mem_cons]
    cases met <;> simp [ih]

theorem Topology.validateDemands (t : Topology) : t.validate = firstUnmet t.demands := by
  simp only [validate, demands, firstUnmetCons, decide_eq_true_eq]
  by_cases named : t.exchangeName = ""
  · rw [if_pos named, if_neg (not_not_intro named)]
  · rw [if_neg named, if_pos named]
    by_cases met : t.deadLetterQueueName = "" ∨ t.deadLetterExchangeName ≠ ""
    · rw [if_neg fun unmet => met.elim unmet.1 (absurd unmet.2), if_pos met]
      rfl
    · obtain ⟨queue, exchange⟩ := not_or.mp met
      rw [if_pos ⟨queue, Decidable.not_not.mp exchange⟩, if_neg met]

theorem Plan.checkDemands (p : Plan) : p.check = firstUnmet p.demands := by
  cases p with
  | supervisor t | producer t => exact t.validateDemands
  | service f name t o =>
    simp only [check, ownCheck, topology, demands, Service.check, firstUnmetCons,
      decide_eq_true_eq, t.validateDemands]
    by_cases named : name = ""
    · rw [if_pos named, if_neg (not_not_intro named)]
    · rw [if_neg named, if_pos named]
  | consumer t r o h =>
    simp only [check, ownCheck, topology, demands, Consumer.check, firstUnmetCons,
      decide_eq_true_eq, t.validateDemands]
    by_cases named : t.queueName = ""
    · rw [if_pos named, if_neg (not_not_intro named)]
    · rw [if_neg named, if_pos named]
      by_cases none : o.maxInFlight = 0
      · rw [if_pos none, if_neg (not_not_intro none)]
      · rw [if_neg none, if_pos none]

namespace Network

theorem schemeChecked (c : ConnectionSettings) :
    checkScheme c = .ok () ↔ c.scheme.toLower ∈ schemes := by
  simp [checkScheme]

theorem connectDemands (c : ConnectionSettings) (p : Plan) :
    connect c p = (firstUnmet p.demands).bind fun _ => checkScheme c := by
  unfold connect
  rw [p.checkDemands]
  cases firstUnmet p.demands <;> rfl

/-- A configuration is looked at before the address is, whose scheme a dial goes by. -/
theorem connectRefused (c : ConnectionSettings) (p : Plan) (x : Error) :
    connect c p = .error x ↔
      firstUnmet p.demands = .error x ∨
        firstUnmet p.demands = .ok () ∧ checkScheme c = .error x := by
  rw [connectDemands]
  cases firstUnmet p.demands <;> simp [Except.bind]

theorem connectDials (c : ConnectionSettings) (p : Plan) :
    connect c p = .ok () ↔ (∀ d ∈ p.demands, d.1) ∧ c.scheme.toLower ∈ schemes := by
  rw [connectDemands, ← schemeChecked, ← firstUnmetNone]
  cases firstUnmet p.demands <;> simp [Except.bind]

end Network

namespace Setup

inductive BrokerCall where
  | begin (number : Nat)
  | dial (number : Nat) (answer : Except Error Link)
  | declare (channel : ChannelId) (d : Declaration) (answer : Outcome)
  | closeChannel (channel : ChannelId) (answer : Outcome)
  | closeConnection (connection : ConnectionId) (answer : Outcome)
  | watchConnection (connection : ConnectionId) (answer : SignalId)
  | watchChannel (channel : ChannelId) (answer : SignalId)

def Asked {β : Type} [Broker β] (client : String) (e f : Env β) : Option BrokerCall → Prop
  | none => f = e
  | some (.begin n) => e.beginDial client = (f, n)
  | some (.dial n answer) => e.dial client n = (f, answer)
  | some (.declare c d answer) => e.declare c d = (f, answer)
  | some (.closeChannel c answer) => e.closeChannel c = (f, answer)
  | some (.closeConnection c answer) => e.closeConnection c = (f, answer)
  | some (.watchConnection c answer) => e.watchConnection c = (f, answer)
  | some (.watchChannel c answer) => e.watchChannel c = (f, answer)

def accepted (number : Nat) (l : Link) (done : List Declaration) : List BrokerCall :=
  .begin number :: .dial number (.ok l) :: done.map fun d => .declare l.channel d (.ok ())

inductive Transcript (plan : List Declaration) :
    List BrokerCall → Except Error (Link × SignalId × SignalId) → Prop where
  | undialed (number : Nat) (x : Error) :
      Transcript plan [.begin number, .dial number (.error x)] (.error x)
  | undeclared (number : Nat) (l : Link) {done d rest} (x : Error) (split : plan = done ++ d :: rest)
      (first second : Outcome) :
      Transcript plan (accepted number l done ++ [.declare l.channel d (.error x),
        .closeChannel l.channel first, .closeConnection l.connection second]) (.error x)
  | complete (number : Nat) (l : Link) (s t : SignalId) :
      Transcript plan (accepted number l plan ++
        [.watchConnection l.connection s, .watchChannel l.channel t]) (.ok (l, s, t))

inductive Stage (client : String) (p : Plan) : OpeningPhase → List BrokerCall → List Client → Prop where
  | checking : Stage client p .checking [] []
  | refused {x} (bad : p.check = .error x) : Stage client p (.failed x) [] []
  | start (good : p.check = .ok ()) : Stage client p (.establishing .start) [] []
  | dialing (good : p.check = .ok ()) (number : Nat) (ends : Instant) :
      Stage client p (.establishing (.dialing number ends)) [.begin number] []
  | installing (good : p.check = .ok ()) (number : Nat) (l : Link) {done rest}
      (split : p.topology.plan = done ++ rest) :
      Stage client p (.establishing (.installing l rest)) (accepted number l done) []
  | undeclared (good : p.check = .ok ()) (number : Nat) (l : Link) {done d rest} (x : Error)
      (split : p.topology.plan = done ++ d :: rest) :
      Stage client p (.establishing (.discarding (Release.ofLink l) x))
        (accepted number l done ++ [.declare l.channel d (.error x)]) []
  | channelClosed (good : p.check = .ok ()) (number : Nat) (l : Link) {done d rest} (x : Error)
      (split : p.topology.plan = done ++ d :: rest) (first : Outcome) (kept : Option Error) :
      Stage client p (.establishing (.discarding ⟨none, some l.connection, kept⟩ x))
        (accepted number l done ++ [.declare l.channel d (.error x),
          .closeChannel l.channel first]) []
  | discarded (good : p.check = .ok ()) {asked x}
      (transcript : Transcript p.topology.plan asked (.error x))
      (kept : Option Error) :
      Stage client p (.establishing (.discarding ⟨none, none, kept⟩ x)) asked []
  | failing (good : p.check = .ok ()) {asked x}
      (transcript : Transcript p.topology.plan asked (.error x)) :
      Stage client p (.establishing (.failed x)) asked []
  | failed (good : p.check = .ok ()) {asked x}
      (transcript : Transcript p.topology.plan asked (.error x)) :
      Stage client p (.failed x) asked []
  | watchingConnection (good : p.check = .ok ()) (number : Nat) (l : Link) :
      Stage client p (.establishing (.watchingConnection l))
        (accepted number l p.topology.plan) []
  | watchingChannel (good : p.check = .ok ()) (number : Nat) (l : Link) (s : SignalId) :
      Stage client p (.establishing (.watchingChannel l s))
        (accepted number l p.topology.plan ++ [.watchConnection l.connection s]) []
  | ready (good : p.check = .ok ()) {asked l s t}
      (transcript : Transcript p.topology.plan asked (.ok (l, s, t))) :
      Stage client p (.establishing (.ready l s t)) asked []
  | opened (good : p.check = .ok ()) {asked l s t}
      (transcript : Transcript p.topology.plan asked (.ok (l, s, t))) (k : Nat) :
      Stage client p (.opened k) asked [World.client { client, plan := p } l s t]

def stepsLeft (declarations : Nat) : OpeningPhase → Nat
  | .checking => declarations + 7
  | .establishing .start => declarations + 6
  | .establishing (.dialing ..) => declarations + 5
  | .establishing (.installing _ rest) => rest.length + 4
  | .establishing (.discarding r _) => r.channel.isSome.toNat + r.connection.isSome.toNat + 2
  | .establishing (.failed _) => 1
  | .establishing (.watchingConnection _) => 3
  | .establishing (.watchingChannel ..) => 2
  | .establishing (.ready ..) => 1
  | .failed _ => 0
  | .opened _ => 0

variable {β : Type} [Broker β] {client : String} {p : Plan} {asked : List BrokerCall}
  {born : List Client}

theorem acceptedNext (number : Nat) (l : Link) (done : List Declaration) (d : Declaration) :
    accepted number l done ++ [.declare l.channel d (.ok ())] = accepted number l (done ++ [d]) := by
  simp [accepted]

theorem establishStep {e f : Env β} {x y : Establish}
    (stage : Stage client p (.establishing x) asked born)
    (move : Establish.Move client p.topology e x f y) :
    ∃ r, Asked client e f r ∧ Stage client p (.establishing y) (asked ++ r.toList) born ∧
      stepsLeft p.topology.plan.length (.establishing y) <
        stepsLeft p.topology.plan.length (.establishing x) := by
  cases move with
  | start =>
    cases stage with
    | start good => exact ⟨some (.begin _), rfl, .dialing good _ _, Nat.lt_succ_self _⟩
  | @dialed number _ _ l _ answer =>
    cases stage with
    | dialing good =>
      exact ⟨some (.dial number (.ok l)), answer, .installing good number l (List.nil_append _).symm,
        Nat.lt_succ_self _⟩
  | @refused number _ _ x _ answer =>
    cases stage with
    | dialing good =>
      exact ⟨some (.dial number (.error x)), answer, .failing good (.undialed number x),
        by simp only [stepsLeft]; omega⟩
  | @installed l =>
    cases stage with
    | installing good number _ split =>
      rw [List.append_nil] at split
      subst split
      refine ⟨none, rfl, ?_, Nat.lt_succ_self _⟩
      simpa using Stage.watchingConnection good number l
  | @declared l d rest _ answer =>
    cases stage with
    | installing good number _ split =>
      refine ⟨some (.declare l.channel d (.ok ())), answer, ?_,
        Nat.add_lt_add_right (Nat.lt_succ_self _) 4⟩
      rw [Option.toList_some, acceptedNext]
      exact .installing good number l (by simp [split])
  | @undeclared l d rest _ x answer =>
    cases stage with
    | installing good number _ split =>
      exact ⟨some (.declare l.channel d (.error x)), answer, .undeclared good number l x split,
        Nat.add_lt_add_right (Nat.succ_pos _) 4⟩
  | @discard r q x _ move =>
    cases stage with
    | undeclared good number l _ split =>
      cases move with
      | channel held =>
        cases held
        refine ⟨some (.closeChannel l.channel _), rfl, ?_, Nat.lt_succ_self _⟩
        rw [Option.toList_some, List.append_assoc]
        exact .channelClosed good number l x split _ _
      | connection first => cases first
    | channelClosed good number l _ split first =>
      cases move with
      | channel held => cases held
      | connection _ held =>
        cases held
        refine ⟨some (.closeConnection l.connection _), rfl, ?_, Nat.lt_succ_self _⟩
        rw [Option.toList_some, List.append_assoc]
        exact .discarded good (.undeclared number l x split first _) _
    | discarded =>
      cases move with
      | channel held | connection _ held => cases held
  | discarded empty =>
    cases stage with
    | undeclared | channelClosed => cases empty
    | discarded good transcript =>
      exact ⟨none, rfl, by simpa using Stage.failing good transcript, Nat.lt_succ_self _⟩
  | @watchConnection l =>
    cases stage with
    | watchingConnection good number =>
      exact ⟨some (.watchConnection l.connection _), rfl, .watchingChannel good number l _,
        Nat.lt_succ_self _⟩
  | @watchChannel l s =>
    cases stage with
    | watchingChannel good number =>
      refine ⟨some (.watchChannel l.channel _), rfl, ?_, Nat.lt_succ_self _⟩
      rw [Option.toList_some, List.append_assoc]
      exact .ready good (.complete number l s _)

theorem stageUnderway {phase : OpeningPhase} (good : p.check = .ok ())
    (stage : Stage client p phase asked born) :
    ∃ rest answer, Transcript p.topology.plan (asked ++ rest) answer := by
  have after (number : Nat) (l : Link) {asked : List BrokerCall} (rest : List BrokerCall)
      (here : asked ++ rest = accepted number l p.topology.plan ++
        [.watchConnection l.connection 0, .watchChannel l.channel 0]) :
      ∃ rest answer, Transcript p.topology.plan (asked ++ rest) answer :=
    ⟨rest, _, by rw [here]; exact .complete number l 0 0⟩
  have whole {asked answer} (transcript : Transcript p.topology.plan asked answer) :
      ∃ rest answer, Transcript p.topology.plan (asked ++ rest) answer :=
    ⟨[], answer, (List.append_nil asked).symm ▸ transcript⟩
  cases stage with
  | refused bad => cases good.symm.trans bad
  | checking | start => exact ⟨_, _, .undialed 0 .closed⟩
  | dialing _ number => exact ⟨[.dial number (.error .closed)], _, .undialed number .closed⟩
  | @installing _ number l done rest split =>
    refine after number l (rest.map (fun d => .declare l.channel d (.ok ())) ++
      [.watchConnection l.connection 0, .watchChannel l.channel 0]) ?_
    simp [accepted, split]
  | undeclared _ number l x split =>
    refine ⟨[.closeChannel l.channel (.ok ()), .closeConnection l.connection (.ok ())],
      .error x, ?_⟩
    rw [List.append_assoc]
    exact .undeclared number l x split _ _
  | channelClosed _ number l x split first =>
    refine ⟨[.closeConnection l.connection (.ok ())], .error x, ?_⟩
    rw [List.append_assoc]
    exact .undeclared number l x split first _
  | discarded _ transcript | failing _ transcript | failed _ transcript | ready _ transcript
  | opened _ transcript =>
    exact whole transcript
  | watchingConnection _ number l => exact after number l _ rfl
  | watchingChannel _ number l s =>
    refine ⟨[.watchChannel l.channel 0], .ok (l, s, 0), ?_⟩
    rw [List.append_assoc]
    exact .complete number l s 0

theorem stageRefused {phase : OpeningPhase} {x : Error} (bad : p.check = .error x)
    (stage : Stage client p phase asked born) :
    asked = [] ∧ born = [] ∧ (phase = .checking ∨ phase = .failed x) := by
  cases stage with
  | checking => exact ⟨rfl, rfl, .inl rfl⟩
  | refused also =>
    cases bad.symm.trans also
    exact ⟨rfl, rfl, .inr rfl⟩
  | _ good => cases bad.symm.trans good

theorem stageFailed {x : Error} (good : p.check = .ok ())
    (stage : Stage client p (.failed x) asked born) :
    Transcript p.topology.plan asked (.error x) := by
  cases stage with
  | refused bad => cases good.symm.trans bad
  | failed _ transcript => exact transcript

theorem stageOpened {k : Nat} (stage : Stage client p (.opened k) asked born) :
    p.check = .ok () ∧ ∃ l s t, Transcript p.topology.plan asked (.ok (l, s, t)) ∧
      born = [World.client { client, plan := p } l s t] := by
  cases stage with
  | opened good transcript => exact ⟨good, _, _, _, transcript, rfl⟩

theorem stageUnborn {phase : OpeningPhase} (unopened : ∀ k, phase ≠ .opened k)
    (stage : Stage client p phase asked born) : born = [] := by
  cases stage with
  | opened _ _ k => exact absurd rfl (unopened k)
  | _ => rfl

end Setup

namespace World

open Setup

variable {β : Type} [Broker β] {outside : β → β → Prop} {start w v : World β} {i : Nat}
  {client : String} {p : Plan}

/-- A run with what was asked for one client that is being made, how many steps that took and what
clients were made by them. Such a step leaves the others that are being made alone. -/
inductive Setting (outside : β → β → Prop) (i : Nat) (client : String) (start : World β) :
    Nat → List BrokerCall → List Client → World β → Prop where
  | start : Setting outside i client start 0 [] [] start
  | own {steps asked born w v r added} (before : Setting outside i client start steps asked born w)
      (made : w.openingStep i = some v) (env : Setup.Asked client w.env v.env r)
      (clients : v.clients = w.clients ++ added)
      (others : ∀ j, j ≠ i → v.openings[j]? = w.openings[j]?) :
      Setting outside i client start (steps + 1) (asked ++ r.toList) (born ++ added) v
  | other {steps asked born w v} (before : Setting outside i client start steps asked born w)
      (used : Use outside w v) (apart : w.openingStep i ≠ some v) :
      Setting outside i client start steps asked born v

theorem othersKeep (used : Use outside w v) (apart : w.openingStep i ≠ some v) {o : Opening}
    (found : w.openings[i]? = some o) : v.openings[i]? = some o := by
  cases used with
  | act made =>
    obtain ⟨a, preferStop, made⟩ := made
    cases a with
    | opening j =>
      have elsewhere : j ≠ i := fun same => apart (same ▸ made)
      obtain ⟨q, -, move⟩ := openingMove made
      cases move <;> exact (List.getElem?_set_ne elsewhere).trans found
    | client j a =>
      obtain ⟨c, e, d, -, -, rfl⟩ := clientStepSource made
      exact found
  | time | broker | call | letGo => exact found
  | make =>
    exact (List.getElem?_append_left (List.getElem?_eq_some_iff.mp found).1).trans found

theorem ownStep {asked : List BrokerCall} {born : List Client} {phase : OpeningPhase}
    (found : w.openings[i]? = some { client, plan := p, phase })
    (stage : Stage client p phase asked born) (made : w.openingStep i = some v) :
    ∃ r added next, Asked client w.env v.env r ∧ v.clients = w.clients ++ added ∧
      (∀ j, j ≠ i → v.openings[j]? = w.openings[j]?) ∧
      v.openings[i]? = some { client, plan := p, phase := next } ∧
      Stage client p next (asked ++ r.toList) (born ++ added) ∧
      stepsLeft p.topology.plan.length next < stepsLeft p.topology.plan.length phase := by
  obtain ⟨o, there, move⟩ := openingMove made
  cases Option.some.inj (there.symm.trans found)
  have inside : i < w.openings.length := (List.getElem?_eq_some_iff.mp found).1
  have others (o : Opening) (j : Nat) (elsewhere : j ≠ i) :
      (w.openings.set i o)[j]? = w.openings[j]? := List.getElem?_set_ne elsewhere.symm
  have placed (o : Opening) : (w.openings.set i o)[i]? = some o := List.getElem?_set_self inside
  have none : w.clients = w.clients ++ [] := (List.append_nil _).symm
  cases move with
  | start here good =>
    cases here
    cases stage
    exact ⟨.none, [], _, rfl, none, others _, placed _, .start good, Nat.lt_succ_self _⟩
  | refuse here bad =>
    cases here
    cases stage
    exact ⟨.none, [], _, rfl, none, others _, placed _, .refused bad, Nat.succ_pos _⟩
  | fail here =>
    cases here
    cases stage with
    | failing good transcript =>
      refine ⟨.none, [], _, rfl, none, others _, placed _, ?_, Nat.lt_succ_self _⟩
      simpa using Stage.failed good transcript
  | opened here =>
    cases here
    cases stage with
    | ready good transcript =>
      refine ⟨.none, _, _, rfl, rfl, others _, placed _, ?_, Nat.lt_succ_self _⟩
      rw [Option.toList_none, List.append_nil]
      exact .opened good transcript w.clients.length
  | establish here move =>
    cases here
    obtain ⟨r, env, next, less⟩ := establishStep stage move
    exact ⟨r, [], _, env, none, others _, placed _, by simpa using next, less⟩

theorem settingOf (given : start.openings[i]? = some { client, plan := p })
    (run : Run (Use outside) start w) :
    ∃ steps asked born phase, Setting outside i client start steps asked born w ∧
      w.openings[i]? = some { client, plan := p, phase } ∧ Stage client p phase asked born ∧
      steps + stepsLeft p.topology.plan.length phase ≤ p.topology.plan.length + 7 := by
  induction run with
  | refl => exact ⟨0, [], [], .checking, .start, given, .checking, Nat.le_of_eq (Nat.zero_add _)⟩
  | @next w v run last ih =>
    obtain ⟨steps, asked, born, phase, setting, found, stage, bound⟩ := ih
    by_cases own : w.openingStep i = some v
    · obtain ⟨r, added, next, env, clients, others, placed, reached, less⟩ :=
        ownStep found stage own
      exact ⟨_, _, _, next, .own setting own env clients others, placed, reached, by omega⟩
    · exact ⟨_, _, _, phase, .other setting last own, othersKeep last own found, stage, bound⟩

def without (i : Nat) (w : World β) : World β :=
  { w with openings := w.openings.eraseIdx i }

structure CleanSetup (outside : β → β → Prop) (client : String) (p : Plan) (i steps : Nat)
    (asked : List BrokerCall) (born : List Client) (phase : OpeningPhase) (w : World β) : Prop where
  refused : ∀ x, firstUnmet p.demands = .error x →
    asked = [] ∧ born = [] ∧ (phase = .checking ∨ phase = .failed x)
  underway : firstUnmet p.demands = .ok () →
    ∃ rest answer, Transcript p.topology.plan (asked ++ rest) answer
  failed : firstUnmet p.demands = .ok () → ∀ x, phase = .failed x →
    Transcript p.topology.plan asked (.error x)
  opened : ∀ k, phase = .opened k → firstUnmet p.demands = .ok () ∧
    ∃ l s t, Transcript p.topology.plan asked (.ok (l, s, t)) ∧
      born = [World.client { client, plan := p } l s t]
  unborn : (∀ k, phase ≠ .opened k) → born = []
  ended : ∀ x, phase = .failed x → ∀ u, Run (Use outside) w u →
    u.openings[i]? = some { client, plan := p, phase } ∧ u.openingStep i = none ∧
      (u.without i).timers = u.timers
  bounded : steps ≤ p.topology.plan.length + 7
  goesOn : (∃ x, phase = .failed x) ∨ (∃ k, phase = .opened k) ∨
    (∃ number ends, phase = .establishing (.dialing number ends) ∧ w.env.now < ends) ∨
    ∃ v, w.openingStep i = some v

theorem filterMapWithout {α γ : Type} {f : α → Option γ} {xs : List α} {i : Nat} {x : α}
    (found : xs[i]? = some x) (nothing : f x = none) :
    (xs.eraseIdx i).filterMap f = xs.filterMap f := by
  obtain ⟨inside, rfl⟩ := List.getElem?_eq_some_iff.mp found
  conv => rhs; rw [← List.take_append_drop i xs, List.drop_eq_getElem_cons inside]
  rw [List.eraseIdx_eq_take_drop_succ, List.filterMap_append, List.filterMap_append,
    List.filterMap_cons_none nothing]

theorem openingWaitsForDial {phase : OpeningPhase}
    (found : w.openings[i]? = some { client, plan := p, phase }) :
    (∃ x, phase = .failed x) ∨ (∃ k, phase = .opened k) ∨
    (∃ number ends, phase = .establishing (.dialing number ends) ∧ w.env.now < ends) ∨
    ∃ v, w.openingStep i = some v := by
  unfold openingStep
  rw [found]
  cases phase with
  | failed x => exact .inl ⟨x, rfl⟩
  | opened k => exact .inr (.inl ⟨k, rfl⟩)
  | checking =>
    refine .inr (.inr (.inr ?_))
    dsimp only
    split <;> exact ⟨_, rfl⟩
  | establishing x =>
    rcases Establish.waitsForDial client p.topology w.env x with
      ⟨l, s, t, rfl⟩ | ⟨x, rfl⟩ | ⟨number, ends, rfl, early⟩ | ⟨f, y, made⟩
    · exact .inr (.inr (.inr ⟨_, rfl⟩))
    · exact .inr (.inr (.inr ⟨_, rfl⟩))
    · exact .inr (.inr (.inl ⟨number, ends, rfl, early⟩))
    · refine .inr (.inr (.inr ?_))
      cases x with
      | failed | ready => exact ⟨_, rfl⟩
      | _ =>
        dsimp only
        rw [made]
        exact ⟨_, rfl⟩

theorem openingOver {x : Error} {o : Opening} (failed : o.phase = .failed x)
    (found : w.openings[i]? = some o) (run : Run (Use outside) w v) :
    v.openings[i]? = some o ∧ v.openingStep i = none ∧ (v.without i).timers = v.timers := by
  have stuck {u : World β} (there : u.openings[i]? = some o) : u.openingStep i = none := by
    unfold openingStep
    rw [there]
    dsimp only
    rw [failed]
  have stays : v.openings[i]? = some o := by
    induction run with
    | refl => exact found
    | next _ last ih => exact othersKeep last (by rw [stuck ih]; nofun) ih
  refine ⟨stays, stuck stays, ?_⟩
  unfold timers without
  rw [filterMapWithout stays (by rw [failed])]

/-- A client is made cleanly or not at all, whatever else goes on. -/
theorem setupClean (given : start.openings[i]? = some { client, plan := p })
    (run : Run (Use outside) start w) :
    p.check = firstUnmet p.demands ∧ ∃ steps asked born phase,
      Setting outside i client start steps asked born w ∧
      w.openings[i]? = some { client, plan := p, phase } ∧
      CleanSetup outside client p i steps asked born phase w := by
  obtain ⟨steps, asked, born, phase, setting, found, stage, bound⟩ := settingOf given run
  have judged := p.checkDemands
  exact ⟨judged, steps, asked, born, phase, setting, found,
    { refused := fun x bad => stageRefused (judged.trans bad) stage
      underway := fun good => stageUnderway (judged.trans good) stage
      failed := fun good x here => stageFailed (judged.trans good) (here ▸ stage)
      opened := fun k here => judged ▸ stageOpened (here ▸ stage)
      unborn := fun unopened => stageUnborn unopened stage
      ended := fun x here u later => openingOver here found later
      bounded := Nat.le_trans (Nat.le_add_right ..) bound
      goesOn := openingWaitsForDial found }⟩

def refusing : World Broker.Memory :=
  { env := { broker := { refused := ["incoming"] }, wallClock := fun _ => 0 } }

def incomingPlan : Plan :=
  .consumer ((((Topology.new "orders").withQueue "incoming").underKey "order").withDeadLetter
    "orders.dlx" "orders.dlq" "order.failed") {} {} fun _ _ => {}

theorem setupRefused :
    let start := refusing.make "reader" incomingPlan
    start.openings[0]? = some { client := "reader", plan := incomingPlan } ∧
    start.settle.openings[0]?.map Opening.phase = some (.failed (.declareQueue "incoming")) ∧
    incomingPlan.check = firstUnmet incomingPlan.demands ∧ ∃ steps asked born phase,
      Setting (fun _ _ => True) 0 "reader" start steps asked born start.settle ∧
      start.settle.openings[0]? = some { client := "reader", plan := incomingPlan, phase } ∧
      CleanSetup (fun _ _ => True) "reader" incomingPlan 0 steps asked born phase start.settle :=
  ⟨rfl, by decide +kernel,
    setupClean rfl ((settleActs _).map fun _ _ made => .act made)⟩

end World

end AmqpClient
