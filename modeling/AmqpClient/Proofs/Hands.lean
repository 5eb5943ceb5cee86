import AmqpClient.Proofs.Closings
/-! How many hands there are. A client has one pair at most, be it in its session, with the
recovering task or with a call that closes it, and of those who are not a session whoever has a pair
can go on. -/
namespace AmqpClient

variable {β : Type} [Broker β] {e : Env β}

def Opening.opened (o : Opening) : Bool :=
  match o.phase with
  | .opened _ => true
  | _ => false

theorem Establish.goesOn {client : String} {t : Topology} {x : Establish}
    (full : x.held.pending = true) :
    (∃ l c h, x = .ready l c h) ∨ ∃ f y, x.step client t e = some (f, y) := by
  cases x with
  | installing l rest =>
    right
    cases rest with
    | nil => exact ⟨_, _, rfl⟩
    | cons d rest =>
      unfold step
      dsimp only
      split <;> exact ⟨_, _, rfl⟩
  | discarding r x =>
    right
    unfold step
    dsimp only
    split <;> exact ⟨_, _, rfl⟩
  | watchingConnection | watchingChannel => exact .inr ⟨_, _, rfl⟩
  | ready l c h => exact .inl ⟨l, c, h, rfl⟩
  | start | dialing | failed => cases full

theorem Establish.waitsForDial (client : String) (t : Topology) (e : Env β) (x : Establish) :
    (∃ l c h, x = .ready l c h) ∨ (∃ z, x = .failed z) ∨
      (∃ number ends, x = .dialing number ends ∧ e.now < ends) ∨
      ∃ f y, x.step client t e = some (f, y) := by
  by_cases full : x.held.pending = true
  · exact (goesOn full).imp_right fun made => .inr (.inr made)
  cases x with
  | start => exact .inr (.inr (.inr ⟨_, _, rfl⟩))
  | dialing number ends =>
    by_cases due : e.now < ends
    · exact .inr (.inr (.inl ⟨number, ends, rfl, due⟩))
    · refine .inr (.inr (.inr ?_))
      unfold step
      dsimp only
      rw [if_neg due]
      split <;> exact ⟨_, _, rfl⟩
  | discarding r z =>
    refine .inr (.inr (.inr ?_))
    unfold step
    dsimp only
    split <;> exact ⟨_, _, rfl⟩
  | failed z => exact .inr (.inl ⟨z, rfl⟩)
  | installing | watchingConnection | watchingChannel | ready => exact absurd rfl full

theorem Establish.handlingHeld {x : Establish} (full : x.held.pending = true) :
    x.handling = true := by
  cases x <;> first | rfl | cases full

namespace Supervisor

variable {s : Supervisor}

theorem handlingHeld (full : s.recovery.held.pending = true) : s.recovery.handling = true := by
  generalize s.recovery = x at full ⊢
  cases x with
  | releasing | abandoning => rfl
  | establishing x => exact Establish.handlingHeld full
  | _ => cases full

theorem replacingHeld (full : s.recovery.held.pending = true) : s.recovery.replacing = true := by
  generalize s.recovery = x at full ⊢
  cases x <;> first | rfl | cases full

theorem recoveryGoesOn (full : s.recovery.held.pending = true) (alive preferStop : Bool) :
    ∃ f t, s.recoveryStep alive preferStop e = some (f, t) := by
  unfold recoveryStep
  split
  case h_3 | h_8 => split <;> exact ⟨_, _, rfl⟩
  case h_5 => exact ⟨_, _, rfl⟩
  case h_7 ready _ here =>
    rw [here] at full
    rcases Establish.goesOn (e := e) full with ⟨l, c, h, rfl⟩ | ⟨f, y, made⟩
    · exact absurd rfl (ready l c h)
    · rw [made]
      exact ⟨_, _, rfl⟩
  all_goals
    rename_i here
    rw [here] at full
    cases full

theorem closeGoesOn {x : Closing} (going : ∀ o, x ≠ .done o) :
    ∃ f t y, s.closeStep e x = some (f, t, y) := by
  cases x with
  | raising | taking => exact ⟨_, _, _, rfl⟩
  | releasing r =>
    unfold closeStep
    dsimp only
    split <;> exact ⟨_, _, _, rfl⟩
  | done o => exact absurd rfl (going o)

end Supervisor

namespace Client

variable {c : Client}

theorem closingGoesOn (closings : c.Closings) {j : Nat} {x : Call} {a : Closing}
    (here : c.calls[j]? = some x) (inside : x.closing? = some a) (going : ∀ o, a ≠ .done o)
    (preferStop : Bool) : ∃ f d, c.step (.call j) preferStop e = some (f, d) := by
  change ∃ f d, c.callStep j e = some (f, d)
  obtain ⟨f, t, b, made⟩ := Supervisor.closeGoesOn (e := e) (s := c.supervisor) going
  cases x with
  | close x =>
    cases inside
    simp only [callStep, here, made]
    exact ⟨_, _, rfl⟩
  | closeConsumer x =>
    obtain ⟨k, role⟩ := closings.consumer x (List.mem_of_getElem? here)
    cases x with
    | closing x =>
      cases inside
      simp only [callStep, here, role, Consumer.closeStep, made]
      exact ⟨_, _, rfl⟩
    | _ => cases inside
  | _ => cases inside

omit [Broker β] in
theorem singleHanded (coherent : c.supervisor.Coherent) (closings : c.Closings) :
    c.holdings.countP Release.pending ≤ 1 := by
  have calls : (c.calls.map Call.held).countP Release.pending = c.calls.countP Call.pending :=
    List.countP_map
  have one := closings.one
  unfold holdings Supervisor.holdings
  rw [List.countP_append, calls, List.countP_cons, List.countP_singleton]
  by_cases lost : c.supervisor.recovery.replacing = true
  · -- A lost link is being replaced: the session is empty, and so is every call.
    have empty : c.supervisor.session.held.pending = false := by
      rw [Supervisor.heldSession coherent (coherent.replacing lost)]
      rfl
    have unowed : c.calls.countP Call.pending = 0 := by
      refine List.countP_eq_zero.mpr fun x mem owes => ?_
      rw [closings.alone x mem owes] at lost
      cases lost
    rw [unowed, empty]
    split <;> decide
  · have rested : c.supervisor.recovery.held.pending = false :=
      Bool.eq_false_iff.mpr fun full => lost (Supervisor.replacingHeld full)
    rw [rested]
    cases full : c.supervisor.session.held.pending with
    | true =>
      have unowed : c.calls.countP Call.pending = 0 := by
        refine List.countP_eq_zero.mpr fun x mem => ?_
        rw [(unowedConnected coherent closings full).1 x mem]
        nofun
      rw [unowed]
      decide
    | false => simpa using one

omit [Broker β] in
theorem emptyHands (coherent : c.supervisor.Coherent)
    (closed : c.supervisor.session.state = .closed)
    (recovery : c.supervisor.recovery.held.pending = false)
    (calls : ∀ x ∈ c.calls, x.pending = false) : c.holdings.countP Release.pending = 0 := by
  refine List.countP_eq_zero.mpr fun h inside full => ?_
  rcases List.mem_append.mp inside with supervisor | call
  · simp only [Supervisor.holdings, List.mem_cons, List.not_mem_nil, or_false] at supervisor
    rcases supervisor with rfl | rfl
    · rw [Supervisor.heldSession coherent (by rw [closed]; nofun)] at full
      cases full
    · rw [recovery] at full
      cases full
  · obtain ⟨x, made, rfl⟩ := List.mem_map.mp call
    rw [show x.held.pending = false from calls x made] at full
    cases full

end Client

namespace World

variable {outside : β → β → Prop} {w v : World β}

theorem openingGoesOn {i : Nat} {o : Opening} (found : w.openings[i]? = some o)
    (full : o.held.pending = true) : ∃ v, w.openingStep i = some v := by
  unfold Opening.held at full
  unfold openingStep
  rw [found]
  dsimp only
  split
  case h_3 => exact ⟨_, rfl⟩
  case h_4 ready here =>
    rw [here] at full
    rcases Establish.goesOn (e := w.env) full with ⟨l, c, h, rfl⟩ | ⟨f, y, made⟩
    · exact absurd rfl (ready l c h)
    · rw [made]
      exact ⟨_, rfl⟩
  all_goals
    rename_i here
    rw [here] at full
    cases full

theorem quietHands (reached : Reachable outside w) (quiet : w.Quiet) :
    (∀ o ∈ w.openings, o.held.pending = false) ∧
    ∀ c ∈ w.clients, c.supervisor.recovery.held.pending = false ∧
      ∀ x ∈ c.calls, ∀ a, x.closing? = some a → ∃ o, a = .done o := by
  refine ⟨fun o mem => Bool.eq_false_iff.mpr fun full => ?_, fun c mem => ?_⟩
  · obtain ⟨i, found⟩ := List.getElem?_of_mem mem
    obtain ⟨v, made⟩ := openingGoesOn found full
    rw [show w.openingStep i = none from quiet (.opening i) false] at made
    cases made
  · obtain ⟨i, found⟩ := List.getElem?_of_mem mem
    have none {a : Activity} {e : Env β} {d : Client}
        (made : c.step a false w.env = some (e, d)) : False := by
      obtain ⟨v, stepped, -⟩ := clientSteps found made
      rw [quiet (.client i a) false] at stepped
      cases stepped
    refine ⟨Bool.eq_false_iff.mpr fun full => ?_, fun x call a inside => ?_⟩
    · obtain ⟨f, t, made⟩ := Supervisor.recoveryGoesOn (e := w.env) full c.alive false
      refine none (a := .recovery) (e := f) (d := { c with supervisor := t }) ?_
      unfold Client.step
      rw [made]
      rfl
    · obtain ⟨j, here⟩ := List.getElem?_of_mem call
      refine Classical.byContradiction fun going => ?_
      obtain ⟨f, d, made⟩ := Client.closingGoesOn (e := w.env)
        (Client.closingsReachable reached found).2 here inside
        (fun o same => going ⟨o, same⟩) false
      exact none made

omit [Broker β] in
theorem openedSet {i : Nat} {o : Opening} {p : OpeningPhase} (found : w.openings[i]? = some o)
    (going : o.opened = false) : (w.setOpening i o p).openings.countP Opening.opened =
      w.openings.countP Opening.opened + (Opening.opened { o with phase := p }).toNat := by
  have replaced := countSet (p := Opening.opened) (y := { o with phase := p }) found
  rw [going] at replaced
  simp only [setOpening, toNatIf]
  exact replaced

theorem clientsOpened (reached : Reachable outside w) :
    w.clients.length = w.openings.countP Opening.opened := by
  refine reachableInduction (P := fun w => w.clients.length = w.openings.countP Opening.opened)
    (fun w fresh => by rw [fresh.clients, fresh.openings]; rfl) (fun w v _ used same => ?_) reached
  cases used with
  | act made =>
    obtain ⟨a, preferStop, made⟩ := made
    cases a with
    | opening i =>
      obtain ⟨o, found, move⟩ := openingMove made
      cases move with
      | start here | refuse here | fail here | establish here =>
        refine same.trans (Eq.trans ?_ (openedSet found (by unfold Opening.opened; rw [here])).symm)
        rfl
      | opened here =>
        refine Eq.trans ?_ (openedSet found (by unfold Opening.opened; rw [here])).symm
        rw [List.length_append, same]
        rfl
    | client i a =>
      obtain ⟨c, e, d, found, stepped, rfl⟩ := clientStepSource made
      exact List.length_set.trans same
  | time | broker => exact same
  | make client p => rw [make, List.countP_append]; exact same
  | call | letGo => exact (List.length_modify ..).trans same

theorem fewHands (reached : Reachable outside w) :
    w.holdings.countP Release.pending ≤ w.openings.length := by
  have openings : (w.openings.map Opening.held).countP Release.pending ≤
      w.openings.countP fun o => ¬ o.opened = true := by
    rw [List.countP_map]
    refine List.countP_mono_left fun o _ full => ?_
    unfold Function.comp Opening.held at full
    unfold Opening.opened
    split at full
    · rename_i here; rw [here]; rfl
    · cases full
  have clients : (w.clients.flatMap Client.holdings).countP Release.pending ≤ w.clients.length := by
    refine countFew fun c mem => ?_
    obtain ⟨i, found⟩ := List.getElem?_of_mem mem
    obtain ⟨coherent, closings⟩ := Client.closingsReachable reached found
    exact Client.singleHanded coherent closings
  have all := List.length_eq_countP_add_countP Opening.opened (l := w.openings)
  rw [clientsOpened reached] at clients
  unfold holdings
  rw [List.countP_append]
  omega

end World

end AmqpClient
