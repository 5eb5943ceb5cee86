import AmqpClient.Proofs.Supervisor.Holdings
/-! The books of all clients together. In every world that can be reached, as many resources were
opened as were closed and are in hand, what is in hand came back from a dial, and no connection was
closed before its channel. -/
namespace AmqpClient

variable {β : Type} {e f : Env β}

def Client.holdings (c : Client) : List Release := c.supervisor.holdings ++ c.calls.map Call.held

def World.holdings (w : World β) : List Release :=
  w.openings.map Opening.held ++ w.clients.flatMap Client.holdings

namespace Client

variable {c d : Client}

theorem talliedCall {i : Nat} {x y : Call} (here : c.calls[i]? = some x)
    (tallied : Tallied [c.supervisor.session.held, x.held] [d.supervisor.session.held, y.held] e f)
    (recovery : d.supervisor.recovery = c.supervisor.recovery) (calls : d.calls = c.calls.set i y) :
    Tallied c.holdings d.holdings e f := by
  have mem : x ∈ c.calls := List.mem_of_getElem? here
  unfold holdings Supervisor.holdings
  refine talliedFrame tallied (fun h old => ?_) (fun h new => ?_) fun r n => ?_
  · simp only [List.mem_cons, List.not_mem_nil, or_false] at old
    rcases old with rfl | rfl
    · exact List.mem_append_left _ List.mem_cons_self
    · exact List.mem_append_right _ (List.mem_map_of_mem mem)
  · rcases List.mem_append.mp new with pair | call
    · simp only [List.mem_cons, List.not_mem_nil, or_false] at pair
      rcases pair with rfl | rfl
      · exact .inr List.mem_cons_self
      · rw [recovery]
        exact .inl (List.mem_append_left _ (List.mem_cons_of_mem _ List.mem_cons_self))
    · obtain ⟨z, set, rfl⟩ := List.mem_map.mp call
      rw [calls] at set
      rcases memSet here set with rfl | ⟨j, -, there⟩
      · exact .inr (List.mem_cons_of_mem _ List.mem_cons_self)
      · exact .inl (List.mem_append_right _ (List.mem_map_of_mem (List.mem_of_getElem? there)))
  · have replaced := totalSet (f := fun x => (Release.owns r (Call.held x)).count n) (y := y) here
    rw [← calls] at replaced
    simp only [mass, totalAppend, totalMap, total, recovery]
    omega

variable [Broker β]

theorem talliedMove (coherent : c.supervisor.Coherent) (move : Move e c f d) :
    Tallied c.holdings d.holdings e f := by
  have only {t : Supervisor} (tallied : Tallied c.supervisor.holdings t.holdings e f)
      (supervisor : d.supervisor = t) (calls : d.calls = c.calls) :
      Tallied c.holdings d.holdings e f := by
    unfold holdings
    rw [supervisor, calls]
    refine talliedFrame tallied (fun h => List.mem_append_left _) (fun h mem => ?_) fun r n => ?_
    · exact (List.mem_append.mp mem).symm.imp_left (List.mem_append_right _)
    · simp only [mass, totalAppend]
      omega
  have idle {i : Nat} {x y : Call} (here : c.calls[i]? = some x) (aside : e.Aside f)
      (before : x.held.pending = false) (after : y.held.pending = false)
      (supervisor : d.supervisor = c.supervisor) (calls : d.calls = c.calls.set i y) :
      Tallied c.holdings d.holdings e f := by
    refine talliedCall here ?_ (by rw [supervisor]) calls
    rw [supervisor]
    exact talliedBeside _ (talliedIdle aside before after)
  cases move with
  | recovery made =>
    exact only (Supervisor.talliedRecovery coherent (Supervisor.recoveryMove made)) rfl rfl
  | watcher made =>
    obtain ⟨rfl, move⟩ := Supervisor.watcherMove made
    cases move <;> exact talliedSame (Env.asideRefl _)
  | loop _ made =>
    obtain ⟨j, -, move⟩ := Consumer.loopMove made
    exact talliedSame (Env.asideOfBy (Consumer.growsOfLoop move) (by decide))
  | worker _ made =>
    obtain ⟨x, -, move⟩ := Consumer.workerMove made
    exact talliedSame (Env.asideOfBy (Consumer.growsOfWorker move) (by decide))
  | retry _ made =>
    obtain ⟨r, q, -, move, -⟩ := Consumer.retryStepSource made
    exact talliedSame (Env.asideOfBy (Consumer.growsOfRetry move) (by decide))
  | @publish i p q _ here made =>
    exact idle (y := .publish q) here (Env.asideOfBy (Publication.growsOfStep made) (by decide))
      rfl rfl rfl rfl
  | @close i x y _ t here made =>
    have move := Supervisor.closingMove made
    exact talliedCall (y := .close y) here (Supervisor.talliedClosing move)
      (Supervisor.recoveryOfClosing move) rfl
  | @start i x y k l role here made => exact idle (y := .start y) here (Env.asideRefl e) rfl rfl rfl rfl
  | @closeConsumer i x y _ _ _ t role here made =>
    cases Consumer.closeMove made with
    | @closing _ y _ _ stepped =>
      have move := Supervisor.closingMove stepped
      exact talliedCall (y := .closeConsumer (.closing y)) here (Supervisor.talliedClosing move)
        (Supervisor.recoveryOfClosing move) rfl
    | _ => exact idle (y := .closeConsumer _) here (Env.asideRefl e) rfl rfl rfl rfl

end Client

namespace World

variable {outside : β → β → Prop} {w v : World β}

structure Ledger (w : World β) : Prop where
  balance : ∀ r n, w.env.opened r n = w.env.closed r n + mass r n w.holdings
  backed : ∀ h ∈ w.holdings, h.Backed w.env
  ordered : w.env.Ordered

theorem ledgerKept (ledger : w.Ledger) (tallied : Tallied w.holdings v.holdings w.env v.env) :
    v.Ledger := by
  refine ⟨fun r n => ?_, tallied.backed ledger.backed, tallied.ordered ledger.backed ledger.ordered⟩
  have before := ledger.balance r n
  have change := tallied.balance r n
  omega

theorem talliedOpening {i : Nat} {o p : Opening} (found : w.openings[i]? = some o)
    (openings : v.openings = w.openings.set i p) (clients : v.clients = w.clients)
    (tallied : Tallied [o.held] [p.held] w.env v.env) :
    Tallied w.holdings v.holdings w.env v.env := by
  unfold holdings
  rw [openings, clients]
  refine talliedFrame tallied (fun h mem => ?_) (fun h mem => ?_) fun r n => ?_
  · cases List.mem_singleton.mp mem
    exact List.mem_append_left _ (List.mem_map_of_mem (List.mem_of_getElem? found))
  · rcases List.mem_append.mp mem with opening | client
    · obtain ⟨q, set, rfl⟩ := List.mem_map.mp opening
      rcases memSet found set with rfl | ⟨j, -, there⟩
      · exact .inr List.mem_cons_self
      · exact .inl (List.mem_append_left _ (List.mem_map_of_mem (List.mem_of_getElem? there)))
    · exact .inl (List.mem_append_right _ client)
  · have replaced := totalSet (f := fun x => (Release.owns r (Opening.held x)).count n) (y := p) found
    simp only [mass, totalAppend, totalMap, total]
    omega

theorem talliedClient {i : Nat} {c d : Client} (found : w.clients[i]? = some c)
    (openings : v.openings = w.openings) (clients : v.clients = w.clients.set i d)
    (tallied : Tallied c.holdings d.holdings w.env v.env) :
    Tallied w.holdings v.holdings w.env v.env := by
  unfold holdings
  rw [openings, clients]
  refine talliedFrame tallied (fun h mem => ?_) (fun h mem => ?_) fun r n => ?_
  · exact List.mem_append_right _ (List.mem_flatMap.mpr ⟨c, List.mem_of_getElem? found, mem⟩)
  · rcases List.mem_append.mp mem with opening | client
    · exact .inl (List.mem_append_left _ opening)
    · obtain ⟨b, set, inside⟩ := List.mem_flatMap.mp client
      rcases memSet found set with rfl | ⟨j, -, there⟩
      · exact .inr inside
      · exact .inl (List.mem_append_right _
          (List.mem_flatMap.mpr ⟨b, List.mem_of_getElem? there, inside⟩))
  · have replaced := totalSet (f := fun c => mass r n (Client.holdings c)) (y := d) found
    simp only [mass, totalAppend, totalParts] at replaced ⊢
    omega

variable [Broker β]

theorem ledgerOpening {i : Nat} {o : Opening} (found : w.openings[i]? = some o)
    (ledger : w.Ledger) (move : OpeningMove i w o v) : v.Ledger := by
  have idle {p : OpeningPhase} (before : o.held.pending = false)
      (after : ({ o with phase := p } : Opening).held.pending = false) :
      (w.setOpening i o p).Ledger :=
    ledgerKept ledger (talliedOpening found rfl rfl (talliedIdle (Env.asideRefl _) before after))
  cases move with
  | start here | refuse here | fail here => exact idle (by unfold Opening.held; rw [here]; rfl) rfl
  | @establish x _ _ here move =>
    refine ledgerKept ledger (talliedOpening found rfl rfl ?_)
    have had : o.held = x.held := by unfold Opening.held; rw [here]
    rw [had]
    exact Establish.talliedMove move
  | @opened l c h here =>
    have had : o.held = .ofLink l := by unfold Opening.held; rw [here]; rfl
    have gave : (client o l c h).holdings = [.ofLink l, .nothing] := rfl
    refine ledgerKept ledger (talliedAside (Env.asideRefl _) (fun x mem => ?_) fun r n => ?_)
    · rcases List.mem_append.mp mem with opening | client
      · obtain ⟨q, set, rfl⟩ := List.mem_map.mp opening
        rcases memSet found set with rfl | ⟨j, -, there⟩
        · exact .inr rfl
        · exact .inl (List.mem_append_left _ (List.mem_map_of_mem (List.mem_of_getElem? there)))
      · rw [List.flatMap_append, List.mem_append] at client
        rcases client with old | new
        · exact .inl (List.mem_append_right _ old)
        · rw [List.flatMap_singleton, gave] at new
          simp only [List.mem_cons, List.not_mem_nil, or_false] at new
          rcases new with rfl | rfl
          · exact .inl (List.mem_append_left _
              (had ▸ List.mem_map_of_mem (List.mem_of_getElem? found)))
          · exact .inr rfl
    · have replaced := totalSet (f := fun x => (Release.owns r (Opening.held x)).count n)
        (y := { o with phase := .opened w.clients.length }) found
      have gone : Opening.held { o with phase := .opened w.clients.length } = .nothing := rfl
      have none : Release.owns r .nothing = [] := Release.pendingOwns rfl r
      rw [had, gone, none, List.count_nil] at replaced
      simp only [holdings, setOpening, List.flatMap_append, List.flatMap_singleton, gave, mass,
        totalAppend, totalMap, total, none, List.count_nil]
      omega

omit [Broker β] in
theorem heldOpens {role : Role} {x : Call} (opens : x.Opens role) : x.held = .nothing := by
  unfold Call.Opens at opens
  split at opens <;> first | rfl | contradiction

theorem ledgerUse (reached : Reachable outside w) (ledger : w.Ledger) (h : Use outside w v) :
    v.Ledger := by
  cases h with
  | act made =>
    obtain ⟨a, preferStop, made⟩ := made
    cases a with
    | opening i =>
      obtain ⟨o, found, move⟩ := openingMove made
      exact ledgerOpening found ledger move
    | client i a =>
      obtain ⟨c, e, d, found, stepped, rfl⟩ := clientStepSource made
      have tallied := Client.talliedMove (Supervisor.coherentReachable reached found)
        (Client.clientMove stepped)
      exact ledgerKept ledger (talliedClient found rfl rfl
        (talliedLater tallied (Env.asideOfBy (growsRecordEnd i a d e) nofun)))
  | time | broker => exact ledgerKept ledger (talliedSame (Env.asideRefl _))
  | make client p =>
    refine ledgerKept ledger (talliedAside (Env.asideRefl _) (fun h mem => ?_) fun r n => ?_)
    · simp only [holdings, make, List.map_append, List.append_assoc, List.mem_append] at mem ⊢
      rcases mem with old | new | old
      · exact .inl (.inl old)
      · cases List.mem_singleton.mp new
        exact .inr rfl
      · exact .inl (.inr old)
    · have idle : (Opening.held { client, plan := p }).owns r = [] := Release.pendingOwns rfl r
      simp only [holdings, make, mass, totalAppend, totalMap, total, idle, List.count_nil]
      rfl
  | @call i c x found held opens =>
    have idle : x.held.pending = false := by rw [heldOpens opens]; rfl
    refine ledgerKept ledger (talliedClient found rfl (modifyFound found)
      (talliedAside (Env.asideRefl _) (fun h mem => ?_) fun r n => ?_))
    · simp only [Client.holdings, List.map_append, List.mem_append] at mem ⊢
      rcases mem with old | old | new
      · exact .inl (.inl old)
      · exact .inl (.inr old)
      · cases List.mem_singleton.mp new
        exact .inr idle
    · simp only [Client.holdings, mass, totalAppend, totalMap, total,
        Release.pendingOwns idle, List.count_nil]
      rfl
  | letGo i =>
    have same : (w.letGo i).holdings = w.holdings :=
      congrArg (_ ++ ·) (flatMapModify fun _ => rfl)
    refine ledgerKept ledger ?_
    rw [same]
    exact talliedSame (Env.asideRefl _)

theorem ledgerReached (reached : Reachable outside w) : w.Ledger := by
  refine reachableInduction (fun w fresh => ⟨fun r n => ?_, fun h mem => ?_, fun n q mem => ?_⟩)
    (fun w v before used ledger => ledgerUse before ledger used) reached
  · simp [Env.opened, Env.closed, fresh.journal, holdings, fresh.openings, fresh.clients, mass,
      total]
  · simp [holdings, fresh.openings, fresh.clients] at mem
  · simp [Env.facts, fresh.journal] at mem

end World

end AmqpClient
