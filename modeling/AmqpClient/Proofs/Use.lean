import AmqpClient.Proofs.Journal
import AmqpClient.World.Run
/-! Runs as the holders of clients make them: a call is begun on a client that someone holds and
that has such a call, and a run starts from a world without clients. What is true of a client when
it is made, and is kept by its own steps, by the calls begun on it and by its being let go, is true
of it in every world that can be reached. -/
namespace AmqpClient

def Call.Opens : Role → Call → Prop
  | .consumer _, .start .locking => True
  | .consumer _, .closeConsumer .locking => True
  | .consumer _, _ => False
  | .producer _, .publish p => p.phase = .opening
  | .service .., .publish p => p.phase = .opening ∨ p.phase = .queued Publication.backgroundTimeout
  | _, .close .raising => True
  | _, _ => False

inductive Client.Change {β : Type} [Broker β] (e : Env β) (c : Client) : Env β → Client → Prop where
  | same {f} (grows : e.Grows f) : Client.Change e c f c
  | step {a preferStop g f d} (made : c.step a preferStop e = some (g, d)) (grows : g.Grows f) :
      Client.Change e c f d
  | call {x : Call} (held : c.held = true) (opens : x.Opens c.role) :
      Client.Change e c e { c with calls := c.calls ++ [x] }
  | letGo : Client.Change e c e { c with held := false }

inductive Opening.Change {β : Type} [Broker β] (e : Env β) (o : Opening) :
    Env β → Opening → Prop where
  | same {f} (grows : e.Grows f) : Opening.Change e o f o
  | start : Opening.Change e o e { o with phase := .establishing .start }
  | ended {p} (ended : ∀ x, p ≠ .establishing x) : Opening.Change e o e { o with phase := p }
  | establish {x y f} (here : o.phase = .establishing x)
      (move : Establish.Move o.client o.plan.topology e x f y) :
      Opening.Change e o f { o with phase := .establishing y }

namespace World

variable {β : Type} [Broker β]

inductive Use (outside : β → β → Prop) : World β → World β → Prop where
  | act {w v} (made : Acts w v) : Use outside w v
  | time (w) {t} (later : w.env.now ≤ t) : Use outside w (w.advance t)
  | broker (w) {b} (change : outside w.env.broker b) :
      Use outside w { w with env := w.env.withBroker b }
  | make (w) (client : String) (p : Plan) : Use outside w (w.make client p)
  | call (w) {i c x} (found : w.clients[i]? = some c) (held : c.held = true)
      (opens : Call.Opens c.role x) : Use outside w (w.call i x)
  | letGo (w) (i : Nat) : Use outside w (w.letGo i)

structure Fresh (w : World β) : Prop where
  openings : w.openings = []
  clients : w.clients = []
  journal : w.env.journal = []

def Reachable (outside : β → β → Prop) (w : World β) : Prop :=
  ∃ start, Fresh start ∧ Run (Use outside) start w

variable {outside : β → β → Prop} {w v : World β}

theorem laterUse (used : Use outside w v) : w.env.now ≤ v.env.now := by
  cases used with
  | act made =>
    obtain ⟨a, preferStop, made⟩ := made
    exact Nat.le_of_eq (nowOfStep made).symm
  | time later => exact later
  | broker | make | call | letGo => exact Nat.le_refl _

theorem promptSame (same : v.env.now = w.env.now) : Prompt w v :=
  fun later => absurd (same ▸ later) (Nat.lt_irrefl _)

theorem promptAct (made : Acts w v) : Prompt w v := by
  obtain ⟨a, preferStop, made⟩ := made
  exact promptSame (nowOfStep made)

theorem actsPrompt (run : Run Acts w v) : Run (fun w v => Use outside w v ∧ Prompt w v) w v :=
  run.map fun _ _ made => ⟨.act made, promptAct made⟩

theorem waitsQuiet {t : Instant} (later : w.env.now ≤ t) (quiet : w.Quiet)
    (timers : ∀ s ∈ w.timers, t ≤ s) : Use outside w (w.advance t) ∧ Prompt w (w.advance t) :=
  ⟨.time w later, fun _ => ⟨quiet, fun s mem _ => timers s mem⟩⟩

theorem reachableNext (reached : Reachable outside w) (h : Use outside w v) :
    Reachable outside v := by
  obtain ⟨start, fresh, run⟩ := reached
  exact ⟨start, fresh, run.next h⟩

theorem reachableRun (reached : Reachable outside w) (run : Run (Use outside) w v) :
    Reachable outside v := by
  obtain ⟨start, fresh, before⟩ := reached
  exact ⟨start, fresh, before.trans run⟩

theorem reachableInduction {P : World β → Prop} (fresh : ∀ w, Fresh w → P w)
    (kept : ∀ w v, Reachable outside w → Use outside w v → P w → P v)
    (reached : Reachable outside w) : P w := by
  obtain ⟨start, new, run⟩ := reached
  induction run with
  | refl => exact fresh _ new
  | next run last ih => exact kept _ _ ⟨start, new, run⟩ last ih

inductive OpeningMove (i : Nat) (w : World β) (o : Opening) : World β → Prop where
  | start (here : o.phase = .checking) (good : o.plan.check = .ok ()) :
      OpeningMove i w o (w.setOpening i o (.establishing .start))
  | refuse {x} (here : o.phase = .checking) (bad : o.plan.check = .error x) :
      OpeningMove i w o (w.setOpening i o (.failed x))
  | fail {x} (here : o.phase = .establishing (.failed x)) :
      OpeningMove i w o (w.setOpening i o (.failed x))
  | opened {l c h} (here : o.phase = .establishing (.ready l c h)) :
      OpeningMove i w o { w.setOpening i o (.opened w.clients.length) with
        clients := w.clients ++ [client o l c h] }
  | establish {x y f} (here : o.phase = .establishing x)
      (move : Establish.Move o.client o.plan.topology w.env x f y) :
      OpeningMove i w o { w.setOpening i o (.establishing y) with env := f }

theorem openingMove {i : Nat} (h : w.openingStep i = some v) :
    ∃ o, w.openings[i]? = some o ∧ OpeningMove i w o v := by
  unfold openingStep at h
  split at h
  · contradiction
  rename_i o found
  refine ⟨o, found, ?_⟩
  split at h
  case h_1 here =>
    split at h <;> cases h
    · rename_i good; exact .start here good
    · rename_i bad; exact .refuse here bad
  case h_2 here => cases h; exact .fail here
  case h_3 here => cases h; exact .opened here
  case h_4 here =>
    obtain ⟨⟨f, y⟩, made, same⟩ := Option.map_eq_some_iff.mp h
    cases same
    exact .establish here (Establish.stepMove made)
  all_goals contradiction

theorem openingStepClients {i : Nat} (h : w.openingStep i = some v) :
    w.env.GrowsBy .link v.env ∧ (v.clients = w.clients ∨
      ∃ o l connectionSignal channelSignal,
        v.clients = w.clients ++ [World.client o l connectionSignal channelSignal]) := by
  obtain ⟨o, -, move⟩ := openingMove h
  cases move with
  | start | refuse | fail => exact ⟨Env.growsByRefl _, .inl rfl⟩
  | opened => exact ⟨Env.growsByRefl _, .inr ⟨o, _, _, _, rfl⟩⟩
  | establish _ move => exact ⟨Establish.growsOfMove move, .inl rfl⟩

theorem clientStepSource {i : Nat} {a : Activity} {preferStop : Bool}
    (h : w.clientStep i a preferStop = some v) :
    ∃ c e d, w.clients[i]? = some c ∧ c.step a preferStop w.env = some (e, d) ∧
      v = { w with env := recordEnd i a d e, clients := w.clients.set i d } := by
  unfold clientStep at h
  split at h
  · contradiction
  · rename_i c found
    obtain ⟨⟨e, d⟩, made, same⟩ := Option.map_eq_some_iff.mp h
    exact ⟨c, e, d, found, made, same.symm⟩

theorem clientSteps {i : Nat} {a : Activity} {preferStop : Bool} {c d : Client} {e : Env β}
    (found : w.clients[i]? = some c) (made : c.step a preferStop w.env = some (e, d)) :
    ∃ v, w.step (.client i a) preferStop = some v ∧ v.clients[i]? = some d := by
  refine ⟨{ w with env := recordEnd i a d e, clients := w.clients.set i d }, ?_,
    List.getElem?_set_self (List.getElem?_eq_some_iff.mp found).1⟩
  simp only [step, clientStep, found, made]
  rfl

theorem stillOf (quiet : w.Quiet) {i : Nat} {b : Client} (found : w.clients[i]? = some b)
    (a : Activity) : b.step a false w.env = none := by
  have stuck := quiet (.client i a) false
  unfold step clientStep at stuck
  dsimp only at stuck
  rw [found] at stuck
  exact Option.map_eq_none_iff.mp stuck

theorem quietListed (stuck : ∀ a ∈ w.actors, ∀ preferStop, w.step a preferStop = none) :
    w.Quiet := by
  intro a preferStop
  refine Option.eq_none_iff_forall_ne_some.mpr fun v made => ?_
  suffices listed : a ∈ w.actors by cases (stuck a listed preferStop).symm.trans made
  cases a with
  | opening i =>
    refine List.mem_append_left _ (List.mem_map_of_mem (List.mem_range.mpr ?_))
    refine Nat.lt_of_not_le fun beyond => ?_
    change w.openingStep i = some v at made
    unfold openingStep at made
    rw [List.getElem?_eq_none beyond] at made
    cases made
  | client i a =>
    obtain ⟨c, e, d, found, stepped, -⟩ := clientStepSource made
    refine List.mem_append_right _ (List.mem_flatMap.mpr
      ⟨(c, i), List.mem_zipIdx_iff_getElem?.mpr found, ?_⟩)
    exact List.mem_map_of_mem (Client.activityOf stepped)

theorem quietSeen (seen : (w.actors.all fun a =>
    (w.step a true).isNone && (w.step a false).isNone) = true) : w.Quiet := by
  refine quietListed fun a listed preferStop => ?_
  obtain ⟨first, second⟩ := Bool.and_eq_true_iff.mp (List.all_eq_true.mp seen a listed)
  cases preferStop
  · exact Option.isNone_iff_eq_none.mp second
  · exact Option.isNone_iff_eq_none.mp first

theorem openingStepSource {i : Nat} {d : Client} (h : w.openingStep i = some v) {j : Nat}
    (found : v.clients[j]? = some d) :
    (w.clients[j]? = none ∧ ∃ o l c h, o ∈ w.openings ∧ o.phase = .establishing (.ready l c h) ∧
      v.env = w.env ∧ d = World.client o l c h) ∨ w.clients[j]? = some d := by
  obtain ⟨o, there, move⟩ := openingMove h
  cases move with
  | start | refuse | fail | establish => exact .inr found
  | @opened l c s here =>
    dsimp only at found
    rw [List.getElem?_append] at found
    split at found
    · exact .inr found
    · rename_i beyond
      obtain ⟨_, same⟩ := List.getElem?_eq_some_iff.mp found
      exact .inl ⟨List.getElem?_eq_none (Nat.le_of_not_lt beyond), o, l, c, s,
        List.mem_of_getElem? there, here, rfl, by simpa using same.symm⟩

theorem useClient (h : Use outside w v) {i : Nat} {d : Client} (found : v.clients[i]? = some d) :
    (w.clients[i]? = none ∧ ∃ o l connectionSignal channelSignal, o ∈ w.openings ∧
      o.phase = .establishing (.ready l connectionSignal channelSignal) ∧ v.env = w.env ∧
      d = World.client o l connectionSignal channelSignal) ∨
    ∃ c, w.clients[i]? = some c ∧ c.Change w.env v.env d := by
  have unchanged (grows : w.env.Grows v.env) (same : v.clients = w.clients) :
      ∃ c, w.clients[i]? = some c ∧ c.Change w.env v.env d :=
    ⟨d, same ▸ found, .same grows⟩
  cases h with
  | act made =>
    obtain ⟨a, preferStop, made⟩ := made
    cases a with
    | opening j =>
      have grows := Env.growsOfBy (openingStepClients made).1
      exact (openingStepSource made found).imp_right fun old => ⟨d, old, .same grows⟩
    | client j a =>
      obtain ⟨c, e, d', old, stepped, rfl⟩ := clientStepSource made
      have grows : e.Grows (recordEnd j a d' e) := Env.growsOfBy (growsRecordEnd j a d' e)
      right
      by_cases here : j = i
      · subst here
        have inside : j < w.clients.length := (List.getElem?_eq_some_iff.mp old).1
        simp only [List.getElem?_set_self inside, Option.some.injEq] at found
        exact ⟨c, old, found ▸ .step stepped grows⟩
      · simp only [List.getElem?_set_ne here] at found
        have before : w.env.Grows e := Client.growsOfMove (Client.clientMove stepped)
        exact ⟨d, found, .same (Env.growsTrans before grows)⟩
  | time | broker | make => exact .inr (unchanged (Env.growsRefl _) rfl)
  | @call j c x old held opens =>
    right
    simp only [World.call, List.getElem?_modify] at found
    obtain ⟨b, before, same⟩ := Option.map_eq_some_iff.mp found
    refine ⟨b, before, ?_⟩
    split at same <;> subst same
    · rename_i here
      subst here
      cases Option.some.inj (old.symm.trans before)
      exact .call held opens
    · exact .same (Env.growsRefl _)
  | letGo j =>
    right
    simp only [World.letGo, List.getElem?_modify] at found
    obtain ⟨c, old, same⟩ := Option.map_eq_some_iff.mp found
    refine ⟨c, old, ?_⟩
    split at same <;> subst same
    · exact .letGo
    · exact .same (Env.growsRefl _)

theorem openingStepOpening {i j : Nat} {p : Opening} (h : w.openingStep i = some v)
    (found : v.openings[j]? = some p) : ∃ o, w.openings[j]? = some o ∧ o.Change w.env v.env p := by
  obtain ⟨o, there, move⟩ := openingMove h
  have inside : i < w.openings.length := (List.getElem?_eq_some_iff.mp there).1
  have set {q : OpeningPhase} (openings : v.openings = w.openings.set i { o with phase := q })
      (here : o.Change w.env v.env { o with phase := q }) (grows : w.env.Grows v.env) :
      ∃ o, w.openings[j]? = some o ∧ o.Change w.env v.env p := by
    rw [openings] at found
    by_cases same : i = j
    · subst same
      rw [List.getElem?_set_self inside] at found
      cases found
      exact ⟨o, there, here⟩
    · rw [List.getElem?_set_ne same] at found
      exact ⟨p, found, .same grows⟩
  cases move with
  | start => exact set rfl .start (Env.growsRefl _)
  | refuse | fail | opened => exact set rfl (.ended fun x h => by cases h) (Env.growsRefl _)
  | establish here move =>
    exact set rfl (.establish here move) (Env.growsOfBy (Establish.growsOfMove move))

theorem useOpening (h : Use outside w v) {i : Nat} {p : Opening}
    (found : v.openings[i]? = some p) :
    (∃ client plan, p = { client, plan }) ∨ ∃ o, w.openings[i]? = some o ∧ o.Change w.env v.env p := by
  have unchanged (grows : w.env.Grows v.env) (same : v.openings = w.openings) :
      ∃ o, w.openings[i]? = some o ∧ o.Change w.env v.env p :=
    ⟨p, same ▸ found, .same grows⟩
  cases h with
  | act made =>
    obtain ⟨a, preferStop, made⟩ := made
    cases a with
    | opening j => exact .inr (openingStepOpening made found)
    | client j a =>
      obtain ⟨c, e, d, old, stepped, rfl⟩ := clientStepSource made
      have grows : e.Grows (recordEnd j a d e) := Env.growsOfBy (growsRecordEnd j a d e)
      exact .inr (unchanged
        (Env.growsTrans (Client.growsOfMove (Client.clientMove stepped)) grows) rfl)
  | time | broker | call | letGo => exact .inr (unchanged (Env.growsRefl _) rfl)
  | make client plan =>
    dsimp only [World.make] at found
    rw [List.getElem?_append] at found
    split at found
    · exact .inr ⟨p, found, .same (Env.growsRefl _)⟩
    · obtain ⟨_, same⟩ := List.getElem?_eq_some_iff.mp found
      exact .inl ⟨client, plan, by simpa using same.symm⟩

theorem reachableLinks {X : String → Topology → Env β → Establish → Prop}
    (start : ∀ client t e, X client t e .start)
    (grows : ∀ client t e f x, e.Grows f → X client t e x → X client t f x)
    (moves : ∀ client t e f x y, Establish.Move client t e x f y → X client t e x → X client t f y)
    (reached : Reachable outside w) {o : Opening} {x : Establish} (mem : o ∈ w.openings)
    (here : o.phase = .establishing x) : X o.client o.plan.topology w.env x := by
  obtain ⟨i, found⟩ := List.getElem?_of_mem mem
  refine reachableInduction (P := fun w => ∀ i o x, w.openings[i]? = some o →
    o.phase = .establishing x → X o.client o.plan.topology w.env x) ?_ ?_ reached i o x found here
  · intro w new i o x found
    simp [new.openings] at found
  · intro w v _ used ih i p y found here
    rcases useOpening used found with ⟨client, plan, rfl⟩ | ⟨o, before, change⟩
    · cases here
    · have old (x : Establish) (phase : o.phase = .establishing x) := ih i o x before phase
      generalize v.env = f at change ⊢
      cases change with
      | same more => exact grows _ _ _ _ _ more (old y here)
      | start => cases here; exact start _ _ _
      | ended ended => exact absurd here (ended y)
      | establish phase move => cases here; exact moves _ _ _ _ _ _ move (old _ phase)

theorem reachableClient {P : Env β → Client → Prop}
    (born : ∀ e o l connectionSignal channelSignal,
      P e (World.client o l connectionSignal channelSignal))
    (kept : ∀ e c f d, Client.Change e c f d → P e c → P f d)
    (reached : Reachable outside w) {i : Nat} {c : Client} (found : w.clients[i]? = some c) :
    P w.env c := by
  refine reachableInduction (P := fun w => ∀ i c, w.clients[i]? = some c → P w.env c) ?_ ?_
    reached i c found
  · intro w new i c found
    simp [new.clients] at found
  · intro w v _ used ih i d found
    rcases useClient used found with ⟨-, o, l, s, t, -, -, -, rfl⟩ | ⟨c, before, change⟩
    · exact born v.env o l s t
    · exact kept w.env c v.env d change (ih i c before)

theorem reachableTimed {P : Instant → Client → Prop}
    (born : ∀ now o l connectionSignal channelSignal,
      P now (World.client o l connectionSignal channelSignal))
    (later : ∀ now t c, P now c → now ≤ t → P t c)
    (kept : ∀ (e f : Env β) c d, Client.Change e c f d → P e.now c → P e.now d)
    (reached : Reachable outside w) {i : Nat} {c : Client} (found : w.clients[i]? = some c) :
    P w.env.now c := by
  refine reachableInduction (P := fun w => ∀ i c, w.clients[i]? = some c → P w.env.now c) ?_ ?_
    reached i c found
  · intro w new i c found
    simp [new.clients] at found
  · intro w v _ used ih i d found
    rcases useClient used found with ⟨-, o, l, s, t, -, -, -, rfl⟩ | ⟨c, before, change⟩
    · exact born v.env.now o l s t
    · exact later w.env.now v.env.now d (kept w.env v.env c d change (ih i c before)) (laterUse used)

theorem reachableSettled (reached : Reachable outside w) : Reachable outside w.settle :=
  reachableRun reached ((settleActs w).map fun _ _ made => .act made)

theorem reachableDriven (reached : Reachable outside w) (a : Actor) (fuel : Nat) :
    Reachable outside (drive a fuel false w).2 :=
  reachableRun reached ((driveActs a fuel false w).map fun _ _ made => .act made)

theorem reachableMade (fresh : Fresh w) (client : String) (p : Plan) :
    Reachable outside (w.make client p).settle :=
  reachableSettled (reachableNext ⟨w, fresh, .refl w⟩ (.make w client p))

theorem reachableTime (reached : Reachable outside w) {t : Instant} (later : w.env.now ≤ t) :
    Reachable outside (w.advance t) :=
  reachableNext reached (.time w later)

theorem reachableBroker (reached : Reachable outside w) {b : β}
    (change : outside w.env.broker b) :
    Reachable outside { w with env := w.env.withBroker b } :=
  reachableNext reached (.broker w change)

theorem useCall {i : Nat} {x : Call}
    (seen : (w.clients[i]?.any fun c => c.held && c.consumer?.isSome) = true)
    (opens : ∀ k, x.Opens (.consumer k)) : Use outside w (w.call i x) := by
  obtain ⟨c, found, seen⟩ := (Option.any_eq_true _ _).mp seen
  obtain ⟨held, consumer⟩ := Bool.and_eq_true_iff.mp seen
  refine .call w found held ?_
  unfold Client.consumer? at consumer
  split at consumer
  · rename_i k role; rw [role]; exact opens k
  · cases consumer

theorem reachableCall (reached : Reachable outside w) {i : Nat} {x : Call}
    (seen : (w.clients[i]?.any fun c => c.held && c.consumer?.isSome) = true)
    (opens : ∀ k, x.Opens (.consumer k)) : Reachable outside (w.call i x) :=
  reachableNext reached (useCall seen opens)

omit [Broker β] in
theorem consumerSeen {i : Nat} {p : Consumer → Bool}
    (seen : ((w.clients[i]?.bind Client.consumer?).any p) = true) :
    ∃ c k, w.clients[i]? = some c ∧ c.role = .consumer k ∧ p k = true := by
  obtain ⟨k, found, holds⟩ := (Option.any_eq_true _ _).mp seen
  obtain ⟨c, found, consumer⟩ := Option.bind_eq_some_iff.mp found
  unfold Client.consumer? at consumer
  split at consumer
  · rename_i l role; cases consumer; exact ⟨c, k, found, role, holds⟩
  · cases consumer

end World

end AmqpClient
