import AmqpClient.Proofs.Course
/-! What a session, the task that recovers it and the watchers of its resources agree on. The pair
of resources is there exactly while the session is connected, the task has no lost link to replace
while it is, and a generation is left only after one of its watchers reported. -/
namespace AmqpClient

def Recovery.replacing : Recovery → Bool
  | .releasing _ => true
  | .pausing _ => true
  | .establishing _ => true
  | .abandoning _ => true
  | _ => false

def Recovery.telling : Recovery → Bool
  | .arming .. => true
  | .announcing _ => true
  | _ => false

def Recovery.running (r : Recovery) : Bool := r.replacing || r.telling

def Recovery.tells? : Recovery → Option Nat
  | .arming g _ _ => some g
  | .announcing g => some g
  | _ => none

inductive Session.Change (s : Session) : Session → Prop where
  | same : Change s s
  | lost (connected : s.state = .connected) : Change s (s.vacate .reconnecting)
  | renewed {l} (reconnecting : s.state = .reconnecting) : Change s (s.renew l)
  | closed : Change s (s.vacate .closed)

theorem reconnectingOf {state : SessionState} (lost : state ≠ .connected)
    (opened : state ≠ .closed) : state = .reconnecting := by
  cases state with
  | connected => exact absurd rfl lost
  | reconnecting => rfl
  | closed => exact absurd rfl opened

namespace Session

variable {s t : Session}

theorem closedChange (change : Change s t) (closed : s.state = .closed) : t.state = .closed := by
  cases change with
  | same => exact closed
  | lost state | renewed state => rw [closed] at state; cases state
  | closed => rfl

def reconnects (s t : Session) : Bool := s.state != .connected && t.state == .connected

theorem generationChange (change : Change s t) :
    t.generation = s.generation + (reconnects s t).toNat := by
  unfold reconnects
  cases change with
  | same => cases s.state <;> rfl
  | lost | closed => rw [Bool.and_comm]; rfl
  | renewed state => rw [state]; rfl

end Session

namespace Supervisor

def Reported (s : Supervisor) (g : Nat) : Prop :=
  ∃ w ∈ s.watchers, w.generation = g ∧ w.phase = .reported

structure Coherent (s : Supervisor) : Prop where
  connection : s.session.connection.isSome = (s.session.state == .connected)
  channel : s.session.channel.isSome = (s.session.state == .connected)
  replacing : s.recovery.replacing = true → s.session.state ≠ .connected
  announced : s.announced + s.recovery.telling.toNat = s.session.generation
  told : ∀ g, s.recovery.tells? = some g → g = s.session.generation
  left : ∀ g < s.session.generation, s.Reported g
  leaving : s.session.state = .reconnecting → s.Reported s.session.generation
  events : ∀ x ∈ s.events, s.Reported x.generation

variable {s t : Supervisor}

theorem reportedMore (watchers : ∀ w ∈ s.watchers, w.phase = .reported → w ∈ t.watchers) {g : Nat}
    (reported : s.Reported g) : t.Reported g := by
  obtain ⟨w, mem, generation, phase⟩ := reported
  exact ⟨w, watchers w mem phase, generation, phase⟩

theorem reportedSet {i : Nat} {w : Watcher} {p : WatcherPhase} (found : s.watchers[i]? = some w)
    (here : w.phase = .watching) {g : Nat} (reported : s.Reported g) :
    (s.setWatcher i w p).Reported g := by
  obtain ⟨x, mem, generation, phase⟩ := reported
  obtain ⟨j, there⟩ := List.getElem?_of_mem mem
  refine ⟨x, ?_, generation, phase⟩
  have other : i ≠ j := by
    rintro rfl
    rw [found] at there
    cases there
    rw [here] at phase
    cases phase
  exact List.mem_of_getElem? (i := j) (by
    simp only [setWatcher]
    rw [List.getElem?_set_ne other]
    exact there)

theorem coherentStart (client : String) (t : Topology) (delay : Duration) (l : Link)
    (c h : SignalId) : (start client t delay l c h).Coherent :=
  ⟨rfl, rfl, nofun, rfl, nofun, nofun, nofun, nofun⟩

theorem coherentKept (coherent : s.Coherent) (session : t.session = s.session)
    (announced : t.announced = s.announced) (reported : ∀ g, s.Reported g → t.Reported g)
    (events : ∀ x ∈ t.events, x ∈ s.events ∨ t.Reported x.generation)
    (replacing : t.recovery.replacing = true → s.recovery.replacing = true)
    (telling : t.recovery.telling = s.recovery.telling)
    (told : ∀ g, t.recovery.tells? = some g → s.recovery.tells? = some g) : t.Coherent := by
  refine ⟨?_, ?_, ?_, ?_, ?_, ?_, ?_, ?_⟩
  · rw [session]; exact coherent.connection
  · rw [session]; exact coherent.channel
  · rw [session]; exact fun h => coherent.replacing (replacing h)
  · rw [session, announced, telling]; exact coherent.announced
  · rw [session]; exact fun g h => coherent.told g (told g h)
  · rw [session]; exact fun g below => reported g (coherent.left g below)
  · rw [session]; exact fun h => reported _ (coherent.leaving h)
  · exact fun x mem => (events x mem).elim (fun old => reported _ (coherent.events x old)) id

theorem coherentHandle {x : CloseEvent} {rest : List CloseEvent} (coherent : s.Coherent)
    (here : s.recovery = .listening) (next : s.events = x :: rest) :
    ({ s with events := rest }.handle x).Coherent := by
  have old : ∀ y ∈ rest, y ∈ s.events := fun y mem => next ▸ List.mem_cons_of_mem x mem
  unfold handle
  split
  · rename_i current
    have silent := coherent.announced
    rw [here] at silent
    have reported : s.Reported x.generation := coherent.events x (next ▸ List.mem_cons_self)
    refine ⟨rfl, rfl, nofun, silent, nofun, coherent.left, fun _ => ?_,
      fun y mem => coherent.events y (old y mem)⟩
    rw [← current.1] at reported
    exact reported
  · exact coherentKept coherent rfl rfl (fun _ => id) (fun y mem => .inl (old y mem)) id rfl
      fun _ => id

theorem coherentAdopt {l : Link} {c h : SignalId} (coherent : s.Coherent)
    (here : s.recovery = .establishing (.ready l c h)) : (s.adopt l c h).Coherent := by
  have lost := coherent.replacing (by rw [here]; rfl)
  have silent := coherent.announced
  rw [here] at silent
  unfold adopt
  split
  · exact coherentKept coherent rfl rfl (fun _ => id) (fun _ => .inl) (fun _ => by rw [here]; rfl)
      (by rw [here]; rfl) nofun
  · rename_i opened
    have reconnecting := reconnectingOf lost opened
    refine ⟨rfl, rfl, nofun, congrArg (· + 1) silent, fun g h => by cases h; rfl, fun g below => ?_,
      nofun, coherent.events⟩
    rcases Nat.lt_succ_iff_lt_or_eq.mp below with older | same
    · exact coherent.left g older
    · exact same ▸ coherent.leaving reconnecting

variable {β : Type} [Broker β] {e f : Env β}

theorem coherentRecovery {alive : Bool} (coherent : s.Coherent)
    (move : RecoveryMove alive e s f t) : t.Coherent := by
  have aside {events : List CloseEvent} {r : Recovery} (fewer : ∀ x ∈ events, x ∈ s.events)
      (replacing : r.replacing = true → s.recovery.replacing = true)
      (telling : r.telling = s.recovery.telling) (told : r.tells? = none) :
      Coherent { s with events := events, recovery := r } :=
    coherentKept coherent rfl rfl (fun _ => id) (fun x mem => .inl (fewer x mem)) replacing telling
      fun g h => by rw [told] at h; cases h
  cases move with
  | quit here | giveUp here | abandoned here =>
    exact aside (fun _ => id) nofun (by rw [here]; rfl) rfl
  | leave here next =>
    exact aside (fun _ mem => next ▸ List.mem_cons_of_mem _ mem) nofun (by rw [here]; rfl) rfl
  | handle here next => exact coherentHandle coherent here next
  | adopt here => exact coherentAdopt coherent here
  | release here | released here | dial here | failed here | establish here | abandon here =>
    exact aside (fun _ => id) (fun _ => by rw [here]; rfl) (by rw [here]; rfl) rfl
  | arm here =>
    exact coherentKept coherent rfl rfl
      (fun _ => reportedMore fun w mem _ => List.mem_append_left _ mem) (fun _ => .inl) nofun
      (by rw [here]; rfl) fun k told => by rw [here]; exact told
  | @announce g here =>
    have same : g = s.session.generation := coherent.told g (by rw [here]; rfl)
    exact ⟨coherent.connection, coherent.channel, nofun, same, nofun, coherent.left,
      coherent.leaving, coherent.events⟩

theorem coherentWatcher {i : Nat} (coherent : s.Coherent) (move : WatcherMove i e s t) :
    t.Coherent := by
  cases move with
  | @report w found here =>
    refine coherentKept coherent rfl rfl (fun _ => reportedSet found here) (fun x mem => ?_) id rfl
      fun _ => id
    rcases List.mem_append.mp mem with old | new
    · exact .inl old
    · cases List.mem_singleton.mp new
      have inside : i < s.watchers.length := (List.getElem?_eq_some_iff.mp found).1
      exact .inr ⟨_, List.mem_of_getElem? (List.getElem?_set_self inside), rfl, rfl⟩
  | quit found here =>
    exact coherentKept coherent rfl rfl (fun _ => reportedSet found here) (fun _ => .inl) id rfl
      fun _ => id

theorem coherentClosing {x y : Closing} (coherent : s.Coherent)
    (move : ClosingMove e s x f t y) : t.Coherent := by
  cases move with
  | raise => exact coherentKept coherent rfl rfl (fun _ => id) (fun _ => .inl) id rfl fun _ => id
  | take =>
    exact ⟨rfl, rfl, nofun, coherent.announced, coherent.told, coherent.left, nofun,
      coherent.events⟩
  | release | released => exact coherent

theorem coherentChange (coherent : s.Coherent) (change : Change e s f t) : t.Coherent := by
  cases change with
  | same => exact coherent
  | recovery move => exact coherentRecovery coherent move
  | watcher move => exact coherentWatcher coherent move
  | closing move => exact coherentClosing coherent move

theorem sessionChange (coherent : s.Coherent) (change : Change e s f t) :
    Session.Change s.session t.session := by
  cases change with
  | same => exact .same
  | watcher move => rw [sessionOfWatcher move]; exact .same
  | closing move =>
    cases move with
    | take => exact .closed
    | raise | release | released => exact .same
  | recovery move =>
    cases move with
    | handle =>
      unfold handle
      split
      · rename_i current; exact .lost current.2
      · exact .same
    | adopt here =>
      unfold adopt
      split
      · exact .same
      · rename_i opened
        exact .renewed (reconnectingOf (coherent.replacing (by rw [here]; rfl)) opened)
    | _ => exact .same

theorem generationChange (coherent : s.Coherent) (change : Change e s f t) :
    s.session.generation ≤ t.session.generation := by
  rw [Session.generationChange (sessionChange coherent change)]
  exact Nat.le_add_right _ _

theorem announcedChange (coherent : s.Coherent) (change : Change e s f t) :
    s.announced ≤ t.announced := by
  cases change with
  | same => exact Nat.le_refl _
  | watcher move => cases move <;> exact Nat.le_refl _
  | closing move => cases move <;> exact Nat.le_refl _
  | recovery move =>
    cases move with
    | handle => unfold handle; split <;> exact Nat.le_refl _
    | adopt => unfold adopt; split <;> exact Nat.le_refl _
    | @announce g here =>
      have same : g = s.session.generation := coherent.told g (by rw [here]; rfl)
      have announced := coherent.announced
      change s.announced ≤ g
      omega
    | _ => exact Nat.le_refl _

def reconnects (s t : Supervisor) : Bool := s.session.reconnects t.session

theorem coherentReachable {outside : β → β → Prop} {w : World β}
    (reached : World.Reachable outside w) {i : Nat} {c : Client} (found : w.clients[i]? = some c) :
    c.supervisor.Coherent :=
  World.reachableClient (P := fun _ c => c.supervisor.Coherent)
    (fun _ _ l c h => coherentStart _ _ _ l c h)
    (fun _ _ _ _ change coherent => coherentChange coherent (changeOf change)) reached found

end Supervisor

end AmqpClient
