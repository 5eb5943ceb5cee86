import AmqpClient.Proofs.Ownership
/-! What guards a link against being lost unnoticed. While a link is set up, the time between its
last declaration and the two watches is not guarded; from the watches on, the closing of either
resource fires a signal that someone waits for. -/
namespace AmqpClient

open Broker (Memory Store)

def Establish.Safe (s : Store) : Establish → Prop
  | .installing l rest => l.connection = l.channel ∧ (∀ r, s.Bare r (l.id r)) ∧
      (s.openAt .channel l.channel → s.openAt .connection l.connection) ∧
      (rest = [] → s.openAt .channel l.channel)
  | .watchingConnection l => l.connection = l.channel ∧ (∀ r, s.Bare r (l.id r)) ∧
      s.openAt .connection l.connection ∧ s.openAt .channel l.channel
  | .watchingChannel l c => l.connection = l.channel ∧ s.Bare .channel l.channel ∧
      (s.fired c ∨ (s.Armed .connection l.connection c ∧ s.openAt .channel l.channel))
  | .ready l c h => l.connection = l.channel ∧ s.Watched l.connection c h
  | _ => True

def Establish.Unwatched (s : Store) (r : Resource) (n : Nat) : Establish → Prop
  | .installing l [] => l.id r = n
  | .watchingConnection l => l.id r = n
  | .watchingChannel l c => r = .channel ∧ l.channel = n ∧ ¬ s.fired c
  | _ => False

theorem Broker.Memory.keepsLose (r : Resource) (n : Nat) (reason : String) (m : Memory) :
    Store.Keeps (fun _ k => k = n) m.store (m.lose r n reason).store := by
  have only (q : Resource) : ∀ p k, Store.Only q n p k → k = n := fun p k h => h.2
  cases r with
  | channel => exact keepsMore (only .channel) (Store.keepsShutChannel n (.report reason) m.store)
  | connection =>
    have first := keepsMore (only .channel) (Store.keepsShutChannel n .silent m.store)
    have second := keepsMore (only .connection)
      (Store.keepsShutConnection n (.report reason) (m.store.shutChannel n .silent))
    refine ⟨fun p k inside untouched => ?_, Nat.le_trans first.signals second.signals,
      fun i fired => second.fired i (first.fired i fired)⟩
    have size := Store.sizeShutChannel n .silent m.store p
    exact (second.ends p k (by rw [size]; exact inside) untouched).trans
      (first.ends p k inside untouched)

theorem Broker.Memory.sizeLose (r : Resource) (n : Nat) (reason : String) (m : Memory) :
    Store.SameSize m.store (m.lose r n reason).store := by
  cases r with
  | channel => exact Store.sizeShutChannel n _ m.store
  | connection =>
    intro p
    exact (Store.sizeShutConnection n _ _ p).trans (Store.sizeShutChannel n _ m.store p)

theorem Broker.Memory.closedLose (r : Resource) (n : Nat) (reason : String) (m : Memory) :
    ¬ (m.lose r n reason).store.openAt .channel n := by
  cases r with
  | channel => exact Store.closedShutChannel n _ m.store
  | connection =>
    intro still
    have inside := Store.insideOfOpen still
    have size := Store.sizeShutConnection n (.report reason) (m.store.shutChannel n .silent) .channel
    have kept := Store.keptOpen (r := .channel) (n := n)
      (Store.keepsShutConnection n (.report reason) (m.store.shutChannel n .silent))
      (size ▸ inside) (fun h => by cases h.1)
    exact Store.closedShutChannel n .silent m.store (kept.mp still)

theorem Broker.Memory.firedLoseConnection {n : Nat} {c : SignalId} {reason : String} {m : Memory}
    (armed : m.store.Armed .connection n c) : (m.lose .connection n reason).store.fired c := by
  have kept := Store.keptArmed (Store.keepsShutChannel n .silent m.store) (r := .connection) (n := n)
    (fun h => by cases h.1) armed
  exact Store.firedShutConnection kept

theorem Broker.Memory.watchedLose {k n : Nat} {c h : SignalId} {r : Resource} {reason : String}
    {m : Memory} (watched : m.store.Watched k c h) : (m.lose r n reason).store.Watched k c h := by
  have keeps := keepsLose r n reason m
  rcases watched with old | old | ⟨connection, channel⟩
  · exact .inl (keeps.fired c old)
  · exact .inr (.inl (keeps.fired h old))
  · by_cases same : k = n
    · subst same
      cases r with
      | connection => exact .inl (firedLoseConnection connection)
      | channel => exact .inr (.inl (Store.firedShutChannel channel))
    · exact Store.keptWatched keeps (fun _ => same) (.inr (.inr ⟨connection, channel⟩))

namespace Establish

variable {e f : Env Memory} {s t : Store} {x y : Establish}

theorem safeKept {touched : Resource → Nat → Prop} (keeps : Store.Keeps touched s t)
    (inside : ∀ r n, n ∈ x.owns r → n < (s.ends r).length)
    (untouched : ∀ r n, n ∈ x.owns r → ¬ touched r n) (safe : x.Safe s) : x.Safe t := by
  have kept {l : Link} (mine : ∀ r, x.owns r = [l.id r]) (r : Resource) :
      t.openAt r (l.id r) ↔ s.openAt r (l.id r) :=
    Store.keptOpen keeps (inside r _ (by rw [mine]; exact List.mem_singleton_self _))
      (untouched r _ (by rw [mine]; exact List.mem_singleton_self _))
  have free {l : Link} (mine : ∀ r, x.owns r = [l.id r]) (r : Resource) : ¬ touched r (l.id r) :=
    untouched r _ (by rw [mine]; exact List.mem_singleton_self _)
  cases x with
  | installing l rest =>
    obtain ⟨pair, bare, both, last⟩ := safe
    have kept := kept (l := l) fun _ => rfl
    have free := free (l := l) fun _ => rfl
    exact ⟨pair, fun r => Store.keptBare keeps (free r) (bare r),
      fun h => (kept .connection).mpr (both ((kept .channel).mp h)),
      fun done => (kept .channel).mpr (last done)⟩
  | watchingConnection l =>
    obtain ⟨pair, bare, connection, channel⟩ := safe
    have kept := kept (l := l) fun _ => rfl
    have free := free (l := l) fun _ => rfl
    exact ⟨pair, fun r => Store.keptBare keeps (free r) (bare r), (kept .connection).mpr connection,
      (kept .channel).mpr channel⟩
  | watchingChannel l c =>
    obtain ⟨pair, bare, safe⟩ := safe
    have kept := kept (l := l) fun _ => rfl
    have free := free (l := l) fun _ => rfl
    refine ⟨pair, Store.keptBare keeps (free .channel) bare,
      safe.imp (keeps.fired c) fun ⟨armed, channel⟩ => ?_⟩
    exact ⟨Store.keptArmed keeps (free .connection) armed, (kept .channel).mpr channel⟩
  | ready l c h =>
    obtain ⟨pair, watched⟩ := safe
    have free := free (l := l) fun _ => rfl
    refine ⟨pair, Store.keptWatched keeps (fun r => ?_) watched⟩
    cases r with
    | connection => exact free .connection
    | channel => rw [pair]; exact free .channel
  | _ => trivial

theorem openOfDeclared {c : ChannelId} {d : Declaration} {m : Memory}
    (answer : (m.declare c d).2 = .ok ()) : m.store.openAt .channel c := by
  have accepted {name : String} (answer : m.accepts c name = .ok ()) : m.store.openAt .channel c := by
    unfold Memory.accepts at answer
    split at answer
    · cases answer
    · rename_i opened
      have opened : m.store.channelOpen c = true := by
        cases shut : m.store.channelOpen c with
        | true => rfl
        | false => exact absurd (by rw [shut]; rfl) opened
      exact opened
  cases d with
  | exchange x => exact accepted answer
  | queue q =>
    have answer : (m.accepts c q.name).mapError (fun _ => Error.declareQueue q.name) = .ok () := answer
    cases reply : m.accepts c q.name with
    | ok u => exact accepted reply
    | error x => rw [reply] at answer; cases answer
  | bind b =>
    unfold Memory.declare at answer
    dsimp only at answer
    split at answer
    · rename_i reply; exact accepted reply
    · cases answer

theorem safeMove {client : String} {t : Topology} (move : Move client t e x f y)
    (level : e.size .connection = e.size .channel) (safe : x.Safe e.broker.store) :
    y.Safe f.broker.store := by
  cases move with
  | @dialed number ends _ l due answer =>
    have dialed : e.broker.dial.2 = .ok l := congrArg Prod.snd answer
    have store : f.broker = e.broker.dial.1 := (congrArg (fun p => p.1.broker) answer).symm
    unfold Memory.dial at dialed store
    dsimp only at dialed store
    split at dialed
    · cases dialed
    · rename_i accepted
      rw [if_neg accepted] at store
      cases dialed
      have fresh (r : Resource) : f.broker.store.openAt r (e.size r) := by
        rw [store]
        exact Store.openLinkOpen r e.broker.store
      have bare (r : Resource) : f.broker.store.Bare r (e.size r) := by
        rw [store]
        exact Store.openLinkBare r e.broker.store
      refine ⟨level, fun r => ?_, fun _ => fresh .connection, fun _ => fresh .channel⟩
      cases r
      · exact bare .connection
      · exact bare .channel
  | @installed l =>
    obtain ⟨pair, bare, both, last⟩ := safe
    exact ⟨pair, bare, both (last rfl), last rfl⟩
  | @declared l d rest _ answer =>
    have accepted := openOfDeclared (congrArg Prod.snd answer)
    have same : Store.SameLinks e.broker.store f.broker.store := by
      rw [(congrArg (fun p => p.1.broker) answer).symm]
      exact sameDeclare l.channel d e.broker
    have kept (r : Resource) (n : Nat) : f.broker.store.openAt r n ↔ e.broker.store.openAt r n := by
      unfold Store.openAt; rw [Store.sameEnds same]
    obtain ⟨pair, bare, both, -⟩ := safe
    have bare (r : Resource) : f.broker.store.Bare r (l.id r) :=
      Store.keptBare (Store.keepsSame same) (fun h => h) (bare r)
    exact ⟨pair, bare, fun h => (kept _ _).mpr (both ((kept _ _).mp h)),
      fun _ => (kept _ _).mpr accepted⟩
  | @watchConnection l =>
    obtain ⟨pair, bare, connection, channel⟩ := safe
    have keeps := Store.keepsWatchConnection l.connection e.broker.store
    have kept := Store.keptOpen keeps (Store.insideOfOpen channel) fun h => by cases h.1
    exact ⟨pair, Store.keptBare keeps (fun h => by cases h.1) (bare .channel),
      .inr ⟨Store.armedWatchConnection connection, kept.mpr channel⟩⟩
  | @watchChannel l c =>
    obtain ⟨pair, -, safe⟩ := safe
    have keeps := Store.keepsWatchChannel l.channel e.broker.store
    refine ⟨pair, ?_⟩
    rcases safe with fired | ⟨armed, channel⟩
    · exact .inl (keeps.fired c fired)
    · refine .inr (.inr ⟨Store.keptArmed keeps (fun h => by cases h.1) armed, ?_⟩)
      rw [pair]
      exact Store.armedWatchChannel channel
  | _ => trivial

theorem safeLose {r : Resource} {n : Nat} {reason : String} {m : Memory}
    (watched : ¬ x.Unwatched m.store r n)
    (inside : ∀ r n, n ∈ x.owns r → n < (m.store.ends r).length) (safe : x.Safe m.store) :
    x.Safe (m.lose r n reason).store := by
  have keeps := Memory.keepsLose r n reason m
  have elsewhere (l : Link) (mine : ∀ r, x.owns r = [l.id r]) (pair : l.connection = l.channel)
      (other : l.connection ≠ n) : x.Safe (m.lose r n reason).store := by
    refine safeKept keeps inside (fun q k mem => ?_) safe
    rw [mine, List.mem_singleton] at mem
    subst mem
    cases q with
    | connection => exact other
    | channel => exact fun h => other (pair.trans h)
  cases x with
  | installing l rest =>
    by_cases here : l.connection = n
    · obtain ⟨pair, bare, both, last⟩ := safe
      cases rest with
      | nil =>
        refine absurd ?_ watched
        cases r with
        | connection => exact here
        | channel => exact pair.symm.trans here
      | cons d rest =>
        have closed : ¬ (m.lose r n reason).store.openAt .channel l.channel := by
          rw [← pair, here]
          exact Memory.closedLose r n reason m
        exact ⟨pair, fun r => Memory.bareLose (bare r), fun h => absurd h closed,
          fun h => by cases h⟩
    · exact elsewhere l (fun _ => rfl) safe.1 here
  | watchingConnection l =>
    by_cases here : l.connection = n
    · refine absurd ?_ watched
      cases r with
      | connection => exact here
      | channel => exact safe.1.symm.trans here
    · exact elsewhere l (fun _ => rfl) safe.1 here
  | watchingChannel l c =>
    by_cases here : l.connection = n
    · obtain ⟨pair, bare, safe⟩ := safe
      refine ⟨pair, Memory.bareLose bare, .inl ?_⟩
      rcases safe with fired | ⟨armed, channel⟩
      · exact keeps.fired c fired
      · cases r with
        | connection => rw [here] at armed; exact Memory.firedLoseConnection armed
        | channel =>
          by_cases fired : m.store.fired c
          · exact keeps.fired c fired
          · exact absurd ⟨rfl, pair.symm.trans here, fired⟩ watched
    · exact elsewhere l (fun _ => rfl) safe.1 here
  | ready l c h => exact ⟨safe.1, Memory.watchedLose safe.2⟩
  | _ => trivial

end Establish

def Recovery.attends : Recovery → Prop
  | .listening => True
  | .arming .. => True
  | .announcing _ => True
  | _ => False

namespace Supervisor

def Alerts (i : SignalId) (v : Supervisor) : Prop :=
  (∃ w ∈ v.watchers, w.generation = v.session.generation ∧ w.signal = i ∧ w.phase = .watching) ∨
    ∃ x ∈ v.events, x.generation = v.session.generation

structure Guarded (s : Store) (alive : Bool) (v : Supervisor) : Prop where
  attends : v.session.state = .connected → v.recovery.attends ∨ v.recovery = .ended
  ended : v.recovery = .ended → v.stopped = true ∨ alive = false
  establishing : ∀ x, v.recovery = .establishing x → v.stopped = false → alive = true → x.Safe s
  events : ∀ x ∈ v.events, x.generation ≤ v.session.generation
  watchers : ∀ w ∈ v.watchers, w.generation ≤ v.session.generation
  arming : ∀ g c h, v.recovery = .arming g c h → g ≤ v.session.generation
  watched : v.session.state = .connected → v.stopped = false → alive = true →
    ∃ n c h, v.session.connection = some n ∧ v.session.channel = some n ∧ s.Watched n c h ∧
      (v.recovery = .arming v.session.generation c h ∨ (v.Alerts c ∧ v.Alerts h))

variable {e f : Env Memory} {s t : Store} {u v : Supervisor} {alive later : Bool}

theorem guardedKept {touched : Resource → Nat → Prop} (keeps : Store.Keeps touched s t)
    (inside : ∀ r n, n ∈ v.owns r → n < (s.ends r).length)
    (untouched : ∀ r n, n ∈ v.owns r → ¬ touched r n) (before : later = true → alive = true)
    (guarded : v.Guarded s alive) : v.Guarded t later where
  attends := guarded.attends
  ended here := by
    refine (guarded.ended here).imp_right fun dead => ?_
    cases later with
    | false => rfl
    | true => rw [before rfl] at dead; cases dead
  establishing x here running asked := by
    have mine (r : Resource) (n : Nat) (mem : n ∈ x.owns r) : n ∈ v.owns r := by
      refine List.mem_append_right _ ?_
      rw [here]
      exact mem
    exact Establish.safeKept keeps (fun r n mem => inside r n (mine r n mem))
      (fun r n mem => untouched r n (mine r n mem))
      (guarded.establishing x here running (before asked))
  events := guarded.events
  watchers := guarded.watchers
  arming := guarded.arming
  watched connected running asked := by
    obtain ⟨n, c, h, connection, channel, watched, rest⟩ :=
      guarded.watched connected running (before asked)
    refine ⟨n, c, h, connection, channel, Store.keptWatched keeps (fun r => ?_) watched, rest⟩
    refine untouched r n (List.mem_append_left _ ?_)
    cases r with
    | connection =>
      simp only [Session.owns, Session.held, Release.owns, connection, Option.toList_some,
        List.mem_singleton]
    | channel =>
      simp only [Session.owns, Session.held, Release.owns, channel, Option.toList_some,
        List.mem_singleton]

theorem guardedBorn {client : String} {plan : Topology} {delay : Duration} {l : Link}
    {c h : SignalId} (safe : Establish.Safe s (.ready l c h)) :
    (start client plan delay l c h).Guarded s alive := by
  obtain ⟨pair, watched⟩ := safe
  refine ⟨fun _ => .inl trivial, (fun here => by cases here), (fun x here => by cases here),
    (fun x mem => by cases mem), ?_, (fun g c h here => by cases here), fun _ _ _ => ?_⟩
  · intro w mem
    rcases List.mem_cons.mp mem with rfl | mem
    · exact Nat.le_refl _
    · cases List.mem_singleton.mp mem
      exact Nat.le_refl _
  · refine ⟨l.connection, c, h, rfl, by rw [pair]; rfl, watched, .inr ⟨.inl ?_, .inl ?_⟩⟩
    · exact ⟨_, List.mem_cons_self, rfl, rfl, rfl⟩
    · exact ⟨_, List.mem_cons_of_mem _ (List.mem_singleton_self _), rfl, rfl, rfl⟩

theorem guardedWatcher {i : Nat} (move : WatcherMove i e u v)
    (guarded : u.Guarded s alive) : v.Guarded s alive := by
  have marked {w : Watcher} {p : WatcherPhase} (found : u.watchers[i]? = some w) :
      ∀ x ∈ u.watchers.set i { w with phase := p }, x.generation ≤ u.session.generation := by
    intro x mem
    rcases List.mem_or_eq_of_mem_set mem with old | rfl
    · exact guarded.watchers x old
    · exact guarded.watchers w (List.mem_of_getElem? found)
  cases move with
  | @report w found here fired =>
    refine ⟨guarded.attends, guarded.ended, guarded.establishing, ?_, marked found,
      guarded.arming, fun connected running asked => ?_⟩
    · intro x mem
      rcases List.mem_append.mp mem with old | new
      · exact guarded.events x old
      · cases List.mem_singleton.mp new
        exact guarded.watchers w (List.mem_of_getElem? found)
    · obtain ⟨n, c, h, connection, channel, watched, rest⟩ :=
        guarded.watched connected running asked
      refine ⟨n, c, h, connection, channel, watched, rest.imp_right ?_⟩
      -- the watcher that reports leaves its report in its place
      have reported {j : SignalId} (alerts : u.Alerts j) : Alerts j { u.setWatcher i w .reported with
          events := u.events ++
            [⟨w.generation, w.resource, reason (Broker.signal e.broker w.signal)⟩] } := by
        rcases alerts with ⟨x, mem, generation, signal, watching⟩ | ⟨x, mem, generation⟩
        · obtain ⟨k, inside, same⟩ := List.getElem_of_mem mem
          by_cases at_ : k = i
          · subst at_
            have same : w = x := by
              rw [List.getElem?_eq_getElem inside] at found
              exact (Option.some.inj found).symm.trans same
            subst same
            exact .inr ⟨_, List.mem_append_right _ (List.mem_singleton_self _), generation⟩
          · refine .inl ⟨x, ?_, generation, signal, watching⟩
            exact List.mem_of_getElem? (i := k)
              ((List.getElem?_set_ne (Ne.symm at_)).trans
                ((List.getElem?_eq_getElem inside).trans (congrArg some same)))
        · exact .inr ⟨x, List.mem_append_left _ mem, generation⟩
      exact fun both => ⟨reported both.1, reported both.2⟩
  | quit found here stopped =>
    refine ⟨guarded.attends, guarded.ended, guarded.establishing, guarded.events, marked found,
      guarded.arming, fun _ running => ?_⟩
    have running : u.stopped = false := running
    rw [stopped] at running
    cases running

theorem unconnected (guarded : u.Guarded s alive) (busy : ¬ u.recovery.attends)
    (going : u.recovery ≠ .ended) : u.session.state ≠ .connected := by
  intro connected
  rcases guarded.attends connected with attends | ended
  · exact busy attends
  · exact going ended

theorem guardedWork {r : Recovery} (guarded : u.Guarded s alive)
    (off : u.session.state ≠ .connected) (going : r ≠ .ended)
    (establishing : ∀ x, r = .establishing x → u.stopped = false → alive = true → x.Safe t)
    (arming : ∀ g c h, r ≠ .arming g c h) : Guarded t alive { u with recovery := r } where
  attends connected := absurd connected off
  ended here := absurd here going
  establishing := establishing
  events := guarded.events
  watchers := guarded.watchers
  arming g c h here := absurd here (arming g c h)
  watched connected := absurd connected off

theorem guardedHandle {x : CloseEvent} {rest : List CloseEvent} (guarded : u.Guarded s alive)
    (here : u.recovery = .listening) (next : u.events = x :: rest) :
    ({ u with events := rest }.handle x).Guarded s alive := by
  have fewer : ∀ y ∈ rest, y.generation ≤ u.session.generation := fun y mem =>
    guarded.events y (by rw [next]; exact List.mem_cons_of_mem x mem)
  unfold handle
  split
  · exact ⟨(fun connected => by cases connected), (fun h => by cases h), (fun y h => by cases h),
      fewer, guarded.watchers, (fun g c h here => by cases here), fun connected => by cases connected⟩
  · rename_i stale
    refine ⟨guarded.attends, guarded.ended, guarded.establishing, fewer, guarded.watchers,
      guarded.arming, fun connected running asked => ?_⟩
    obtain ⟨n, c, h, connection, channel, watched, armed | ⟨first, second⟩⟩ :=
      guarded.watched connected running asked
    · rw [here] at armed; cases armed
    -- a stale report is not the one that is looked for
    · have kept {i : SignalId} (alerts : u.Alerts i) : Alerts i { u with events := rest } := by
        refine alerts.imp_right fun ⟨y, mem, generation⟩ => ⟨y, ?_, generation⟩
        rw [next] at mem
        rcases List.mem_cons.mp mem with rfl | mem
        · exact absurd ⟨generation.symm, connected⟩ stale
        · exact mem
      exact ⟨n, c, h, connection, channel, watched, .inr ⟨kept first, kept second⟩⟩

theorem guardedAdopt {l : Link} {c h : SignalId} (guarded : u.Guarded s alive)
    (here : u.recovery = .establishing (.ready l c h)) : (u.adopt l c h).Guarded s alive := by
  have off : u.session.state ≠ .connected := by
    refine unconnected guarded ?_ ?_
    · rw [here]; exact fun h => h
    · rw [here]; exact fun h => by cases h
  unfold adopt
  split
  · exact guardedWork guarded off (fun h => by cases h) (fun x h => by cases h)
      fun g c h here => by cases here
  · refine ⟨fun _ => .inl trivial, (fun h => by cases h), (fun x h => by cases h), ?_, ?_, ?_, ?_⟩
    · exact fun x mem => Nat.le_succ_of_le (guarded.events x mem)
    · exact fun w mem => Nat.le_succ_of_le (guarded.watchers w mem)
    · intro g i j armed
      cases armed
      exact Nat.le_refl _
    · intro _ running asked
      obtain ⟨pair, watched⟩ := guarded.establishing _ here running asked
      exact ⟨l.connection, c, h, rfl, by rw [pair]; rfl, watched, .inl rfl⟩

theorem guardedArm {g : Nat} {c h : SignalId} (guarded : u.Guarded s alive)
    (here : u.recovery = .arming g c h) :
    Guarded s alive
      { u with watchers := u.watchers ++ watchersFor g c h, recovery := .announcing g } := by
  have limit := guarded.arming g c h here
  refine ⟨fun _ => .inl trivial, (fun h => by cases h), (fun x h => by cases h), guarded.events,
    ?_, (fun g c h here => by cases here), fun connected running asked => ?_⟩
  · intro w mem
    rcases List.mem_append.mp mem with old | new
    · exact guarded.watchers w old
    · rcases List.mem_cons.mp new with rfl | new
      · exact limit
      · cases List.mem_singleton.mp new
        exact limit
  · obtain ⟨n, c', h', connection, channel, watched, armed | ⟨first, second⟩⟩ :=
      guarded.watched connected running asked
    · rw [here] at armed
      cases armed
      refine ⟨n, _, _, connection, channel, watched, .inr ⟨.inl ?_, .inl ?_⟩⟩
      · exact ⟨_, List.mem_append_right _ List.mem_cons_self, rfl, rfl, rfl⟩
      · exact ⟨_, List.mem_append_right _ (List.mem_cons_of_mem _ (List.mem_singleton_self _)),
          rfl, rfl, rfl⟩
    · have kept {i : SignalId} (alerts : u.Alerts i) : Alerts i
          { u with watchers := u.watchers ++ watchersFor g c h, recovery := .announcing g } :=
        alerts.imp_left fun ⟨w, mem, rest⟩ => ⟨w, List.mem_append_left _ mem, rest⟩
      exact ⟨n, c', h', connection, channel, watched, .inr ⟨kept first, kept second⟩⟩

theorem guardedRecovery (level : e.size .connection = e.size .channel)
    (move : RecoveryMove alive e u f v) (guarded : u.Guarded e.broker.store alive) :
    v.Guarded f.broker.store alive := by
  have off {r : Recovery} (here : u.recovery = r) (busy : ¬ r.attends) (going : r ≠ .ended) :
      u.session.state ≠ .connected :=
    unconnected guarded (by rw [here]; exact busy) (by rw [here]; exact going)
  cases move with
  | quit here stopped =>
    exact ⟨fun _ => .inr rfl, fun _ => .inl stopped, (fun x h => by cases h), guarded.events,
      guarded.watchers, (fun g c h here => by cases here),
      fun _ running => absurd (stopped.symm.trans running) Bool.noConfusion⟩
  | leave here next unasked =>
    refine ⟨fun _ => .inr rfl, fun _ => .inr unasked, (fun x h => by cases h), ?_,
      guarded.watchers, (fun g c h here => by cases here),
      fun _ _ asked => absurd (unasked.symm.trans asked) Bool.noConfusion⟩
    exact fun y mem => guarded.events y (by rw [next]; exact List.mem_cons_of_mem _ mem)
  | handle here next => exact guardedHandle guarded here next
  | adopt here => exact guardedAdopt guarded here
  | arm here => exact guardedArm guarded here
  | announce here =>
    refine ⟨fun _ => .inl trivial, (fun h => by cases h), (fun x h => by cases h), guarded.events,
      guarded.watchers, (fun g c h here => by cases here), fun connected running asked => ?_⟩
    obtain ⟨n, c, h, connection, channel, watched, armed | alerts⟩ :=
      guarded.watched connected running asked
    · rw [here] at armed; cases armed
    · exact ⟨n, c, h, connection, channel, watched, .inr alerts⟩
  | release here move =>
    exact guardedWork guarded (off here (fun h => h) fun h => by cases h) (fun h => by cases h)
      (fun x h => by cases h) fun g c h here => by cases here
  | released here | failed here =>
    exact guardedWork guarded (off here (fun h => h) fun h => by cases h) (fun h => by cases h)
      (fun x h => by cases h) fun g c h here => by cases here
  | dial here =>
    exact guardedWork guarded (off here (fun h => h) fun h => by cases h) (fun h => by cases h)
      (fun x h _ _ => by cases h; trivial) fun g c h here => by cases here
  | giveUp here | abandoned here =>
    exact guardedWork guarded (off here (fun h => h) fun h => by cases h) (fun h => by cases h)
      (fun x h => by cases h) fun g c h here => by cases here
  | abandon here move =>
    exact guardedWork guarded (off here (fun h => h) fun h => by cases h) (fun h => by cases h)
      (fun x h => by cases h) fun g c h here => by cases here
  | establish here move =>
    refine guardedWork guarded (off here (fun h => h) fun h => by cases h) (fun h => by cases h)
      (fun x h running asked => ?_) fun g c h here => by cases here
    cases h
    exact Establish.safeMove move level (guarded.establishing _ here running asked)

theorem guardedClosing {x y : Closing} (move : ClosingMove e u x f v y)
    (inside : ∀ r n, n ∈ u.owns r → n < e.size r)
    (apart : ∀ r n, n ∈ u.owns r → n ∉ x.owns r) (before : later = true → alive = true)
    (guarded : u.Guarded e.broker.store alive) : v.Guarded f.broker.store later := by
  cases move with
  | raise =>
    have same := guardedKept (Store.keepsSame (Store.sameLinksRefl e.broker.store)) inside (fun _ _ _ h => h) before guarded
    exact ⟨same.attends, fun _ => .inl rfl, (fun x _ running => by cases running), same.events,
      same.watchers, same.arming, fun _ running => by cases running⟩
  | take =>
    have same := guardedKept (Store.keepsSame (Store.sameLinksRefl e.broker.store)) inside (fun _ _ _ h => h) before guarded
    exact ⟨(fun connected => by cases connected), same.ended, same.establishing, same.events,
      same.watchers, same.arming, fun connected => by cases connected⟩
  | release move =>
    exact guardedKept (Release.confined move).keeps inside apart before guarded
  | released =>
    exact guardedKept (Store.keepsSame (Store.sameLinksRefl e.broker.store)) inside (fun _ _ _ h => h) before guarded

theorem guardedLose {r : Resource} {n : Nat} {reason : String} {m : Memory}
    (watched : ∀ x, u.recovery = .establishing x → u.stopped = false → alive = true →
      ¬ x.Unwatched m.store r n)
    (inside : ∀ r n, n ∈ u.owns r → n < (m.store.ends r).length)
    (guarded : u.Guarded m.store alive) : u.Guarded (m.lose r n reason).store alive where
  attends := guarded.attends
  ended := guarded.ended
  establishing x here running asked := by
    refine Establish.safeLose (watched x here running asked) (fun r n mem => inside r n ?_)
      (guarded.establishing x here running asked)
    refine List.mem_append_right _ ?_
    rw [here]
    exact mem
  events := guarded.events
  watchers := guarded.watchers
  arming := guarded.arming
  watched connected running asked := by
    obtain ⟨k, c, h, connection, channel, watched, rest⟩ := guarded.watched connected running asked
    exact ⟨k, c, h, connection, channel, Memory.watchedLose watched, rest⟩

end Supervisor

end AmqpClient
