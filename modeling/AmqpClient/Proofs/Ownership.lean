import AmqpClient.Proofs.Broker.Links
import AmqpClient.Proofs.Counts
import AmqpClient.Proofs.Use
/-! Every connection and every channel is in the hands of one task at most, and a task touches only
what it has in its hands. -/
namespace AmqpClient

open Broker (Memory Store)

def Link.id (r : Resource) (l : Link) : Nat :=
  match r with
  | .connection => l.connection
  | .channel => l.channel

def Release.owns (r : Resource) (x : Release) : List Nat :=
  match r with
  | .connection => x.connection.toList
  | .channel => x.channel.toList

def Session.owns (r : Resource) (s : Session) : List Nat := s.held.owns r

def Establish.owns (r : Resource) : Establish → List Nat
  | .installing l _ => [l.id r]
  | .discarding x _ => x.owns r
  | .watchingConnection l => [l.id r]
  | .watchingChannel l _ => [l.id r]
  | .ready l _ _ => [l.id r]
  | _ => []

def Recovery.owns (r : Resource) : Recovery → List Nat
  | .releasing x => x.owns r
  | .establishing x => x.owns r
  | .abandoning x => x.owns r
  | _ => []

def Supervisor.owns (r : Resource) (s : Supervisor) : List Nat := s.session.owns r ++ s.recovery.owns r

def Closing.owns (r : Resource) : Closing → List Nat
  | .releasing x => x.owns r
  | _ => []

def Call.owns (r : Resource) : Call → List Nat
  | .close x => x.owns r
  | .closeConsumer (.closing x) => x.owns r
  | _ => []

def Client.owns (r : Resource) (c : Client) : List Nat :=
  c.supervisor.owns r ++ c.calls.flatMap (Call.owns r)

def Opening.owns (r : Resource) (o : Opening) : List Nat :=
  match o.phase with
  | .establishing x => x.owns r
  | _ => []

def World.owns {β : Type} (r : Resource) (w : World β) : List Nat :=
  w.openings.flatMap (Opening.owns r) ++ w.clients.flatMap (Client.owns r)

def Env.size (r : Resource) (e : Env Memory) : Nat := (e.broker.store.ends r).length

def Env.gain (e f : Env Memory) (r : Resource) (n : Nat) : Nat :=
  if e.size r ≤ n ∧ n < f.size r then 1 else 0

structure Confined (before after : Resource → List Nat) (e f : Env Memory) : Prop where
  keeps : Store.Keeps (fun r n => n ∈ before r) e.broker.store f.broker.store
  level : e.size .connection = e.size .channel → f.size .connection = f.size .channel
  grows : ∀ r, e.size r ≤ f.size r
  owns : ∀ r n, (after r).count n ≤ (before r).count n + e.gain f r n

variable {e f : Env Memory} {before after : Resource → List Nat}

theorem keepsMore {touched more : Resource → Nat → Prop} {s t : Store}
    (all : ∀ r n, touched r n → more r n) (keeps : Store.Keeps touched s t) :
    Store.Keeps more s t :=
  ⟨fun r n inside untouched => keeps.ends r n inside fun h => untouched (all r n h),
    keeps.signals, keeps.fired⟩

theorem confinedSame {touched : Resource → Nat → Prop}
    (keeps : Store.Keeps touched e.broker.store f.broker.store)
    (size : Store.SameSize e.broker.store f.broker.store)
    (own : ∀ r n, touched r n → n ∈ before r)
    (fewer : ∀ r n, (after r).count n ≤ (before r).count n) : Confined before after e f := by
  have size (r : Resource) : f.size r = e.size r := size r
  refine ⟨keepsMore own keeps, ?_, ?_, ?_⟩
  · intro level; rw [size, size]; exact level
  · intro r; exact Nat.le_of_eq (size r).symm
  · exact fun r n => Nat.le_add_right_of_le (fewer r n)

theorem confinedIdle (same : Store.SameLinks e.broker.store f.broker.store)
    (fewer : ∀ r n, (after r).count n ≤ (before r).count n) : Confined before after e f :=
  confinedSame (Store.keepsSame same) (Store.sizeOfSame same) (fun _ _ h => h.elim) fewer

theorem confinedRefl (e : Env Memory) : Confined before before e e :=
  confinedIdle (Store.sameLinksRefl _) fun _ _ => Nat.le_refl _

theorem confinedRest {before' after' : Resource → List Nat} (confined : Confined before after e f)
    (more : ∀ r n, n ∈ before r → n ∈ before' r)
    (rest : ∀ r n, (after' r).count n + (before r).count n ≤
      (before' r).count n + (after r).count n) : Confined before' after' e f := by
  refine ⟨keepsMore more confined.keeps, confined.level, confined.grows, ?_⟩
  intro r n
  have fewer := confined.owns r n
  have other := rest r n
  omega

theorem Release.confined {r q : Release} (move : Move e r f q) :
    Confined (fun t => r.owns t) (fun t => q.owns t) e f := by
  cases move with
  | @channel c held =>
    refine confinedSame (Store.keepsShutChannel c .silent _) (Store.sizeShutChannel c .silent _)
      ?_ ?_
    · rintro t n ⟨rfl, rfl⟩
      simp only [owns, held, Option.toList_some, List.mem_singleton]
    · intro t n
      cases t
      · exact Nat.le_refl _
      · exact Nat.zero_le _
  | @connection c first held =>
    refine confinedSame (Store.keepsShutConnection c .silent _)
      (Store.sizeShutConnection c .silent _) ?_ ?_
    · rintro t n ⟨rfl, rfl⟩
      simp only [owns, held, Option.toList_some, List.mem_singleton]
    · intro t n
      cases t
      · exact Nat.zero_le _
      · exact Nat.le_refl _

theorem sameDeclare (c : ChannelId) (d : Declaration) (m : Memory) :
    Store.SameLinks m.store (m.declare c d).1.store := by
  cases d with
  | exchange => exact Store.sameLinksRefl _
  | queue => exact Store.sameLinksRefl _
  | bind b =>
    unfold Memory.declare
    dsimp only
    split
    · unfold Store.bind
      dsimp only
      split <;> exact ⟨rfl, rfl, rfl⟩
    · exact Store.sameLinksRefl _

theorem Establish.confined {client : String} {t : Topology} {x y : Establish}
    (move : Move client t e x f y) : Confined (fun r => x.owns r) (fun r => y.owns r) e f := by
  have same {g : Env Memory} (same : Store.SameLinks e.broker.store g.broker.store)
      {z : Establish} (fewer : ∀ r, z.owns r = x.owns r) :
      Confined (fun r => x.owns r) (fun r => z.owns r) e g :=
    confinedIdle same fun r n => Nat.le_of_eq (by rw [fewer r])
  cases move with
  | start => exact confinedIdle (Store.sameLinksRefl _) fun _ _ => Nat.le_refl _
  | @dialed number ends _ l due answer =>
    have dialed : e.broker.dial.2 = .ok l := congrArg Prod.snd answer
    have store : f.broker = e.broker.dial.1 := (congrArg (fun p => p.1.broker) answer).symm
    unfold Memory.dial at dialed store
    dsimp only at dialed store
    split at dialed
    · cases dialed
    · rename_i accepted
      rw [if_neg accepted] at store
      cases dialed
      have size (r : Resource) : f.size r = e.size r + 1 := by
        unfold Env.size
        rw [store]
        exact Store.sizeOpenLink r e.broker.store
      refine ⟨?_, ?_, ?_, ?_⟩
      · rw [store]; exact Store.keepsOpenLink e.broker.store
      · intro level; rw [size, size, level]
      · intro r; rw [size]; exact Nat.le_succ _
      · intro r n
        have new : Link.id r e.broker.store.openLink.2 = e.size r := by cases r <;> rfl
        change List.count n [Link.id r e.broker.store.openLink.2] ≤ 0 + e.gain f r n
        rw [new, List.count_singleton, Nat.zero_add]
        unfold Env.gain
        rw [size]
        by_cases here : e.size r = n
        · have new : e.size r ≤ n ∧ n < e.size r + 1 := by omega
          exact Nat.le_of_eq (by rw [if_pos (beq_iff_eq.mpr here), if_pos new])
        · rw [if_neg (by rw [beq_iff_eq]; exact here)]
          exact Nat.zero_le _
  | @refused number ends _ cause due answer =>
    have dialed : e.broker.dial.2 = .error cause := congrArg Prod.snd answer
    have store : f.broker = e.broker.dial.1 := (congrArg (fun p => p.1.broker) answer).symm
    refine same ?_ fun _ => rfl
    unfold Memory.dial at dialed store
    dsimp only at dialed store
    split at dialed
    · rename_i refused
      rw [if_pos refused] at store
      rw [store]
      exact Store.sameLinksRefl _
    · cases dialed
  | installed => exact same (Store.sameLinksRefl _) fun _ => rfl
  | @declared l d rest _ answer =>
    refine same ?_ fun _ => rfl
    rw [(congrArg (fun p => p.1.broker) answer).symm]
    exact sameDeclare l.channel d e.broker
  | @undeclared l d rest _ cause answer =>
    refine same ?_ fun r => by cases r <;> rfl
    rw [(congrArg (fun p => p.1.broker) answer).symm]
    exact sameDeclare l.channel d e.broker
  | discard move => exact Release.confined move
  | discarded empty =>
    exact confinedIdle (Store.sameLinksRefl _) fun _ _ => Nat.zero_le _
  | @watchConnection l =>
    refine confinedSame (Store.keepsWatchConnection l.connection _)
      (Store.sizeWatchConnection l.connection _) ?_ fun _ _ => Nat.le_refl _
    rintro r n ⟨rfl, rfl⟩
    exact List.mem_singleton_self _
  | @watchChannel l s =>
    refine confinedSame (Store.keepsWatchChannel l.channel _)
      (Store.sizeWatchChannel l.channel _) ?_ fun _ _ => Nat.le_refl _
    rintro r n ⟨rfl, rfl⟩
    exact List.mem_singleton_self _

namespace Supervisor

variable {s t : Supervisor}

theorem confinedRecovery {alive : Bool} (move : RecoveryMove alive e s f t) :
    Confined (fun r => s.owns r) (fun r => t.owns r) e f := by
  have idle {u : Supervisor} (fewer : ∀ r n, (u.owns r).count n ≤ (s.owns r).count n) :
      Confined (fun r => s.owns r) (fun r => u.owns r) e e :=
    confinedIdle (Store.sameLinksRefl _) fewer
  have along {x y : Resource → List Nat} {u : Supervisor} (confined : Confined x y e f)
      (session : u.session = s.session) (here : ∀ r, s.recovery.owns r = x r)
      (next : ∀ r, u.recovery.owns r = y r) :
      Confined (fun r => s.owns r) (fun r => u.owns r) e f := by
    refine confinedRest confined ?_ ?_
    · intro r n mem
      exact List.mem_append_right _ (by rw [here]; exact mem)
    · intro r n
      simp only [owns, List.count_append, session, here, next]
      omega
  have drop {u : Supervisor} (session : u.session = s.session) (next : ∀ r, u.recovery.owns r = []) :
      Confined (fun r => s.owns r) (fun r => u.owns r) e e := by
    refine idle fun r n => ?_
    simp only [owns, List.count_append, session, next, List.count_nil]
    omega
  cases move with
  | quit | leave | released | dial | giveUp | failed | abandoned | arm | announce =>
    exact drop rfl fun _ => rfl
  | @handle x rest here =>
    refine idle fun r n => ?_
    unfold handle
    split
    · simp only [owns, List.count_append, here]
      cases r <;> exact Nat.le_of_eq (Nat.add_comm ..)
    · simp only [owns, List.count_append]
      exact Nat.le_refl _
  | @adopt l c h here =>
    refine idle fun r n => ?_
    unfold adopt
    split
    · simp only [owns, List.count_append, here]
      cases r <;> exact Nat.le_refl _
    · simp only [owns, List.count_append, here]
      cases r
      all_goals exact Nat.le_add_left _ _
  | release here move =>
    exact along (Release.confined move) rfl (fun r => by rw [here]; rfl) fun _ => rfl
  | establish here move =>
    exact along (Establish.confined move) rfl (fun r => by rw [here]; rfl) fun _ => rfl
  | abandon here move =>
    exact along (Release.confined move) rfl (fun r => by rw [here]; rfl) fun _ => rfl

theorem ownsOfWatcher {i : Nat} (move : WatcherMove i e s t) (r : Resource) :
    t.owns r = s.owns r := by
  cases move <;> rfl

theorem confinedClosing {x y : Closing} (move : ClosingMove e s x f t y) :
    Confined (fun r => x.owns r ++ s.owns r) (fun r => y.owns r ++ t.owns r) e f := by
  cases move with
  | raise => exact confinedRefl e
  | take =>
    refine confinedIdle (Store.sameLinksRefl _) fun r n => ?_
    simp only [owns, List.count_append]
    cases r
    all_goals
      change _ + (0 + _) ≤ 0 + (_ + _)
      exact Nat.le_of_eq (by rw [Nat.zero_add, Nat.zero_add]; rfl)
  | release move =>
    refine confinedRest (Release.confined move) (fun r n => List.mem_append_left _) fun r n => ?_
    simp only [List.count_append, Closing.owns]
    omega
  | released empty =>
    refine confinedIdle (Store.sameLinksRefl _) fun r n => ?_
    simp only [List.count_append, Closing.owns, List.count_nil]
    omega

end Supervisor

section Others

variable {s : Supervisor} {k l : Consumer}

theorem samePublish (c : ChannelId) (exchange key : String) (m : Envelope) (e : Env Memory) :
    Store.SameLinks e.broker.store (e.publish c exchange key m).1.broker.store := by
  change Store.SameLinks e.broker.store (e.broker.publish c exchange key m).1.store
  unfold Memory.publish
  repeat' split
  all_goals first | exact Store.sameLinksRefl _ | exact Store.sameRoute ..

theorem samePublication {p q : Publication} (h : p.step s e = some (f, q)) :
    Store.SameLinks e.broker.store f.broker.store := by
  unfold Publication.step at h
  split at h
  case h_1 => split at h <;> cases h <;> exact Store.sameLinksRefl _
  case h_2 => split at h <;> cases h <;> exact Store.sameLinksRefl _
  case h_3 =>
    split at h <;> cases h
    · exact Store.sameLinksRefl _
    · exact samePublish ..
  case h_4 =>
    obtain ⟨o, -, same⟩ := Option.map_eq_some_iff.mp h
    cases same
    exact Store.sameLinksRefl _
  all_goals contradiction

theorem sameLoop {i : Nat} {j : Consumer.Loop} (move : Consumer.LoopMove i s e k j f l) :
    Store.SameLinks e.broker.store f.broker.store := by
  have dropped (stream : Option StreamId) :
      Store.SameLinks e.broker.store (Consumer.dropStream? e stream).broker.store := by
    cases stream <;> exact ⟨rfl, rfl, rfl⟩
  cases move with
  | prefetched _ answer | unprefetched _ answer =>
    rw [(congrArg (fun p => p.1.broker) answer).symm]
    exact Store.sameLinksRefl _
  | @subscribed c _ _ _ answer | @unsubscribed c _ _ _ answer =>
    rw [(congrArg (fun p => p.1.broker) answer).symm]
    change Store.SameLinks _ (e.broker.consume c s.topology.queueName).1.store
    unfold Memory.consume
    split <;> exact ⟨rfl, rfl, rfl⟩
  | @take _ stream _ _ _ _ _ answer | @broken _ stream _ _ _ _ _ answer
  | @ended _ stream _ _ _ _ answer =>
    rw [(congrArg (fun p => p.1.broker) answer).symm]
    change Store.SameLinks _ (e.broker.store.poll stream).1
    unfold Store.poll
    repeat' split
    all_goals exact ⟨rfl, rfl, rfl⟩
  | resume | wake => exact dropped _
  | _ => exact ⟨rfl, rfl, rfl⟩

theorem sameWorker {i : Nat} {x : Consumer.Worker} (move : Consumer.WorkerMove i e k x f l) :
    Store.SameLinks e.broker.store f.broker.store := by
  cases move <;> exact Store.sameLinksRefl _

theorem sameRetry {stopped : Bool} {r q : Consumer.RetryTask}
    (move : Consumer.RetryMove stopped s e r f q) :
    Store.SameLinks e.broker.store f.broker.store := by
  cases move with
  | send => exact samePublish ..
  | _ => exact Store.sameLinksRefl _

end Others

namespace Client

variable {c d : Client}

theorem countCall {i n : Nat} {r : Resource} {calls : List Call} {x y : Call}
    (here : calls[i]? = some x) :
    ((calls.set i y).flatMap (Call.owns r)).count n + (x.owns r).count n =
      (calls.flatMap (Call.owns r)).count n + (y.owns r).count n := by
  rw [countParts, countParts]
  exact totalSet here

theorem confinedCall {i : Nat} {x y : Call} {t : Supervisor} (here : c.calls[i]? = some x)
    (confined : Confined (fun r => x.owns r ++ c.supervisor.owns r)
      (fun r => y.owns r ++ t.owns r) e f)
    (supervisor : d.supervisor = t) (calls : d.calls = c.calls.set i y) :
    Confined (fun r => c.owns r) (fun r => d.owns r) e f := by
  refine confinedRest confined ?_ ?_
  · intro r n mem
    rcases List.mem_append.mp mem with old | old
    · exact List.mem_append_right _
        (List.mem_flatMap.mpr ⟨x, List.mem_of_getElem? here, old⟩)
    · exact List.mem_append_left _ old
  · intro r n
    have changed := countCall (n := n) (r := r) (y := y) here
    simp only [owns, List.count_append, supervisor, calls]
    omega

theorem confined (move : Move e c f d) : Confined (fun r => c.owns r) (fun r => d.owns r) e f := by
  have only {t : Supervisor} (calls : d.calls = c.calls) (supervisor : d.supervisor = t)
      (confined : Confined (fun r => c.supervisor.owns r) (fun r => t.owns r) e f) :
      Confined (fun r => c.owns r) (fun r => d.owns r) e f := by
    refine confinedRest confined (fun r n => List.mem_append_left _) fun r n => ?_
    simp only [owns, List.count_append, supervisor, calls]
    omega
  cases move with
  | recovery made => exact only rfl rfl (Supervisor.confinedRecovery (Supervisor.recoveryMove made))
  | watcher made =>
    obtain ⟨rfl, move⟩ := Supervisor.watcherMove made
    refine confinedIdle (Store.sameLinksRefl _) fun r n => ?_
    simp only [owns, Supervisor.ownsOfWatcher move]
    exact Nat.le_refl _
  | loop _ made =>
    obtain ⟨j, -, move⟩ := Consumer.loopMove made
    exact confinedIdle (sameLoop move) fun _ _ => Nat.le_refl _
  | worker _ made =>
    obtain ⟨x, -, move⟩ := Consumer.workerMove made
    exact confinedIdle (sameWorker move) fun _ _ => Nat.le_refl _
  | retry _ made =>
    obtain ⟨r, q, -, move, -⟩ := Consumer.retryStepSource made
    exact confinedIdle (sameRetry move) fun _ _ => Nat.le_refl _
  | @publish i p q _ here made =>
    exact confinedCall (y := .publish q) here
      (confinedIdle (samePublication made) fun _ _ => Nat.le_refl _) rfl rfl
  | @close i x y _ t here made =>
    exact confinedCall (x := .close x) (y := .close y) here
      (Supervisor.confinedClosing (Supervisor.closingMove made)) rfl rfl
  | @start i x y _ _ role here made =>
    exact confinedCall (y := .start y) here (confinedRefl e) rfl rfl
  | @closeConsumer i x y _ _ _ t role here made =>
    refine confinedCall (y := .closeConsumer y) (t := t) here ?_ rfl rfl
    cases Consumer.closeMove made with
    | closing stepped => exact Supervisor.confinedClosing (Supervisor.closingMove stepped)
    | _ => exact confinedRefl e

end Client

theorem confinedBroker {g : Env Memory} (same : g.broker = f.broker)
    (confined : Confined before after e f) : Confined before after e g := by
  have size (r : Resource) : g.size r = f.size r := by unfold Env.size; rw [same]
  refine ⟨by rw [same]; exact confined.keeps, ?_, ?_, ?_⟩
  · rw [size, size]; exact confined.level
  · intro r; rw [size]; exact confined.grows r
  · intro r n
    have fewer := confined.owns r n
    unfold Env.gain at *
    rw [size]
    exact fewer

namespace World

variable {w v : World Memory}

structure Owned (w : World Memory) : Prop where
  level : w.env.size .connection = w.env.size .channel
  owns : ∀ r n, (w.owns r).count n ≤ if n < w.env.size r then 1 else 0

theorem ownedReplace (owned : w.Owned) (confined : Confined before after w.env v.env)
    (counts : ∀ r n, (v.owns r).count n + (before r).count n =
      (w.owns r).count n + (after r).count n) : v.Owned := by
  refine ⟨confined.level owned.level, fun r n => ?_⟩
  have total := owned.owns r n
  have changed := confined.owns r n
  have same := counts r n
  have grows := confined.grows r
  unfold Env.gain at changed
  by_cases old : n < w.env.size r
  · rw [if_pos old] at total
    rw [if_neg (by omega)] at changed
    rw [if_pos (by omega)]
    omega
  · rw [if_neg old] at total
    by_cases new : n < v.env.size r
    · rw [if_pos (by omega)] at changed
      rw [if_pos new]
      omega
    · rw [if_neg (by omega)] at changed
      rw [if_neg new]
      omega

theorem countOpening {i n : Nat} {r : Resource} {openings : List Opening} {o p : Opening}
    (here : openings[i]? = some o) :
    ((openings.set i p).flatMap (Opening.owns r)).count n + (o.owns r).count n =
      (openings.flatMap (Opening.owns r)).count n + (p.owns r).count n := by
  rw [countParts, countParts]
  exact totalSet here

theorem countClient {i n : Nat} {r : Resource} {clients : List Client} {c d : Client}
    (here : clients[i]? = some c) :
    ((clients.set i d).flatMap (Client.owns r)).count n + (c.owns r).count n =
      (clients.flatMap (Client.owns r)).count n + (d.owns r).count n := by
  rw [countParts, countParts]
  exact totalSet here

theorem ownedOpening {i : Nat} {o : Opening} (owned : w.Owned) (found : w.openings[i]? = some o)
    (move : OpeningMove i w o v) : v.Owned := by
  have idle {p : OpeningPhase} (before : ∀ r, o.owns r = [])
      (after : ∀ r, Opening.owns r { o with phase := p } = []) :
      (w.setOpening i o p).Owned := by
    have still : Confined (fun _ => []) (fun _ => []) w.env w.env := confinedRefl w.env
    refine ownedReplace owned still fun r n => ?_
    have changed := countOpening (n := n) (r := r) (p := { o with phase := p }) found
    rw [before, after] at changed
    simp only [World.owns, setOpening, List.count_append] at changed ⊢
    omega
  cases move with
  | start here =>
    exact idle (fun r => by simp only [Opening.owns, here]) fun r => rfl
  | refuse here => exact idle (fun r => by simp only [Opening.owns, here]) fun r => rfl
  | fail here =>
    exact idle (fun r => by simp only [Opening.owns, here]; rfl) fun r => rfl
  | @opened l c h here =>
    have still : Confined (fun _ => []) (fun _ => []) w.env w.env := confinedRefl w.env
    refine ownedReplace owned still fun r n => ?_
    have changed := countOpening (n := n) (r := r)
      (p := { o with phase := .opened w.clients.length }) found
    have had : o.owns r = [l.id r] := by simp only [Opening.owns, here]; rfl
    have gave : (client o l c h).owns r = [l.id r] := by cases r <;> rfl
    rw [had] at changed
    simp only [World.owns, setOpening, List.count_append, List.flatMap_append,
      List.flatMap_cons, List.flatMap_nil, List.append_nil, gave] at changed ⊢
    simp only [Opening.owns, List.count_nil] at changed
    omega
  | @establish x y f here move =>
    have had (r : Resource) : o.owns r = x.owns r := by simp only [Opening.owns, here]
    refine ownedReplace owned (Establish.confined move) fun r n => ?_
    have changed := countOpening (n := n) (r := r)
      (p := { o with phase := .establishing y }) found
    rw [had] at changed
    simp only [World.owns, setOpening, List.count_append] at changed ⊢
    simp only [Opening.owns] at changed
    omega

theorem ownedClient {i : Nat} {a : Activity} {c d : Client} (owned : w.Owned)
    (found : w.clients[i]? = some c) (move : Client.Move w.env c f d) :
    World.Owned { w with env := recordEnd i a d f, clients := w.clients.set i d } := by
  have same := brokerRecordEnd i a d f
  refine ownedReplace owned (confinedBroker same (Client.confined move)) fun r n => ?_
  have changed := countClient (n := n) (r := r) (d := d) found
  simp only [World.owns, List.count_append] at changed ⊢
  omega

theorem ownedOutside {b : Memory} (owned : w.Owned)
    (size : Store.SameSize w.env.broker.store b.store) :
    World.Owned { w with env := w.env.withBroker b } := by
  have size (r : Resource) : (w.env.withBroker b).size r = w.env.size r := size r
  refine ⟨?_, fun r n => ?_⟩
  · dsimp only; rw [size, size]; exact owned.level
  · dsimp only; rw [size]; exact owned.owns r n

theorem ownsOpens {r : Resource} {role : Role} {x : Call} (opens : x.Opens role) :
    x.owns r = [] := by
  unfold Call.Opens at opens
  split at opens <;> first | rfl | contradiction

theorem insideOfOwned {r : Resource} {n : Nat} (owned : w.Owned) (mem : n ∈ w.owns r) :
    n < w.env.size r := by
  have total := owned.owns r n
  have some_ := List.count_pos_iff.mpr mem
  split at total
  · assumption
  · omega

theorem ownsOfOpening {o : Opening} {r : Resource} {n : Nat} (found : o ∈ w.openings)
    (mem : n ∈ o.owns r) : n ∈ w.owns r :=
  List.mem_append_left _ (List.mem_flatMap.mpr ⟨o, found, mem⟩)

theorem ownsOfClient {c : Client} {r : Resource} {n : Nat} (found : c ∈ w.clients)
    (mem : n ∈ c.owns r) : n ∈ w.owns r :=
  List.mem_append_right _ (List.mem_flatMap.mpr ⟨c, found, mem⟩)

theorem ownedOnce {r : Resource} {n : Nat} (owned : w.Owned) : (w.owns r).count n ≤ 1 := by
  have total := owned.owns r n
  split at total <;> omega

theorem clientsApart {i j : Nat} {c d : Client} {r : Resource} {n : Nat} (owned : w.Owned)
    (first : w.clients[i]? = some c) (second : w.clients[j]? = some d) (other : i ≠ j)
    (mem : n ∈ c.owns r) : n ∉ d.owns r := by
  intro also
  -- in two hands it would be counted twice
  have total := ownedOnce (r := r) (n := n) owned
  have both := leTotalTwo (f := fun x => (Client.owns r x).count n) first second other
  rw [← countParts] at both
  have one := List.count_pos_iff.mpr mem
  have two := List.count_pos_iff.mpr also
  simp only [World.owns, List.count_append] at total both
  omega

theorem openingsApart {i j : Nat} {o p : Opening} {r : Resource} {n : Nat} (owned : w.Owned)
    (first : w.openings[i]? = some o) (second : w.openings[j]? = some p) (other : i ≠ j)
    (mem : n ∈ o.owns r) : n ∉ p.owns r := by
  intro also
  have total := ownedOnce (r := r) (n := n) owned
  have both := leTotalTwo (f := fun x => (Opening.owns r x).count n) first second other
  rw [← countParts] at both
  have one := List.count_pos_iff.mpr mem
  have two := List.count_pos_iff.mpr also
  simp only [World.owns, List.count_append] at total both
  omega

theorem openingApart {o : Opening} {c : Client} {r : Resource} {n : Nat} (owned : w.Owned)
    (first : o ∈ w.openings) (second : c ∈ w.clients) (mem : n ∈ o.owns r) : n ∉ c.owns r := by
  intro also
  have total := ownedOnce (r := r) (n := n) owned
  have one := List.count_pos_iff.mpr (List.mem_flatMap.mpr ⟨o, first, mem⟩)
  have two := List.count_pos_iff.mpr (List.mem_flatMap.mpr ⟨c, second, also⟩)
  simp only [World.owns, List.count_append] at total
  omega

theorem ownedSame (owned : w.Owned) (env : v.env = w.env) (same : ∀ r, v.owns r = w.owns r) :
    v.Owned := by
  refine ⟨by rw [env]; exact owned.level, fun r n => ?_⟩
  rw [same, env]
  exact owned.owns r n

theorem ownedMake (owned : w.Owned) (client : String) (p : Plan) : (w.make client p).Owned := by
  refine ownedSame owned rfl fun r => ?_
  simp only [World.owns, make, List.flatMap_append, List.flatMap_cons, List.flatMap_nil,
    List.append_nil]
  exact congrArg (· ++ _) (List.append_nil _)

theorem ownedCall {i : Nat} {x : Call} {role : Role} (owned : w.Owned) (opens : x.Opens role) :
    (w.call i x).Owned := by
  refine ownedSame owned rfl fun r => congrArg (_ ++ ·) (flatMapModify fun c => ?_)
  simp only [Client.owns, List.flatMap_append, List.flatMap_cons, List.flatMap_nil,
    ownsOpens opens, List.append_nil]

theorem ownedLetGo (owned : w.Owned) (i : Nat) : (w.letGo i).Owned :=
  ownedSame owned rfl fun _ => congrArg (_ ++ ·) (flatMapModify fun _ => rfl)

end World

end AmqpClient
