import AmqpClient.Proofs.Ownership
import AmqpClient.Proofs.Supervisor.Coherence
import AmqpClient.Proofs.Supervisor.Record
/-! Who has a pair of resources in hand, and how each step of the tasks that handle them enters into
the books: a dial brings a pair in, a close call takes half of one out, and every other step only
passes pairs on. -/
namespace AmqpClient

open scoped List

namespace Release

def nothing : Release := { channel := none, connection := none }

def pending (r : Release) : Bool := r.channel.isSome || r.connection.isSome

variable {r : Release}

theorem pendingOwns (idle : r.pending = false) (t : Resource) : r.owns t = [] := by
  obtain ⟨channel, connection⟩ := Bool.or_eq_false_iff.mp idle
  cases t with
  | channel => exact congrArg Option.toList (Option.not_isSome_iff_eq_none.mp (by rw [channel]; nofun))
  | connection =>
    exact congrArg Option.toList (Option.not_isSome_iff_eq_none.mp (by rw [connection]; nofun))

theorem pendingStep {β : Type} [Broker β] {e : Env β} (empty : r.step e = none) :
    r.pending = false := by
  unfold step at empty
  split at empty
  · cases empty
  · cases empty
  · rename_i channel connection
    unfold pending
    rw [channel, connection]
    rfl

theorem pendingMove {β : Type} [Broker β] {e f : Env β} {q : Release} (move : Move e r f q) :
    r.pending = true := by
  unfold pending
  cases move with
  | channel held => rw [held]; rfl
  | connection first held => rw [first, held]; rfl

end Release

def Establish.held : Establish → Release
  | .installing l _ => .ofLink l
  | .discarding r _ => r
  | .watchingConnection l => .ofLink l
  | .watchingChannel l _ => .ofLink l
  | .ready l _ _ => .ofLink l
  | _ => .nothing

def Establish.handling : Establish → Bool
  | .start | .dialing .. | .failed _ => false
  | _ => true

def Recovery.handling : Recovery → Bool
  | .releasing _ | .abandoning _ => true
  | .establishing x => x.handling
  | _ => false

def Recovery.held : Recovery → Release
  | .releasing r => r
  | .establishing x => x.held
  | .abandoning r => r
  | _ => .nothing

def Closing.held : Closing → Release
  | .releasing r => r
  | _ => .nothing

def Call.held : Call → Release
  | .close x => x.held
  | .closeConsumer (.closing x) => x.held
  | _ => .nothing

def Opening.held (o : Opening) : Release :=
  match o.phase with
  | .establishing x => x.held
  | _ => .nothing

def Fact.opens (r : Resource) (n : Nat) : Fact → Bool
  | .dialed _ _ (.ok l) => l.id r = n
  | _ => false

def Fact.closes (r : Resource) (n : Nat) : Fact → Bool
  | .closedChannel m _ => r = .channel ∧ m = n
  | .closedConnection m _ => r = .connection ∧ m = n
  | _ => false

variable {β : Type} {e f g : Env β}

namespace Env

def opened (r : Resource) (n : Nat) (e : Env β) : Nat := e.journal.countP fun x => x.fact.opens r n

def closed (r : Resource) (n : Nat) (e : Env β) : Nat := e.journal.countP fun x => x.fact.closes r n

def Ordered (e : Env β) : Prop :=
  ∀ n q, Fact.closedConnection n q ∈ e.facts → ∃ m p client number,
    [.closedConnection n q, .closedChannel m p, .dialed client number (.ok ⟨n, m⟩)] <+ e.facts

def Aside (e f : Env β) : Prop :=
  ∃ new, f.journal = new ++ e.journal ∧
    ∀ x ∈ new, ∀ r n, x.fact.opens r n = false ∧ x.fact.closes r n = false

theorem asideRefl (e : Env β) : e.Aside e := ⟨[], rfl, fun _ => nofun⟩

theorem asideOfBy {writer : Fact.Writer} (grows : e.GrowsBy writer f) (other : writer ≠ .link) :
    e.Aside f := by
  obtain ⟨new, same, own⟩ := grows
  refine ⟨new, same, fun x mem r n => ?_⟩
  have mine := own x mem
  obtain ⟨time, fact⟩ := x
  cases fact with
  | dialed | closedChannel | closedConnection => exact absurd mine.symm other
  | _ => exact ⟨rfl, rfl⟩

theorem asideGrows (aside : e.Aside f) : e.Grows f := by
  obtain ⟨new, same, -⟩ := aside
  exact ⟨new, same.symm⟩

theorem asideCounts (aside : e.Aside f) (r : Resource) (n : Nat) :
    f.opened r n = e.opened r n ∧ f.closed r n = e.closed r n := by
  obtain ⟨new, same, none⟩ := aside
  have idle {p : Entry → Bool} (none : ∀ x ∈ new, p x = false) :
      (new ++ e.journal).countP p = e.journal.countP p := by
    rw [List.countP_append, List.countP_eq_zero.mpr fun x mem => by rw [none x mem]; nofun,
      Nat.zero_add]
  unfold opened closed
  rw [same]
  exact ⟨idle fun x mem => (none x mem r n).1, idle fun x mem => (none x mem r n).2⟩

theorem orderedGrows (grows : e.Grows f)
    (old : ∀ n q, Fact.closedConnection n q ∈ f.facts → Fact.closedConnection n q ∈ e.facts)
    (ordered : e.Ordered) : f.Ordered := by
  intro n q mem
  obtain ⟨m, p, client, number, part⟩ := ordered n q (old n q mem)
  exact ⟨m, p, client, number, part.trans (factsGrow grows)⟩

theorem orderedAside (aside : e.Aside f) (ordered : e.Ordered) : f.Ordered := by
  refine orderedGrows (asideGrows aside) (fun n q mem => ?_) ordered
  obtain ⟨new, same, none⟩ := aside
  unfold facts at mem ⊢
  rw [same, List.map_append, List.mem_append] at mem
  refine mem.resolve_left fun added => ?_
  obtain ⟨x, inside, fact⟩ := List.mem_map.mp added
  have closes := (none x inside .connection n).2
  rw [fact] at closes
  exact absurd closes (by simp [Fact.closes])

end Env

inductive Release.Backed (e : Env β) : Release → Prop where
  | whole {n m client number failure}
      (dialed : Fact.dialed client number (.ok ⟨n, m⟩) ∈ e.facts) :
      Backed e ⟨some m, some n, failure⟩
  | half {n m p client number failure}
      (closed : [.closedChannel m p, .dialed client number (.ok ⟨n, m⟩)] <+ e.facts) :
      Backed e ⟨none, some n, failure⟩
  | idle {failure} : Backed e ⟨none, none, failure⟩

theorem Release.backedGrows {r : Release} (grows : e.Grows f) (backed : r.Backed e) :
    r.Backed f := by
  cases backed with
  | whole dialed => exact .whole ((Env.factsGrow grows).subset dialed)
  | half closed => exact .half (closed.trans (Env.factsGrow grows))
  | idle => exact .idle

theorem Release.backedIdle {r : Release} (idle : r.pending = false) : r.Backed e := by
  obtain ⟨channel, connection, failure⟩ := r
  cases channel <;> cases connection <;> first | exact .idle | cases idle

def mass (r : Resource) (n : Nat) (hs : List Release) : Nat := total (fun h => (h.owns r).count n) hs

structure Tallied (before after : List Release) (e f : Env β) : Prop where
  balance : ∀ r n, f.opened r n + e.closed r n + mass r n before =
    e.opened r n + f.closed r n + mass r n after
  backed : (∀ h ∈ before, h.Backed e) → ∀ h ∈ after, h.Backed f
  ordered : (∀ h ∈ before, h.Backed e) → e.Ordered → f.Ordered
  grows : e.Grows f

variable {before after old new : List Release}

theorem talliedFrame (tallied : Tallied before after e f) (inside : ∀ h ∈ before, h ∈ old)
    (kept : ∀ h ∈ new, h ∈ old ∨ h ∈ after)
    (count : ∀ r n, mass r n new + mass r n before = mass r n old + mass r n after) :
    Tallied old new e f := by
  refine ⟨fun r n => ?_, fun backed h mem => ?_,
    fun backed => tallied.ordered fun h mem => backed h (inside h mem), tallied.grows⟩
  · have balance := tallied.balance r n
    have moved := count r n
    omega
  · rcases kept h mem with same | mine
    · exact Release.backedGrows tallied.grows (backed h same)
    · exact tallied.backed (fun h mem => backed h (inside h mem)) h mine

theorem talliedAside (aside : e.Aside f)
    (kept : ∀ h ∈ after, h ∈ before ∨ h.pending = false)
    (count : ∀ r n, mass r n before = mass r n after) : Tallied before after e f := by
  refine ⟨fun r n => ?_, fun backed h mem => ?_, fun _ => Env.orderedAside aside,
    Env.asideGrows aside⟩
  · obtain ⟨opened, closed⟩ := Env.asideCounts aside r n
    rw [opened, closed, count]
  · rcases kept h mem with same | idle
    · exact Release.backedGrows (Env.asideGrows aside) (backed h same)
    · exact Release.backedIdle idle

theorem talliedLater (tallied : Tallied before after e f) (aside : f.Aside g) :
    Tallied before after e g := by
  refine ⟨fun r n => ?_, fun backed h mem => ?_, fun backed ordered => ?_, ?_⟩
  · obtain ⟨opened, closed⟩ := Env.asideCounts aside r n
    rw [opened, closed]
    exact tallied.balance r n
  · exact Release.backedGrows (Env.asideGrows aside) (tallied.backed backed h mem)
  · exact Env.orderedAside aside (tallied.ordered backed ordered)
  · exact Env.growsTrans tallied.grows (Env.asideGrows aside)

theorem massOne (r : Resource) (n : Nat) (h : Release) : mass r n [h] = (h.owns r).count n :=
  Nat.add_zero _

theorem massIdle {h k : Release} (first : h.pending = false) (second : k.pending = false)
    (r : Resource) (n : Nat) : mass r n [h] = mass r n [k] := by
  rw [massOne, massOne, Release.pendingOwns first, Release.pendingOwns second]

theorem Env.countsNote {t : Instant} {x : Fact} (noted : f.journal = ⟨t, x⟩ :: e.journal)
    (r : Resource) (n : Nat) : f.opened r n = e.opened r n + (x.opens r n).toNat ∧
      f.closed r n = e.closed r n + (x.closes r n).toNat := by
  unfold opened closed
  rw [noted, List.countP_cons, List.countP_cons]
  simp only [toNatIf, and_self]

theorem Env.factsNote {t : Instant} {x : Fact} (noted : f.journal = ⟨t, x⟩ :: e.journal) :
    f.facts = x :: e.facts := by
  unfold facts
  rw [noted]
  rfl

theorem countOne (m n : Nat) : List.count n [m] = (decide (m = n)).toNat := by
  rw [List.count_singleton]
  simp only [toNatIf, beq_iff_eq, decide_eq_true_eq]

theorem talliedSame (aside : e.Aside f) : Tallied before before e f :=
  talliedAside aside (fun _ => .inl) fun _ _ => rfl

theorem talliedIdle {h k : Release} (aside : e.Aside f) (first : h.pending = false)
    (second : k.pending = false) : Tallied [h] [k] e f := by
  refine talliedAside aside (fun h mem => ?_) (massIdle first second)
  cases List.mem_singleton.mp mem
  exact .inr second

theorem Env.asideNote {t : Instant} {x : Fact} (noted : f.journal = ⟨t, x⟩ :: e.journal)
    (none : ∀ r n, x.opens r n = false ∧ x.closes r n = false) : e.Aside f :=
  ⟨[_], noted, fun _ mem => by cases List.mem_singleton.mp mem; exact none⟩

theorem talliedBeside {h k : Release} (x : Release) (tallied : Tallied [h] [k] e f) :
    Tallied [x, h] [x, k] e f := by
  refine talliedFrame tallied (fun h mem => List.mem_cons_of_mem _ mem) (fun h mem => ?_)
    fun r n => ?_
  · rcases List.mem_cons.mp mem with same | mine
    · exact .inl (same ▸ List.mem_cons_self)
    · exact .inr mine
  · simp only [mass, total]
    omega

theorem talliedSwap (h k : Release) : Tallied [h, k] [k, h] e e := by
  refine talliedAside (Env.asideRefl e) (fun x mem => ?_) fun r n => ?_
  · exact .inl ((List.Perm.swap h k []).mem_iff.mp mem)
  · simp only [mass, total]
    omega

variable [Broker β]

theorem Release.talliedMove {r q : Release} (move : Move e r f q) : Tallied [r] [q] e f := by
  have mine {h : Release} (mem : h ∈ [q]) : h = q := List.mem_singleton.mp mem
  have backs (backed : ∀ h ∈ [r], h.Backed e) : r.Backed e := backed r (List.mem_singleton_self r)
  cases move with
  | @channel m held =>
    have noted : (e.closeChannel m).1.journal =
        ⟨e.now, .closedChannel m (e.closeChannel m).2⟩ :: e.journal := rfl
    have facts := Env.factsNote noted
    refine ⟨fun t n => ?_, fun backed h mem => ?_, fun _ => Env.orderedGrows ⟨[_], rfl⟩ ?_, ⟨[_], rfl⟩⟩
    · obtain ⟨opened, closed⟩ := Env.countsNote noted t n
      rw [opened, closed, massOne, massOne]
      cases t with
      | connection => simp [owns, Fact.opens, Fact.closes]
      | channel =>
        simp only [owns, held, Fact.opens, Fact.closes, Option.toList_some, Option.toList_none,
          countOne, List.count_nil, true_and, Bool.toNat_false]
        omega
    · rw [mine mem]
      cases backs backed with
      | whole dialed =>
        cases held
        have closed := List.Sublist.cons_cons (Fact.closedChannel m (e.closeChannel m).2)
          (List.singleton_sublist.mpr dialed)
        rw [← facts] at closed
        exact .half closed
      | half | idle => cases held
    · intro n q mem
      rw [facts] at mem
      exact (List.mem_cons.mp mem).resolve_left (fun same => by cases same)
  | @connection n first held =>
    have noted : (e.closeConnection n).1.journal =
        ⟨e.now, .closedConnection n (e.closeConnection n).2⟩ :: e.journal := rfl
    have facts := Env.factsNote noted
    refine ⟨fun t k => ?_, fun backed h mem => ?_, fun backed ordered k q mem => ?_, ⟨[_], rfl⟩⟩
    · obtain ⟨opened, closed⟩ := Env.countsNote noted t k
      rw [opened, closed, massOne, massOne]
      cases t with
      | channel => simp [owns, Fact.opens, Fact.closes]
      | connection =>
        simp only [owns, held, Fact.opens, Fact.closes, Option.toList_some, Option.toList_none,
          countOne, List.count_nil, true_and, Bool.toNat_false]
        omega
    · rw [mine mem]
      exact backedIdle (by unfold pending; rw [first]; rfl)
    · rw [facts] at mem ⊢
      rcases List.mem_cons.mp mem with new | old
      · cases new
        cases backs backed with
        | half closed =>
          cases held
          exact ⟨_, _, _, _, .cons_cons _ closed⟩
        | whole => cases first
        | idle => cases held
      · obtain ⟨m, p, client, number, part⟩ := ordered k q old
        exact ⟨m, p, client, number, .cons _ part⟩

theorem Env.journalDial {client : String} {number : Nat} {r : Except Error Link}
    (answer : e.dial client number = (f, r)) :
    f.journal = ⟨e.now, .dialed client number r⟩ :: e.journal := by
  rw [← (Prod.mk.inj answer).1, ← (Prod.mk.inj answer).2]
  rfl

theorem Env.journalDeclare {c : ChannelId} {d : Declaration} {o : Outcome}
    (answer : e.declare c d = (f, o)) : f.journal = ⟨e.now, .declared c d o⟩ :: e.journal := by
  rw [← (Prod.mk.inj answer).1, ← (Prod.mk.inj answer).2]
  rfl

theorem talliedDial {client : String} {number : Nat} {l : Link}
    (answer : e.dial client number = (f, .ok l)) : Tallied [.nothing] [.ofLink l] e f := by
  have noted := Env.journalDial answer
  have facts := Env.factsNote noted
  refine ⟨fun r n => ?_, fun _ h mem => ?_, fun _ => Env.orderedGrows ⟨[_], noted.symm⟩ ?_,
    ⟨[_], noted.symm⟩⟩
  · obtain ⟨opened, closed⟩ := Env.countsNote noted r n
    have mine : (Release.ofLink l).owns r = [l.id r] := by cases r <;> rfl
    rw [opened, closed, massOne, massOne, mine, countOne, Release.pendingOwns rfl]
    simp only [Fact.opens, Fact.closes, List.count_nil, Bool.toNat_false]
    omega
  · cases List.mem_singleton.mp mem
    have dialed : Fact.dialed client number (.ok l) ∈ f.facts := by
      rw [facts]
      exact List.mem_cons_self
    exact .whole dialed
  · intro n q mem
    rw [facts] at mem
    exact (List.mem_cons.mp mem).resolve_left nofun

theorem Establish.talliedMove {client : String} {t : Topology} {x y : Establish}
    (move : Move client t e x f y) : Tallied [x.held] [y.held] e f := by
  cases move with
  | start => exact talliedIdle (Env.asideRefl e) rfl rfl
  | dialed due answer => exact talliedDial answer
  | refused due answer =>
    exact talliedIdle (Env.asideNote (Env.journalDial answer) fun _ _ => ⟨rfl, rfl⟩) rfl rfl
  | installed | watchConnection | watchChannel => exact talliedSame (Env.asideRefl e)
  | declared answer | undeclared answer =>
    exact talliedSame (Env.asideNote (Env.journalDeclare answer) fun _ _ => ⟨rfl, rfl⟩)
  | discard move => exact Release.talliedMove move
  | discarded empty => exact talliedIdle (Env.asideRefl e) (Release.pendingStep empty) rfl

namespace Supervisor

variable {s t : Supervisor}

def holdings (s : Supervisor) : List Release := [s.session.held, s.recovery.held]

theorem sessionEmpty (coherent : s.Coherent) (lost : s.session.state ≠ .connected) :
    s.session.connection = none ∧ s.session.channel = none := by
  have none {x : Option Nat} (same : x.isSome = (s.session.state == .connected)) : x = none := by
    rw [beq_false_of_ne lost] at same
    exact Option.not_isSome_iff_eq_none.mp (by rw [same]; nofun)
  exact ⟨none coherent.connection, none coherent.channel⟩

theorem heldSession (coherent : s.Coherent) (lost : s.session.state ≠ .connected) :
    s.session.held = .nothing := by
  obtain ⟨connection, channel⟩ := sessionEmpty coherent lost
  unfold Session.held
  rw [connection, channel]
  rfl

theorem talliedRecovery {alive : Bool} (coherent : s.Coherent) (move : RecoveryMove alive e s f t) :
    Tallied s.holdings t.holdings e f := by
  have along {q : Release} (tallied : Tallied [s.recovery.held] [q] e f)
      (session : t.session = s.session) (recovery : t.recovery.held = q) :
      Tallied s.holdings t.holdings e f := by
    unfold holdings
    rw [session, recovery]
    exact talliedBeside s.session.held tallied
  cases move with
  | quit here | leave here | dial here | giveUp here | arm here | announce here | failed here =>
    exact along (talliedIdle (Env.asideRefl e) (by rw [here]; rfl) rfl) rfl rfl
  | released here empty | abandoned here empty =>
    refine along (talliedIdle (Env.asideRefl e) ?_ rfl) rfl rfl
    rw [here]
    exact Release.pendingStep empty
  | release here move | abandon here move =>
    exact along (by rw [here]; exact Release.talliedMove move) rfl rfl
  | establish here move => exact along (by rw [here]; exact Establish.talliedMove move) rfl rfl
  | @handle x rest here =>
    unfold handle
    split
    · have taken := talliedSwap (e := e) s.session.held s.recovery.held
      rw [here] at taken
      unfold holdings
      rw [here]
      exact taken
    · exact talliedSame (Env.asideRefl e)
  | @adopt l c h here =>
    have lost := coherent.replacing (by rw [here]; rfl)
    unfold holdings
    rw [here, heldSession coherent lost]
    unfold adopt
    split
    · rename_i closed
      have none := heldSession coherent lost
      rw [none]
      exact talliedSame (Env.asideRefl e)
    · exact talliedSwap .nothing (.ofLink l)

theorem talliedClosing {x y : Closing} (move : ClosingMove e s x f t y) :
    Tallied [s.session.held, x.held] [t.session.held, y.held] e f := by
  cases move with
  | raise => exact talliedSame (Env.asideRefl e)
  | take => exact talliedSwap s.session.held .nothing
  | release move => exact talliedBeside s.session.held (Release.talliedMove move)
  | released empty =>
    exact talliedBeside s.session.held
      (talliedIdle (Env.asideRefl e) (Release.pendingStep empty) rfl)

end Supervisor

end AmqpClient
