import AmqpClient.Proofs.Ownership
import AmqpClient.Proofs.Supervisor.Lifecycle
/-! What comes of a dial on the broker in memory. From the moment it begins nobody else is asked, so
what the broker will refuse decides whether a link with the whole topology on it is set up. -/
namespace AmqpClient

open Broker (Memory Store)

def Fact.accepted? : Fact → Option Declaration
  | .declared _ d (.ok ()) => some d
  | _ => none

namespace Env

def declarations {β : Type} (e : Env β) : List Declaration :=
  (e.journal.filterMap fun x => x.fact.accepted?).reverse

def account (e : Env Memory) : Account where
  dials := e.broker.dials
  declared := e.declarations
  failing := e.broker.failingDials
  refused := e.broker.refused

end Env

structure Scene where
  store : Store
  now : Instant
  account : Account

def Env.scene (e : Env Memory) : Scene := ⟨e.broker.store, e.now, e.account⟩

variable {e f : Env Memory}

def Env.Minds (before after : List ConnectionId) (e f : Env Memory) : Prop :=
  ∀ n, f.broker.store.openAt .connection n →
    n ∈ after ∨ (e.broker.store.openAt .connection n ∧ n ∉ before)

theorem Env.mindsMore {before after : List ConnectionId}
    (opened : ∀ n, f.broker.store.openAt .connection n → e.broker.store.openAt .connection n)
    (all : ∀ n ∈ before, n ∈ after) : e.Minds before after f := by
  intro n isOpen
  by_cases mine : n ∈ before
  · exact .inl (all n mine)
  · exact .inr ⟨opened n isOpen, mine⟩

theorem Env.mindsAmong {before after all more : List ConnectionId} (minds : e.Minds before after f)
    (kept : ∀ n ∈ all, n ∉ before → n ∈ more) (inside : ∀ n ∈ after, n ∈ more) :
    e.Minds all more f := by
  intro n isOpen
  rcases minds n isOpen with mine | ⟨old, other⟩
  · exact .inl (inside n mine)
  · by_cases among : n ∈ all
    · exact .inl (kept n among other)
    · exact .inr ⟨old, among⟩

namespace Release

def size (r : Release) : Nat := r.channel.toList.length + r.connection.toList.length

theorem sizeFew (r : Release) : r.size ≤ 2 := by
  have few (o : Option Nat) : o.toList.length ≤ 1 := by
    cases o
    · exact Nat.zero_le 1
    · exact Nat.le_refl 1
  exact Nat.add_le_add (few r.channel) (few r.connection)

theorem handsOff {r : Release} (empty : r.step e = none) : r.owns .connection = [] := by
  unfold step at empty
  split at empty
  · cases empty
  · cases empty
  · rename_i none
    unfold owns
    rw [none]
    rfl

structure Next (e : Env Memory) (r : Release) (f : Env Memory) (q : Release) : Prop where
  account : f.account = e.account
  now : f.now = e.now
  minds : e.Minds (r.owns .connection) (q.owns .connection) f
  smaller : q.size < r.size

theorem next {r q : Release} (move : Move e r f q) : Next e r f q := by
  cases move with
  | @channel c held =>
    have fewer (n : Nat) := Store.openShutChannel (s := e.broker.store) (r := .connection) (n := n)
      (k := c) (x := .silent)
    refine ⟨rfl, rfl, Env.mindsMore fewer fun _ => id, ?_⟩
    simp only [size, held, Option.toList_some, Option.toList_none, List.length_nil,
      List.length_singleton]
    omega
  | @connection c first held =>
    refine ⟨rfl, rfl, fun n isOpen => .inr ?_, ?_⟩
    · obtain ⟨apart, old⟩ := Store.openShutConnection (s := e.broker.store) (k := c) (x := .silent)
        isOpen
      have other : n ≠ c := fun same => apart ⟨rfl, same⟩
      refine ⟨old, ?_⟩
      simpa only [owns, held, Option.toList_some, List.mem_singleton] using other
    · simp only [size, first, held, Option.toList_some, Option.toList_none, List.length_nil,
        List.length_singleton]
      omega

end Release

namespace Link

def Latest (s : Store) (l : Link) : Prop := ∀ r, (s.ends r).length = l.id r + 1

structure Untouched (s : Store) (l : Link) : Prop where
  latest : l.Latest s
  isOpen : ∀ r, s.openAt r (l.id r)
  bare : ∀ r, s.Bare r (l.id r)

structure Guarded (s : Store) (l : Link) (c h : SignalId) : Prop where
  latest : l.Latest s
  connection : s.Armed .connection l.connection c
  channel : s.Armed .channel l.channel h
  unfired : ¬ s.fired c ∧ ¬ s.fired h

structure HalfGuarded (s : Store) (l : Link) (c : SignalId) : Prop where
  latest : l.Latest s
  connection : s.Armed .connection l.connection c
  isOpen : s.openAt .channel l.channel
  bare : s.Bare .channel l.channel
  unfired : ¬ s.fired c

variable {s t : Store} {l : Link}

theorem latestSame (size : Store.SameSize s t) (latest : l.Latest s) : l.Latest t :=
  fun r => (size r).trans (latest r)

theorem untouchedSame (same : Store.SameLinks s t) (untouched : l.Untouched s) : l.Untouched t := by
  have keeps : Store.Keeps (fun _ _ => False) s t := Store.keepsSame same
  refine ⟨latestSame (Store.sizeOfSame same) untouched.latest, fun r => ?_,
    fun r => Store.keptBare keeps not_false (untouched.bare r)⟩
  exact (Store.keptOpen keeps (Store.insideOfOpen (untouched.isOpen r)) not_false).mpr (untouched.isOpen r)

theorem untouchedOpenLink : s.openLink.2.Untouched s.openLink.1 := by
  refine ⟨fun r => ?_, fun r => ?_, fun r => ?_⟩
  · cases r <;> exact Store.sizeOpenLink _ s
  · cases r <;> exact Store.openLinkOpen _ s
  · cases r <;> exact Store.openLinkBare _ s

theorem halfGuarded (untouched : l.Untouched s) :
    l.HalfGuarded (s.watchConnection l.connection).1 (s.watchConnection l.connection).2 := by
  refine ⟨latestSame (Store.sizeWatchConnection _ _) untouched.latest,
    Store.armedWatchConnection (untouched.isOpen .connection),
    Store.openWatchConnection.mpr (untouched.isOpen .channel), ?_,
    Store.unfiredWatchConnection (untouched.bare .connection)⟩
  exact Store.keptBare (Store.keepsWatchConnection ..) (fun same => nomatch same.1)
    (untouched.bare .channel)

theorem guarded {c : SignalId} (half : l.HalfGuarded s c) :
    l.Guarded (s.watchChannel l.channel).1 c (s.watchChannel l.channel).2 := by
  refine ⟨latestSame (Store.sizeWatchChannel _ _) half.latest, ?_,
    Store.armedWatchChannel half.isOpen, fun fired => ?_, Store.unfiredWatchChannel half.bare⟩
  · exact Store.keptArmed (Store.keepsWatchChannel ..) (fun same => nomatch same.1) half.connection
  · exact half.unfired (Store.firedWatchChannel half.bare fired)

end Link

namespace Broker.Memory

variable {m : Memory} {c : ChannelId} {d : Declaration}

theorem acceptsOpen (isOpen : m.store.openAt .channel c) (name : String) : m.accepts c name =
    if m.refused.contains name then .error (.declareExchange name) else .ok () := by
  have isOpen : m.store.channelOpen c = true := isOpen
  unfold accepts
  rw [isOpen]
  rfl

theorem declareRefused (isOpen : m.store.openAt .channel c)
    (refused : m.refused.contains d.name = true) : ∃ x, m.declare c d = (m, .error x) := by
  have answer := (acceptsOpen isOpen d.name).trans (if_pos refused)
  cases d with
  | exchange x => exact ⟨_, congrArg (m, ·) answer⟩
  | queue q => exact ⟨_, congrArg (fun o : Outcome => (m, o.mapError fun _ => _)) answer⟩
  | bind b =>
    unfold declare
    dsimp only [Declaration.name] at answer ⊢
    rw [answer]
    exact ⟨_, rfl⟩

theorem declareAccepted (isOpen : m.store.openAt .channel c)
    (free : m.refused.contains d.name = false) : ∃ s, Store.SameLinks m.store s ∧
      m.declare c d = ({ m with store := s }, .ok ()) := by
  have answer := (acceptsOpen isOpen d.name).trans
    (if_neg fun refused => Bool.false_ne_true (free.symm.trans refused))
  cases d with
  | exchange x => exact ⟨m.store, Store.sameLinksRefl _, congrArg (m, ·) answer⟩
  | queue q =>
    exact ⟨m.store, Store.sameLinksRefl _,
      congrArg (fun o : Outcome => (m, o.mapError fun _ => _)) answer⟩
  | bind b =>
    have links := sameDeclare c (.bind b) m
    unfold declare at links ⊢
    dsimp only [Declaration.name] at answer links ⊢
    rw [answer] at links ⊢
    exact ⟨_, links, rfl⟩

theorem dialRefused (failing : 0 < m.failingDials) : m.dial =
    ({ m with dials := m.dials + 1, failingDials := m.failingDials - 1 },
      .error (.connect "connection refused")) := if_pos failing

theorem dialAnswered (failing : ¬ 0 < m.failingDials) : m.dial =
    ({ m with dials := m.dials + 1, store := m.store.openLink.1 }, .ok m.store.openLink.2) :=
  if_neg failing

end Broker.Memory

theorem Env.declareAnswer {c : ChannelId} {d : Declaration} {o : Outcome}
    (isOpen : e.broker.store.openAt .channel c) (answer : e.declare c d = (f, o)) :
    f.now = e.now ∧ Store.SameLinks e.broker.store f.broker.store ∧
      if e.account.refused.contains d.name then (∃ x, o = .error x) ∧ f.account = e.account
      else o = .ok () ∧ f.account = { e.account with declared := e.account.declared ++ [d] } := by
  cases refused : e.account.refused.contains d.name with
  | true =>
    obtain ⟨x, made⟩ := Broker.Memory.declareRefused isOpen refused
    have same : e.declare c d = ((e.withBroker e.broker).record (.declared c d (.error x)), .error x) :=
      congrArg (fun r : Memory × Outcome => ((e.withBroker r.1).record (.declared c d r.2), r.2)) made
    cases same.symm.trans answer
    exact ⟨rfl, Store.sameLinksRefl _, ⟨x, rfl⟩, rfl⟩
  | false =>
    obtain ⟨s, links, made⟩ := Broker.Memory.declareAccepted isOpen refused
    have same : e.declare c d = ((e.withBroker { e.broker with store := s }).record
        (.declared c d (.ok ())), .ok ()) :=
      congrArg (fun r : Memory × Outcome => ((e.withBroker r.1).record (.declared c d r.2), r.2)) made
    cases same.symm.trans answer
    refine ⟨rfl, links, rfl, ?_⟩
    exact congrArg (fun l : List Declaration => { e.account with declared := l }) List.reverse_cons

namespace Establish

def outcome (plan : List Declaration) (a : Account) : Establish → Account × Bool
  | .start => a.dial plan
  | .dialing .. => a.dial plan
  | .installing _ rest => a.install rest
  | .discarding .. => (a, false)
  | .failed _ => (a, false)
  | .watchingConnection _ => (a, true)
  | .watchingChannel .. => (a, true)
  | .ready .. => (a, true)

def Fits (x : Scene) : Establish → Prop
  | .dialing _ ends => ends ≤ x.now
  | .installing l _ => l.Untouched x.store
  | .watchingConnection l => l.Untouched x.store
  | .watchingChannel l c => l.HalfGuarded x.store c
  | .ready l c h => l.Guarded x.store c h
  | _ => True

def load (plan : List Declaration) : Establish → Nat
  | .start => plan.length + 18
  | .dialing .. => plan.length + 17
  | .installing _ rest => rest.length + 16
  | .watchingConnection _ => 15
  | .watchingChannel .. => 14
  | .ready .. => 13
  | .discarding r _ => r.size + 4
  | .failed _ => 3

structure Next (plan : List Declaration) (e : Env Memory) (x : Establish) (f : Env Memory)
    (y : Establish) : Prop where
  now : f.now = e.now
  fits : y.Fits f.scene
  outcome : y.outcome plan f.account = x.outcome plan e.account
  minds : e.Minds (x.owns .connection) (y.owns .connection) f
  smaller : y.load plan < x.load plan

variable {client : String} {t : Topology} {x y : Establish}

theorem nextDialing {number : Nat} {ends : Instant} {r : Except Error Link}
    (answer : e.dial client number = (f, r)) :
    (∃ l, r = .ok l ∧ Next t.plan e (.dialing number ends) f (.installing l t.plan)) ∨
      ∃ x, r = .error x ∧ Next t.plan e (.dialing number ends) f (.failed x) := by
  have asked (b : Memory × Except Error Link) (made : e.broker.dial = b) : e.dial client number =
      ((e.withBroker b.1).record (.dialed client number b.2), b.2) :=
    congrArg (fun r : Memory × Except Error Link =>
      ((e.withBroker r.1).record (.dialed client number r.2), r.2)) made
  by_cases failing : 0 < e.broker.failingDials
  · cases (asked _ (Broker.Memory.dialRefused failing)).symm.trans answer
    have refused : e.account.dial t.plan = ({ e.account with
        dials := e.account.dials + 1, failing := e.account.failing - 1 }, false) := if_pos failing
    exact .inr ⟨_, rfl, rfl, trivial, refused.symm, Env.mindsMore (fun _ => id) fun _ => id,
      Nat.lt_of_lt_of_le (show 3 < 17 by decide) (Nat.le_add_left 17 _)⟩
  · cases (asked _ (Broker.Memory.dialAnswered failing)).symm.trans answer
    have installs : e.account.dial t.plan =
        { e.account with dials := e.account.dials + 1 }.install t.plan := if_neg failing
    refine .inl ⟨_, rfl, rfl, Link.untouchedOpenLink, installs.symm, fun n isOpen => ?_,
      Nat.lt_succ_self _⟩
    rcases Store.openOpenLink isOpen with same | old
    · exact .inl (List.mem_singleton.mpr same)
    · exact .inr ⟨old, List.not_mem_nil⟩

theorem next (move : Move client t e x f y) (fits : x.Fits e.scene) : Next t.plan e x f y := by
  cases move with
  | start =>
    exact ⟨rfl, Nat.le_refl _, rfl, Env.mindsMore (fun _ => id) fun _ => id, Nat.lt_succ_self _⟩
  | dialed _ answer =>
    rcases nextDialing answer with ⟨l, same, next⟩ | ⟨x, same, -⟩ <;> cases same
    exact next
  | refused _ answer =>
    rcases nextDialing answer with ⟨l, same, -⟩ | ⟨x, same, next⟩ <;> cases same
    exact next
  | installed =>
    exact ⟨rfl, fits, rfl, Env.mindsMore (fun _ => id) fun _ => id, Nat.lt_succ_self _⟩
  | @declared l d rest f answer =>
    obtain ⟨now, same, made⟩ := Env.declareAnswer (fits.isOpen .channel) answer
    split at made
    · obtain ⟨⟨x, other⟩, -⟩ := made
      cases other
    · rename_i free
      have installs : e.account.install (d :: rest) = f.account.install rest := by
        rw [made.2]
        exact if_neg free
      refine ⟨now, Link.untouchedSame same fits, installs.symm, Env.mindsMore (fun n isOpen => ?_)
        fun _ => id, Nat.lt_succ_self _⟩
      exact (Store.keptOpen (Store.keepsSame same)
        (Store.sizeOfSame same .connection ▸ Store.insideOfOpen isOpen) not_false).mp isOpen
  | @undeclared l d rest f x answer =>
    obtain ⟨now, same, made⟩ := Env.declareAnswer (fits.isOpen .channel) answer
    split at made
    · rename_i refused
      have stops : e.account.install (d :: rest) = (f.account, false) := by
        rw [made.2]
        exact if_pos refused
      refine ⟨now, trivial, stops.symm, Env.mindsMore (fun n isOpen => ?_) fun _ => id, ?_⟩
      · exact (Store.keptOpen (Store.keepsSame same)
          (Store.sizeOfSame same .connection ▸ Store.insideOfOpen isOpen) not_false).mp isOpen
      · exact Nat.lt_of_lt_of_le (show 6 < 16 by decide) (Nat.le_add_left 16 _)
    · cases made.1
  | discard move =>
    have made := Release.next move
    exact ⟨made.now, trivial, congrArg (·, false) made.account, made.minds,
      Nat.add_lt_add_right made.smaller 4⟩
  | @discarded r x empty =>
    have none := Release.handsOff empty
    refine ⟨rfl, trivial, rfl, Env.mindsMore (fun _ => id) fun n mem => ?_,
      Nat.lt_of_lt_of_le (Nat.lt_succ_self 3) (Nat.le_add_left 4 _)⟩
    have mem : n ∈ r.owns .connection := mem
    rw [none] at mem
    cases mem
  | @watchConnection l =>
    exact ⟨rfl, Link.halfGuarded fits, rfl,
      Env.mindsMore (fun _ => Store.openWatchConnection.mp) fun _ => id, Nat.lt_succ_self _⟩
  | @watchChannel l c =>
    exact ⟨rfl, Link.guarded fits, rfl,
      Env.mindsMore (fun _ => Store.openWatchChannel.mp) fun _ => id, Nat.lt_succ_self _⟩

end Establish

end AmqpClient
