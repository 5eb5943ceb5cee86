import AmqpClient.Proofs.Answers
import AmqpClient.Proofs.Hands
import AmqpClient.Proofs.Sessions
import Mathlib.Data.List.Nodup
import Mathlib.Data.List.Perm.Subperm
/-! What becomes of every pair that a dial returned. It is the pair of a connected session, or an
operation that is in progress has it, or its channel and then its connection was closed, once each;
and where no operation can go on, only sessions have pairs. -/
namespace AmqpClient

open scoped List

variable {β : Type} {e : Env β} {l k : Link} {r : Resource} {n : Nat}

def Fact.link? : Fact → Option Link
  | .dialed _ _ (.ok l) => some l
  | _ => none

namespace Env

def links (e : Env β) : List Link := e.facts.filterMap Fact.link?

def Distinct (e : Env β) : Prop := ∀ r, (e.links.map (Link.id r)).Nodup

structure Released (e : Env β) (l : Link) : Prop where
  channel : e.closed .channel l.channel = 1
  connection : e.closed .connection l.connection = 1
  order : ∃ client number p q, [.closedConnection l.connection q, .closedChannel l.channel p,
    .dialed client number (.ok l)] <+ e.facts

def Untouched (e : Env β) (l : Link) : Prop := ∀ r, e.closed r (l.id r) = 0

theorem memLinks : l ∈ e.links ↔ ∃ client number, .dialed client number (.ok l) ∈ e.facts := by
  unfold links
  rw [List.mem_filterMap]
  constructor
  · rintro ⟨x, mem, link⟩
    unfold Fact.link? at link
    split at link
    · cases link; exact ⟨_, _, mem⟩
    · cases link
  · rintro ⟨client, number, mem⟩
    exact ⟨_, mem, rfl⟩

theorem openedCount : e.opened r n = (e.links.map (Link.id r)).count n := by
  have reads (x : Fact) : x.opens r n = (x.link?.map fun l => l.id r == n).getD false := by
    cases x with
    | dialed _ _ o => cases o <;> rfl
    | _ => rfl
  unfold opened links facts List.count
  rw [List.countP_map, List.countP_filterMap, List.countP_map]
  exact List.countP_congr fun x _ => by rw [reads]; rfl

theorem openedOnce (distinct : e.Distinct) (mem : l ∈ e.links) (r : Resource) :
    e.opened r (l.id r) = 1 := by
  rw [openedCount]
  exact List.count_eq_one_of_mem (distinct r) (List.mem_map_of_mem mem)

theorem sameLink (distinct : e.Distinct) (mem : l ∈ e.links) (other : k ∈ e.links)
    (same : k.id r = l.id r) : k = l :=
  List.inj_on_of_nodup_map (distinct r) other mem same

theorem closedFact (closed : e.closed .connection n ≠ 0) :
    ∃ q, Fact.closedConnection n q ∈ e.facts := by
  obtain ⟨x, mem, closes⟩ := List.countP_pos_iff.mp (Nat.pos_of_ne_zero closed)
  obtain ⟨time, fact⟩ := x
  cases fact with
  | closedConnection k q =>
    have same : k = n := (of_decide_eq_true closes).2
    exact ⟨q, same ▸ List.mem_map_of_mem mem⟩
  | closedChannel => simp [Fact.closes] at closes
  | _ => cases closes

theorem closedOf {m : Nat} {p : Outcome} (mem : Fact.closedChannel m p ∈ e.facts) :
    e.closed .channel m ≠ 0 := by
  obtain ⟨x, inside, here⟩ := List.mem_map.mp mem
  refine Nat.ne_of_gt (List.countP_pos_iff.mpr ⟨x, inside, ?_⟩)
  rw [here]
  exact decide_eq_true ⟨rfl, rfl⟩

end Env

theorem massPos {hs : List Release} (held : mass r n hs ≠ 0) : ∃ h ∈ hs, n ∈ h.owns r := by
  refine Classical.byContradiction fun none => held (totalZero fun h mem => ?_)
  exact List.count_eq_zero.mpr fun inside => none ⟨h, mem, inside⟩

theorem ownsConnection {h : Release} : n ∈ h.owns .connection ↔ h.connection = some n :=
  Option.mem_toList

def Client.Returned (c : Client) : Prop := ∃ x ∈ c.calls, ∃ o, x.closing? = some (.done o)

structure Client.Rests (c : Client) : Prop where
  recovery : c.supervisor.recovery.handling = false
  calls : ∀ x ∈ c.calls, ∀ r, x.closing? ≠ some (.releasing r)

theorem lengthOwns {hs : List Release} :
    (hs.flatMap (Release.owns r)).length ≤ hs.countP Release.pending := by
  induction hs with
  | nil => exact Nat.le_refl 0
  | cons h rest ih =>
    rw [List.flatMap_cons, List.length_append, List.countP_cons]
    cases full : h.pending with
    | false =>
      rw [Release.pendingOwns full, List.length_nil]
      omega
    | true =>
      have one : (h.owns r).length ≤ 1 := by
        cases r <;> exact Option.length_toList_le
      rw [if_pos rfl]
      omega

namespace World

variable [Broker β] {outside : β → β → Prop} {w v : World β}

def Current (w : World β) (l : Link) : Prop :=
  ∃ c ∈ w.clients, c.supervisor.session.state = .connected ∧ c.supervisor.session.link? = some l

inductive InProgress (w : World β) (l : Link) : Prop where
  | opening {o x} (mem : o ∈ w.openings) (here : o.phase = .establishing x)
      (handling : x.handling = true) (held : x.held.connection = some l.connection)
  | recovery {c} (mem : c ∈ w.clients) (handling : c.supervisor.recovery.handling = true)
      (held : c.supervisor.recovery.held.connection = some l.connection)
  | closing {c x r} (mem : c ∈ w.clients) (call : x ∈ c.calls)
      (here : x.closing? = some (.releasing r)) (held : r.connection = some l.connection)

theorem releasedOf (reached : Reachable outside w) (distinct : w.env.Distinct)
    (mem : l ∈ w.env.links) (closed : w.env.closed .connection l.connection ≠ 0) :
    w.env.Released l := by
  obtain ⟨n, m⟩ := l
  have ledger := ledgerReached reached
  have once (r : Resource) (some : w.env.closed r (Link.id r ⟨n, m⟩) ≠ 0) :
      w.env.closed r (Link.id r ⟨n, m⟩) = 1 := by
    have opened := Env.openedOnce distinct mem r
    have balance := ledger.balance r (Link.id r ⟨n, m⟩)
    omega
  obtain ⟨q, fact⟩ := Env.closedFact closed
  obtain ⟨m', p, client, number, order⟩ := ledger.ordered _ q fact
  have dialed : Link.mk n m' ∈ w.env.links :=
    Env.memLinks.mpr ⟨client, number, order.subset (by simp)⟩
  cases Env.sameLink (r := .connection) distinct mem dialed rfl
  have channel := Env.closedOf (order.subset (List.mem_cons_of_mem _ List.mem_cons_self))
  exact ⟨once .channel channel, once .connection closed, client, number, p, q, order⟩

omit [Broker β] in
theorem handOf {h : Release} (mem : h ∈ w.holdings) : (∃ o ∈ w.openings, h = o.held) ∨
    ∃ c ∈ w.clients, h = c.supervisor.session.held ∨ h = c.supervisor.recovery.held ∨
      ∃ x ∈ c.calls, h = x.held := by
  rcases List.mem_append.mp mem with opening | client
  · obtain ⟨o, inside, rfl⟩ := List.mem_map.mp opening
    exact .inl ⟨o, inside, rfl⟩
  · obtain ⟨c, there, inside⟩ := List.mem_flatMap.mp client
    refine .inr ⟨c, there, ?_⟩
    rcases List.mem_append.mp inside with supervisor | call
    · simp only [Supervisor.holdings, List.mem_cons, List.not_mem_nil, or_false] at supervisor
      exact supervisor.imp_right .inl
    · obtain ⟨x, made, rfl⟩ := List.mem_map.mp call
      exact .inr (.inr ⟨x, made, rfl⟩)

theorem currentOf (reached : Reachable outside w) (distinct : w.env.Distinct)
    (mem : l ∈ w.env.links) {c : Client} (client : c ∈ w.clients)
    (held : c.supervisor.session.connection = some l.connection) :
    w.env.Untouched l ∧ w.Current l := by
  obtain ⟨i, found⟩ := List.getElem?_of_mem client
  have ledger := ledgerReached reached
  have coherent := Supervisor.coherentReachable reached found
  have connected : c.supervisor.session.state = .connected := by
    have present := coherent.connection
    rw [held] at present
    exact beq_iff_eq.mp present.symm
  obtain ⟨k, link, mine⟩ := Supervisor.sessionWhole coherent connected
  have hand : .ofLink k ∈ w.holdings := by
    rw [← mine]
    exact List.mem_append_right _ (List.mem_flatMap.mpr ⟨c, client, List.mem_cons_self⟩)
  have dialed : k ∈ w.env.links := by
    cases ledger.backed _ hand with
    | whole dialed => exact Env.memLinks.mpr ⟨_, _, dialed⟩
  have same : some k.connection = some l.connection :=
    (congrArg Release.connection mine).symm.trans held
  obtain rfl : k = l := Env.sameLink (r := .connection) distinct mem dialed (Option.some.inj same)
  refine ⟨fun r => ?_, c, client, connected, link⟩
  -- Both are in the session's hands, so that a close call would be one too many.
  have opened := Env.openedOnce distinct mem r
  have balance := ledger.balance r (k.id r)
  have here := leTotal (f := fun h => (Release.owns r h).count (k.id r)) hand
  have one : (Release.owns r (.ofLink k)).count (k.id r) = 1 := by
    cases r <;> exact List.count_singleton_self
  unfold mass at balance
  omega

theorem placed (reached : Reachable outside w) (distinct : w.env.Distinct)
    (mem : l ∈ w.env.links) : w.env.Released l ∨ (w.env.Untouched l ∧ w.Current l) ∨
      (w.env.closed .connection l.connection = 0 ∧ w.InProgress l) := by
  by_cases closed : w.env.closed .connection l.connection = 0
  · right
    have opened : w.env.opened .connection l.connection = 1 :=
      Env.openedOnce distinct mem .connection
    have balance := (ledgerReached reached).balance .connection l.connection
    have owed : mass .connection l.connection w.holdings ≠ 0 := by omega
    obtain ⟨h, inside, owned⟩ := massPos owed
    have held := ownsConnection.mp owned
    have full : h.pending = true := by
      unfold Release.pending
      rw [held]
      exact Bool.or_true _
    rcases handOf inside with ⟨o, opening, rfl⟩ | ⟨c, client, rfl | rfl | ⟨x, call, rfl⟩⟩
    · right
      unfold Opening.held at held
      split at held
      · rename_i x here
        unfold Opening.held at full
        rw [here] at full
        exact ⟨closed, .opening opening here (Establish.handlingHeld full) held⟩
      · cases held
    · exact .inl (currentOf reached distinct mem client held)
    · exact .inr ⟨closed, .recovery client (Supervisor.handlingHeld full) held⟩
    · obtain ⟨r, here, -⟩ := Call.releasingOf full
      rw [Call.heldAt here] at held
      exact .inr ⟨closed, .closing client call here held⟩
  · exact .inl (releasedOf reached distinct mem closed)

structure Rests (w : World β) : Prop where
  openings : ∀ o ∈ w.openings, ∀ x, o.phase = .establishing x → x.handling = false
  clients : ∀ c ∈ w.clients, c.Rests

structure Tidy (w : World β) : Prop where
  placed : ∀ l ∈ w.env.links, w.env.Released l ∨ (w.env.Untouched l ∧ w.Current l) ∨
    (w.env.closed .connection l.connection = 0 ∧ w.InProgress l)
  settled : w.Quiet ∨ w.Rests → ∀ l ∈ w.env.links,
    w.env.Released l ∨ (w.env.Untouched l ∧ w.Current l)
  single : ∀ c ∈ w.clients, c.holdings.countP Release.pending ≤ 1
  few : (w.env.links.filter fun l => w.env.closed .connection l.connection = 0).length ≤
    w.openings.length
  emptied : ∀ c ∈ w.clients, c.Returned → w.Quiet ∨ c.Rests →
    c.holdings.countP Release.pending = 0
  closed : w.Quiet ∨ w.Rests → (∀ c ∈ w.clients, c.Returned) → ∀ l ∈ w.env.links, w.env.Released l

/-- A call closes the pair that it finds in the session and returns the first error of that. A pair
that the recovery has in hand, or another call, is closed by whoever has it. -/
structure Answered (outside : β → β → Prop) (w : World β) : Prop where
  first : ∀ i j c x preferStop v u d y o, w.clients[i]? = some c → c.calls[j]? = some x →
    x.closing? = some .taking → w.step (.client i (.call j)) preferStop = some v →
    Run (Use outside) v u → u.clients[i]? = some d → d.calls[j]? = some y →
    y.closing? = some (.done o) → Answer w.env u.env c.supervisor.session.link? o ∧
      (c.supervisor.session.state ≠ .closed → u.Quiet ∨ d.supervisor.recovery.handling = false →
        d.holdings.countP Release.pending = 0)
  later : ∀ i j c x u, w.clients[i]? = some c → c.supervisor.session.state = .closed →
    c.calls[j]? = some x → (x.closing? = some .raising ∨ x.closing? = some .taking) →
    Run (Use outside) w u → ∃ d y a, u.clients[i]? = some d ∧ d.calls[j]? = some y ∧
      y.closing? = some a ∧ a.Empty ∧
      ∀ preferStop v, u.step (.client i (.call j)) preferStop = some v → Passes i j d u v
  returned : w.Quiet → ∀ c ∈ w.clients, ∀ x ∈ c.calls, ∀ a, x.closing? = some a → ∃ o, a = .done o

theorem answered (reached : Reachable outside w) : w.Answered outside := by
  refine ⟨?_, ?_, fun quiet c mem => ((quietHands reached quiet).2 c mem).2⟩
  · intro i j c x preferStop v u d y o found here inside made run there call done
    obtain ⟨d', y', b, there', call', within, follows⟩ :=
      takenAnswered reached found here inside made run
    cases there.symm.trans there'
    cases call.symm.trans call'
    cases done.symm.trans within
    refine ⟨answerOf follows, fun opened rested => ?_⟩
    have later := reachableRun (reachableNext reached (.act ⟨_, _, made⟩)) run
    obtain ⟨closed, calls⟩ := takenOver reached found opened here inside made run there call done
    refine Client.emptyHands (Supervisor.coherentReachable later there) closed ?_ calls
    rcases rested with quiet | rested
    · exact ((quietHands later quiet).2 d (List.mem_of_getElem? there)).1
    · refine Bool.eq_false_iff.mpr fun full => ?_
      rw [Supervisor.handlingHeld full] at rested
      cases rested
  · intro i j c x u found closed here inside run
    obtain ⟨a, within, empty⟩ : ∃ a, x.closing? = some a ∧ a.Empty := by
      rcases inside with same | same
      · exact ⟨_, same, trivial⟩
      · exact ⟨_, same, trivial⟩
    obtain ⟨d, y, b, there, shut, call, within, empty⟩ :=
      emptyRun reached run found closed here within empty
    exact ⟨d, y, b, there, call, within, empty, fun _ _ made =>
      emptyPasses (reachableRun reached run) there shut call within empty made⟩

theorem restingHands (reached : Reachable outside w) {c : Client} (mem : c ∈ w.clients)
    (rested : w.Quiet ∨ c.Rests) : c.supervisor.recovery.held.pending = false ∧
      ∀ x ∈ c.calls, x.pending = false := by
  rcases rested with quiet | rests
  · obtain ⟨recovery, calls⟩ := (quietHands reached quiet).2 c mem
    refine ⟨recovery, fun x call => Bool.eq_false_iff.mpr fun owes => ?_⟩
    obtain ⟨r, here, -⟩ := Call.releasingOf owes
    obtain ⟨o, done⟩ := calls x call _ here
    cases done
  · refine ⟨Bool.eq_false_iff.mpr fun full => ?_,
      fun x call => Bool.eq_false_iff.mpr fun owes => ?_⟩
    · have handling := Supervisor.handlingHeld full
      rw [rests.recovery] at handling
      cases handling
    · obtain ⟨r, here, -⟩ := Call.releasingOf owes
      exact rests.calls x call r here

theorem settledOf (reached : Reachable outside w) (rested : w.Quiet ∨ w.Rests) :
    ¬ w.InProgress l := by
  have full {h : Release} (held : h.connection = some l.connection) : h.pending = true := by
    unfold Release.pending
    rw [held]
    exact Bool.or_true _
  intro busy
  cases busy with
  | @opening o x mem here handling held =>
    rcases rested with quiet | rests
    · have idle := (quietHands reached quiet).1 o mem
      unfold Opening.held at idle
      rw [here] at idle
      rw [full held] at idle
      cases idle
    · rw [rests.openings o mem x here] at handling
      cases handling
  | @recovery c mem handling held =>
    have idle := (restingHands reached mem (rested.imp_right fun rests => rests.clients c mem)).1
    rw [full held] at idle
    cases idle
  | @closing c x r mem call here held =>
    have alone := rested.imp_right fun rests => rests.clients c mem
    have idle := (restingHands reached mem alone).2 x call
    unfold Call.pending at idle
    rw [Call.heldAt here, show (Closing.releasing r).held.pending = true from full held] at idle
    cases idle

theorem returnedClosed (reached : Reachable outside w) {c : Client} (mem : c ∈ w.clients)
    (returned : c.Returned) : c.supervisor.session.state = .closed := by
  obtain ⟨i, found⟩ := List.getElem?_of_mem mem
  obtain ⟨x, call, o, done⟩ := returned
  refine (Client.closingsReachable reached found).2.taken x call ?_
  rw [Call.stageAt done]
  exact Nat.lt_succ_of_lt (Nat.lt_succ_self 1)

theorem emptiedOf (reached : Reachable outside w) {c : Client} (mem : c ∈ w.clients)
    (returned : c.Returned) (rested : w.Quiet ∨ c.Rests) :
    c.holdings.countP Release.pending = 0 := by
  obtain ⟨i, found⟩ := List.getElem?_of_mem mem
  obtain ⟨recovery, calls⟩ := restingHands reached mem rested
  exact Client.emptyHands (Supervisor.coherentReachable reached found)
    (returnedClosed reached mem returned) recovery calls

theorem unclosedFew (reached : Reachable outside w) (distinct : w.env.Distinct) :
    (w.env.links.filter fun l => w.env.closed .connection l.connection = 0).length ≤
      w.openings.length := by
  let unclosed := (w.env.links.filter fun l => w.env.closed .connection l.connection = 0).map
    (Link.id .connection)
  have apart : unclosed.Nodup := (distinct .connection).sublist (List.filter_sublist.map _)
  have inHand : unclosed ⊆ w.holdings.flatMap (Release.owns .connection) := by
    intro n mem
    obtain ⟨l, kept, rfl⟩ := List.mem_map.mp mem
    obtain ⟨dialed, left⟩ := List.mem_filter.mp kept
    have opened := Env.openedOnce distinct dialed .connection
    have balance := (ledgerReached reached).balance .connection (l.id .connection)
    have none : w.env.closed .connection (l.id .connection) = 0 := of_decide_eq_true left
    exact List.mem_flatMap.mpr (massPos (by omega))
  calc (w.env.links.filter fun l => w.env.closed .connection l.connection = 0).length
    _ = unclosed.length := (List.length_map ..).symm
    _ ≤ (w.holdings.flatMap (Release.owns .connection)).length :=
      (List.subperm_of_subset apart inHand).length_le
    _ ≤ w.holdings.countP Release.pending := lengthOwns
    _ ≤ w.openings.length := fewHands reached

theorem tidy (reached : Reachable outside w) (distinct : w.env.Distinct) : w.Tidy := by
  have settled (rested : w.Quiet ∨ w.Rests) (l : Link) (mem : l ∈ w.env.links) :
      w.env.Released l ∨ (w.env.Untouched l ∧ w.Current l) := by
    rcases placed reached distinct mem with released | current | busy
    · exact .inl released
    · exact .inr current
    · exact absurd busy.2 (settledOf reached rested)
  refine ⟨fun l mem => placed reached distinct mem, settled, fun c mem => ?_,
    unclosedFew reached distinct, fun c mem => emptiedOf reached mem,
    fun rested returned l mem => ?_⟩
  · obtain ⟨i, found⟩ := List.getElem?_of_mem mem
    obtain ⟨coherent, closings⟩ := Client.closingsReachable reached found
    exact Client.singleHanded coherent closings
  · rcases settled rested l mem with released | ⟨-, c, client, connected, -⟩
    · exact released
    · rw [returnedClosed reached client (returned c client)] at connected
      cases connected

/-- The books are in order in every world of every run; no pair is lost or closed twice if no dial
returns what another returned; and every call that closes a supervisor returns what it should. -/
theorem pairsClosedOnce (reached : Reachable outside w) :
    w.Ledger ∧ (w.env.Distinct → w.Tidy) ∧ w.Answered outside :=
  ⟨ledgerReached reached, tidy reached, answered reached⟩

open Broker (Memory)

def installing : World Memory :=
  (drive (.client 0 .recovery) 4 false (online.drop.settle.advance 5000)).2

def closedMeanwhile : World Memory := (installing.call 0 (.close .raising)).settle

def plain (c : Client) : Bool :=
  match c.role with
  | .supervisor => true
  | _ => false

theorem reachableClose {w : World Memory} {outside : Memory → Memory → Prop}
    (reached : Reachable outside w)
    (seen : (w.clients[0]?.any fun c => c.held && plain c) = true) :
    Reachable outside (w.call 0 (.close .raising)) := by
  obtain ⟨c, found, seen⟩ := (Option.any_eq_true _ _).mp seen
  obtain ⟨held, kind⟩ := Bool.and_eq_true_iff.mp seen
  refine reachableNext reached (.call _ found held ?_)
  unfold plain at kind
  split at kind
  · rename_i role; rw [role]; trivial
  · cases kind

theorem installingReached : Reachable Drops installing := reachableDriven pauseReached _ 4

theorem closedMeanwhileReached : Reachable Drops closedMeanwhile :=
  reachableSettled (reachableClose installingReached (by decide +kernel))

theorem returnedSeen {w : World Memory} (seen : (w.clients.all fun c => c.calls.any fun x =>
    (x.closing?.bind Closing.outcome?).isSome) = true) : ∀ c ∈ w.clients, c.Returned := by
  intro c mem
  obtain ⟨x, call, ended⟩ := List.any_eq_true.mp (List.all_eq_true.mp seen c mem)
  obtain ⟨o, outcome⟩ := Option.isSome_iff_exists.mp ended
  obtain ⟨a, here, done⟩ := Option.bind_eq_some_iff.mp outcome
  cases a <;> cases done
  exact ⟨x, call, o, here⟩

theorem closedMeanwhileOnce : closedMeanwhile.Quiet ∧ closedMeanwhile.env.Distinct ∧
    closedMeanwhile.env.links = [⟨1, 1⟩, ⟨0, 0⟩] ∧
    (∀ c ∈ closedMeanwhile.clients, c.Returned) ∧
    (∀ l ∈ closedMeanwhile.env.links, closedMeanwhile.env.Released l) ∧
    closedMeanwhile.Answered Drops := by
  have quiet : closedMeanwhile.Quiet := quietSeen (by decide +kernel)
  have distinct : closedMeanwhile.env.Distinct := fun r => by cases r <;> decide +kernel
  have returned : ∀ c ∈ closedMeanwhile.clients, c.Returned := returnedSeen (by decide +kernel)
  obtain ⟨-, tidy, answered⟩ := pairsClosedOnce closedMeanwhileReached
  exact ⟨quiet, distinct, by decide +kernel, returned,
    (tidy distinct).closed (.inl quiet) returned, answered⟩

def dials (w : World Memory) : Bool :=
  (w.openings.any fun o =>
    match o.phase with
    | .establishing (.dialing ..) => true
    | _ => false) ||
  w.clients.any fun c =>
    match c.supervisor.recovery with
    | .establishing (.dialing ..) => true
    | _ => false

structure LeftOpen (w : World Memory) (l : Link) : Prop where
  reached : Reachable Drops w
  distinct : w.env.Distinct
  returned : ∀ c ∈ w.clients, c.Returned
  dialed : w.dials = false
  mem : l ∈ w.env.links
  untouched : w.env.Untouched l

theorem leftOpen {w : World Memory} {l : Link} (reached : Reachable Drops w)
    (returned : (w.clients.all fun c => c.calls.any fun x =>
      (x.closing?.bind Closing.outcome?).isSome) = true)
    (dialed : w.dials = false)
    (links : ∀ r ∈ [Resource.connection, .channel],
      (w.env.links.map (Link.id r)).Nodup ∧ l ∈ w.env.links ∧ w.env.closed r (l.id r) = 0) :
    w.LeftOpen l where
  reached := reached
  distinct r := (links r (by cases r <;> simp)).1
  returned := returnedSeen returned
  dialed := dialed
  mem := (links .channel (by simp)).2.1
  untouched r := (links r (by cases r <;> simp)).2.2

def closedBy (j : Nat) (w : World Memory) : World Memory :=
  (drive (.client 0 (.call j)) stepBound false (w.call 0 (.close .raising))).2

theorem closedByReached {w : World Memory} (reached : Reachable Drops w)
    (seen : (w.clients[0]?.any fun c => c.held && plain c) = true) (j : Nat) :
    Reachable Drops (closedBy j w) :=
  reachableDriven (reachableClose reached seen) _ _

def recoverOn (w : World Memory) : World Memory := (drive (.client 0 .recovery) 1 false w).2

def lossTaken : World Memory :=
  recoverOn (drive (.client 0 (.watcher 0)) 1 false online.drop).2

def redialing : World Memory :=
  (drive (.client 0 .recovery) 2 false (online.drop.settle.advance 5000)).2

def closeBegun : World Memory :=
  (drive (.client 0 (.call 0)) 2 false (online.call 0 (.close .raising))).2

/-- A close call does not wait for a pair that another task has in hand: the lost one that is being
released, the new one that the topology is yet to be declared on, be it dialed before the close or
after it, and the one that another close call has taken. -/
theorem returnedUnclosed : (closedBy 0 lossTaken).LeftOpen ⟨0, 0⟩ ∧
    (closedBy 0 (recoverOn redialing)).LeftOpen ⟨1, 1⟩ ∧
    (recoverOn (closedBy 0 redialing)).LeftOpen ⟨1, 1⟩ ∧
    (closedBy 1 closeBegun).LeftOpen ⟨0, 0⟩ := by
  have taken : Reachable Drops lossTaken := reachableDriven (reachableDriven dropReached _ 1) _ 1
  have dialing : Reachable Drops redialing := reachableDriven pauseReached _ 2
  have begun : Reachable Drops closeBegun :=
    reachableDriven (reachableClose onlineReached (by decide +kernel)) _ 2
  refine ⟨leftOpen (closedByReached taken (by decide +kernel) 0) ?_ ?_ ?_,
    leftOpen (closedByReached (reachableDriven dialing _ 1) (by decide +kernel) 0) ?_ ?_ ?_,
    leftOpen (reachableDriven (closedByReached dialing (by decide +kernel) 0) _ 1) ?_ ?_ ?_,
    leftOpen (closedByReached begun (by decide +kernel) 1) ?_ ?_ ?_⟩ <;> decide +kernel

end World

end AmqpClient
