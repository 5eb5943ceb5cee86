import AmqpClient.Proofs.Consumer.Tasks
import AmqpClient.Proofs.Notice
import AmqpClient.Proofs.Requests
import AmqpClient.Proofs.Subscriptions
/-! Links that nothing befalls from outside. The clients close without a report, and watch nothing
twice, so that no step of theirs fires a signal; what is closed stays closed, and the broker goes on
to accept what it accepted. -/
namespace AmqpClient

open Broker (Memory Store Commanded)

theorem Broker.sizeCommand {m n : Memory} (commanded : Commanded m n) :
    Store.SameSize m.store n.store := by
  have shut (x : Broker.Notice) (m : Memory) : Store.SameSize m.store (m.killChannel x).store := by
    unfold Memory.killChannel
    split
    · exact Store.sizeShutChannel _ x m.store
    · exact fun _ => rfl
  obtain ⟨command, e, rfl, rfl⟩ := commanded
  cases command with
  | failDials | refuse | failPublishes | stallPublishes | settle => exact fun _ => rfl
  | killConnection reason =>
    change Store.SameSize e.broker.store (e.broker.killConnection reason).store
    unfold Memory.killConnection
    dsimp only
    split
    · exact fun r => (Store.sizeShutConnection _ _ _ r).trans (shut .silent e.broker r)
    · exact shut .silent e.broker
  | killChannel reason => exact shut (.report reason) e.broker
  | cancelConsumers =>
    change Store.SameSize e.broker.store e.broker.cancelConsumers.store
    unfold Memory.cancelConsumers
    split <;> exact fun r => by cases r <;> rfl
  | deliver queue key body headers =>
    exact Store.sizeOfSame (Store.sameDeliver (Memory.newestFirst e.broker.store) queue
      (fun tag => Delivery.new tag "" key body headers) e.broker.store)

structure Env.Steady (e f : Env Memory) : Prop where
  failing : f.broker.failing = e.broker.failing
  stalled : f.broker.stalled = e.broker.stalled
  size : ∀ r, e.size r ≤ f.size r
  closed : ∀ r n, n < e.size r → f.broker.store.openAt r n → e.broker.store.openAt r n

namespace Env

variable {e f : Env Memory}

theorem steadyLinks (failing : f.broker.failing = e.broker.failing)
    (stalled : f.broker.stalled = e.broker.stalled)
    (same : Store.SameLinks e.broker.store f.broker.store) : Steady e f where
  failing := failing
  stalled := stalled
  size r := Nat.le_of_eq (Store.sizeOfSame same r).symm
  closed r n _ := by
    unfold Store.openAt
    rw [Store.sameEnds same]
    exact id

theorem steadyStore {s : Store} (size : ∀ r, e.size r ≤ (s.ends r).length)
    (closed : ∀ r n, n < e.size r → s.openAt r n → e.broker.store.openAt r n)
    (store : f.broker = { e.broker with store := s }) : Steady e f where
  failing := by rw [store]
  stalled := by rw [store]
  size r := by unfold Env.size at *; rw [store]; exact size r
  closed r n := by rw [store]; exact closed r n

theorem steadyCovers : Covers Steady where
  idle e := steadyLinks rfl rfl (Store.sameLinksRefl _)
  trans first second := {
    failing := second.failing.trans first.failing
    stalled := second.stalled.trans first.stalled
    size := fun r => Nat.le_trans (first.size r) (second.size r)
    closed := fun r n inside still => first.closed r n inside
      (second.closed r n (Nat.lt_of_lt_of_le inside (first.size r)) still) }
  record _ e := steadyLinks rfl rfl (Store.sameLinksRefl _)
  freshId e := steadyLinks rfl rfl (Store.sameLinksRefl _)
  beginDial _ e := steadyLinks rfl rfl (Store.sameLinksRefl _)
  dial client number e := by
    have dialed : (e.dial client number).1.broker = e.broker.dial.1 := rfl
    unfold Memory.dial at dialed
    dsimp only at dialed
    split at dialed
    · refine steadyLinks ?_ ?_ ?_ <;> rw [dialed]
      exact Store.sameLinksRefl _
    · refine ⟨by rw [dialed], by rw [dialed], fun r => ?_, fun r n inside still => ?_⟩
      · unfold Env.size
        rw [dialed]
        exact Nat.le_of_lt (Nat.lt_of_lt_of_eq (Nat.lt_succ_self _) (Store.sizeOpenLink r _).symm)
      · rw [dialed] at still
        rcases Store.openOpenLink still with new | old
        · exact absurd inside (Nat.not_lt.mpr (Nat.le_of_eq new.symm))
        · exact old
  watchConnection c e := steadyStore
    (fun r => Nat.le_of_eq (Store.sizeWatchConnection c e.broker.store r).symm)
    (fun _ _ _ => Store.openWatchConnection.mp) rfl
  watchChannel c e := steadyStore
    (fun r => Nat.le_of_eq (Store.sizeWatchChannel c e.broker.store r).symm)
    (fun _ _ _ => Store.openWatchChannel.mp) rfl
  declare c d e := by
    have kept : (e.broker.declare c d).1.failing = e.broker.failing ∧
        (e.broker.declare c d).1.stalled = e.broker.stalled := by
      cases d with
      | bind b => unfold Memory.declare; dsimp only; split <;> exact ⟨rfl, rfl⟩
      | _ => exact ⟨rfl, rfl⟩
    exact steadyLinks kept.1 kept.2 (sameDeclare c d e.broker)
  prefetch _ _ e := steadyLinks rfl rfl (Store.sameLinksRefl _)
  consume c queue tag e := by
    have asked : (e.consume c queue tag).1.broker = (e.broker.consume c queue).1 := rfl
    unfold Memory.consume at asked
    split at asked <;> refine steadyLinks ?_ ?_ ?_ <;> rw [asked]
    · exact ⟨rfl, rfl, rfl⟩
    · exact Store.sameLinksRefl _
  poll i e := by
    refine steadyLinks rfl rfl ?_
    change Store.SameLinks e.broker.store (e.broker.store.poll i).1
    unfold Store.poll
    repeat' split
    all_goals exact ⟨rfl, rfl, rfl⟩
  dropStream _ e := steadyLinks rfl rfl ⟨rfl, rfl, rfl⟩
  publish c exchange key m e := by
    have kept : (e.broker.publish c exchange key m).1.failing = e.broker.failing ∧
        (e.broker.publish c exchange key m).1.stalled = e.broker.stalled := by
      unfold Memory.publish
      repeat' split
      all_goals exact ⟨rfl, rfl⟩
    exact steadyLinks kept.1 kept.2 (samePublish c exchange key m e)
  settle _ _ _ e := steadyLinks rfl rfl (Store.sameLinksRefl _)
  closeChannel c e := steadyStore
    (fun r => Nat.le_of_eq (Store.sizeShutChannel c .silent e.broker.store r).symm)
    (fun _ _ _ => Store.openShutChannel) rfl
  closeConnection c e := steadyStore
    (fun r => Nat.le_of_eq (Store.sizeShutConnection c .silent e.broker.store r).symm)
    (fun _ _ _ isOpen => (Store.openShutConnection isOpen).2) rfl

end Env

def Env.Hushed (e f : Env Memory) : Prop := ∀ i, f.broker.store.fired i → e.broker.store.fired i

def Establish.Blank (s : Store) : Establish → Prop
  | .installing l _ => ∀ r, s.Bare r (l.id r)
  | .watchingConnection l => ∀ r, s.Bare r (l.id r)
  | .watchingChannel l _ => s.Bare .channel l.channel
  | _ => True

section

variable {e f : Env Memory} {s t : Supervisor}

theorem hushedLinks (same : Store.SameLinks e.broker.store f.broker.store) : e.Hushed f :=
  fun i => (Store.sameFired same i).mp

theorem Release.hushed {r q : Release} (move : Move e r f q) : e.Hushed f := by
  cases move with
  | channel => exact fun _ => Store.firedShutChannelSilent.mp
  | connection => exact fun _ => Store.firedShutConnectionSilent.mp

namespace Establish

variable {client : String} {plan : Topology} {x y : Establish}

theorem hushed (move : Move client plan e x f y) (blank : x.Blank e.broker.store) : e.Hushed f := by
  have silent (same : Store.SameLinks e.broker.store f.broker.store) : e.Hushed f :=
    hushedLinks same
  cases move with
  | start | installed | discarded => exact silent (Store.sameLinksRefl _)
  | dialed _ answer | refused _ answer =>
    have store : f.broker = e.broker.dial.1 := (congrArg (fun p => p.1.broker) answer).symm
    unfold Memory.dial at store
    dsimp only at store
    intro i fired
    rw [store] at fired
    split at fired <;> exact fired
  | @declared l d _ _ answer | @undeclared l d _ _ _ answer =>
    refine silent ?_
    rw [(congrArg (fun p => p.1.broker) answer).symm]
    exact sameDeclare l.channel d e.broker
  | discard move => exact Release.hushed move
  | watchConnection => exact fun _ => Store.firedWatchConnection (blank .connection)
  | watchChannel => exact fun _ => Store.firedWatchChannel blank

theorem blankKept {touched : Resource → Nat → Prop} {s t : Store} (keeps : Store.Keeps touched s t)
    (untouched : ∀ r n, n ∈ x.owns r → ¬ touched r n) (blank : x.Blank s) : x.Blank t := by
  have kept {l : Link} (mine : ∀ r, l.id r ∈ x.owns r) (r : Resource) (bare : s.Bare r (l.id r)) :
      t.Bare r (l.id r) := Store.keptBare keeps (untouched r _ (mine r)) bare
  have own {l : Link} (r : Resource) : l.id r ∈ [l.id r] := List.mem_singleton_self _
  cases x with
  | installing l => exact fun r => kept own r (blank r)
  | watchingConnection l => exact fun r => kept own r (blank r)
  | watchingChannel l => exact kept (l := l) own .channel blank
  | _ => trivial

theorem blankBare {s t : Store} (bare : ∀ r n, s.Bare r n → t.Bare r n) (blank : x.Blank s) :
    x.Blank t := by
  cases x with
  | installing | watchingConnection => exact fun r => bare r _ (blank r)
  | watchingChannel => exact bare _ _ blank
  | _ => trivial

theorem blankStuck {s : Store} (stuck : x.step client plan e = none) : x.Blank s := by
  unfold step at stuck
  split at stuck
  all_goals first | trivial | (split at stuck <;> cases stuck)

theorem blankMove (move : Move client plan e x f y) (blank : x.Blank e.broker.store) :
    y.Blank f.broker.store := by
  cases move with
  | @dialed _ _ _ l due answer =>
    have dialed : e.broker.dial.2 = .ok l := congrArg Prod.snd answer
    have store : f.broker = e.broker.dial.1 := (congrArg (fun p => p.1.broker) answer).symm
    unfold Memory.dial at dialed store
    dsimp only at dialed store
    split at dialed
    · cases dialed
    · rename_i accepted
      rw [if_neg accepted] at store
      cases dialed
      intro r
      rw [store]
      have bare := Store.openLinkBare r e.broker.store
      cases r <;> exact bare
  | installed => exact blank
  | @declared l d _ _ answer =>
    have same : Store.SameLinks e.broker.store f.broker.store := by
      rw [(congrArg (fun p => p.1.broker) answer).symm]
      exact sameDeclare l.channel d e.broker
    exact fun r => Store.keptBare (Store.keepsSame same) id (blank r)
  | @watchConnection l =>
    exact Store.keptBare (Store.keepsWatchConnection l.connection _) (fun only => nomatch only.1)
      (blank .channel)
  | _ => trivial

end Establish

theorem Supervisor.hushedRecovery {alive : Bool} (move : RecoveryMove alive e s f t)
    (blank : ∀ x, s.recovery = .establishing x → x.Blank e.broker.store) : e.Hushed f := by
  cases move with
  | release _ move | abandon _ move => exact Release.hushed move
  | establish here move => exact Establish.hushed move (blank _ here)
  | _ => exact hushedLinks (Store.sameLinksRefl _)

theorem Supervisor.hushedClosing {x y : Closing} (move : ClosingMove e s x f t y) : e.Hushed f := by
  cases move with
  | release move => exact Release.hushed move
  | _ => exact hushedLinks (Store.sameLinksRefl _)

theorem Supervisor.blankRecovery {alive : Bool} (move : RecoveryMove alive e s f t)
    (blank : ∀ x, s.recovery = .establishing x → x.Blank e.broker.store) :
    ∀ x, t.recovery = .establishing x → x.Blank f.broker.store := by
  cases move with
  | dial => rintro _ ⟨⟩; trivial
  | establish here move => rintro _ ⟨⟩; exact Establish.blankMove move (blank _ here)
  | handle here =>
    unfold handle
    split
    · exact fun x there => by cases there
    · intro x there
      cases here.symm.trans there
  | adopt => unfold adopt; split <;> exact fun x there => by cases there
  | _ => exact fun x there => by cases there

theorem Client.hushed {c d : Client} (move : Move e c f d)
    (blank : ∀ x, c.supervisor.recovery = .establishing x → x.Blank e.broker.store) :
    e.Hushed f := by
  cases move with
  | recovery made => exact Supervisor.hushedRecovery (Supervisor.recoveryMove made) blank
  | watcher made =>
    rw [(Supervisor.watcherMove made).1]
    exact hushedLinks (Store.sameLinksRefl _)
  | loop _ made =>
    obtain ⟨_, -, move⟩ := Consumer.loopMove made
    exact hushedLinks (sameLoop move)
  | worker _ made =>
    obtain ⟨_, -, move⟩ := Consumer.workerMove made
    exact hushedLinks (sameWorker move)
  | retry _ made =>
    obtain ⟨_, _, -, move, -⟩ := Consumer.retryStepSource made
    exact hushedLinks (sameRetry move)
  | publish _ made => exact hushedLinks (samePublication made)
  | close _ made => exact Supervisor.hushedClosing (Supervisor.closingMove made)
  | start => exact hushedLinks (Store.sameLinksRefl _)
  | closeConsumer _ _ made =>
    cases Consumer.closeMove made with
    | closing stepped => exact Supervisor.hushedClosing (Supervisor.closingMove stepped)
    | _ => exact hushedLinks (Store.sameLinksRefl _)

theorem Client.blankMove {c d : Client} (move : Move e c f d)
    (blank : ∀ x, c.supervisor.recovery = .establishing x → x.Blank e.broker.store) :
    ∀ x, d.supervisor.recovery = .establishing x → x.Blank f.broker.store := by
  have kept (bare : ∀ r n, e.broker.store.Bare r n → f.broker.store.Bare r n)
      (recovery : d.supervisor.recovery = c.supervisor.recovery) :
      ∀ x, d.supervisor.recovery = .establishing x → x.Blank f.broker.store :=
    fun x here => Establish.blankBare bare (blank x (recovery ▸ here))
  have same (links : Store.SameLinks e.broker.store f.broker.store) (r : Resource) (n : Nat)
      (bare : e.broker.store.Bare r n) : f.broker.store.Bare r n :=
    Store.keptBare (Store.keepsSame links) id bare
  have closing {s t : Supervisor} {x y : Closing} (move : Supervisor.ClosingMove e s x f t y)
      (r : Resource) (n : Nat) (bare : e.broker.store.Bare r n) : f.broker.store.Bare r n := by
    cases move with
    | release move =>
      cases move with
      | channel => exact Store.bareShutChannel bare
      | connection => exact Store.bareShutConnection bare
    | _ => exact bare
  cases move with
  | recovery made => exact Supervisor.blankRecovery (Supervisor.recoveryMove made) blank
  | watcher made =>
    obtain ⟨rfl, move⟩ := Supervisor.watcherMove made
    exact kept (fun _ _ => id) (by cases move <;> rfl)
  | loop _ made =>
    obtain ⟨_, -, move⟩ := Consumer.loopMove made
    exact kept (same (sameLoop move)) rfl
  | worker _ made =>
    obtain ⟨_, -, move⟩ := Consumer.workerMove made
    exact kept (same (sameWorker move)) rfl
  | retry _ made =>
    obtain ⟨_, _, -, move, -⟩ := Consumer.retryStepSource made
    exact kept (same (sameRetry move)) rfl
  | publish _ made => exact kept (same (samePublication made)) rfl
  | start => exact kept (fun _ _ => id) rfl
  | close _ made =>
    have move := Supervisor.closingMove made
    exact kept (closing move) (Supervisor.recoveryOfClosing move)
  | closeConsumer _ _ made =>
    cases Consumer.closeMove made with
    | closing stepped =>
      have move := Supervisor.closingMove stepped
      exact kept (closing move) (Supervisor.recoveryOfClosing move)
    | _ => exact kept (fun _ _ => id) rfl

end

namespace World

variable {w v : World Memory}

structure Undisturbed (w : World Memory) : Prop where
  owned : w.Owned
  openings : ∀ o ∈ w.openings, ∀ x, o.phase = .establishing x → x.Blank w.env.broker.store
  clients : ∀ c ∈ w.clients, ∀ x, c.supervisor.recovery = .establishing x →
    x.Blank w.env.broker.store

section

variable {touched : Resource → Nat → Prop} {t : Store} {x : Establish}

theorem blankOpening {o : Opening} (undisturbed : w.Undisturbed) (found : o ∈ w.openings)
    (here : o.phase = .establishing x) (keeps : Store.Keeps touched w.env.broker.store t)
    (untouched : ∀ r n, n ∈ o.owns r → ¬ touched r n) : x.Blank t := by
  refine Establish.blankKept keeps (fun r n mem => untouched r n ?_)
    (undisturbed.openings o found x here)
  simp only [Opening.owns, here]
  exact mem

theorem blankClient {c : Client} (undisturbed : w.Undisturbed) (found : c ∈ w.clients)
    (here : c.supervisor.recovery = .establishing x)
    (keeps : Store.Keeps touched w.env.broker.store t)
    (untouched : ∀ r n, n ∈ c.owns r → ¬ touched r n) : x.Blank t := by
  refine Establish.blankKept keeps (fun r n mem => untouched r n ?_)
    (undisturbed.clients c found x here)
  refine List.mem_append_left _ (List.mem_append_right _ ?_)
  rw [here]
  exact mem

end

theorem undisturbedOpening {i : Nat} {o : Opening} (undisturbed : w.Undisturbed)
    (found : w.openings[i]? = some o) (move : OpeningMove i w o v) :
    v.Undisturbed ∧ w.env.Hushed v.env := by
  have there := List.mem_of_getElem? found
  have owned := ownedOpening undisturbed.owned found move
  have idle {p : OpeningPhase} (blank : ∀ x, p = .establishing x → x.Blank w.env.broker.store) :
      ∀ q ∈ w.openings.set i { o with phase := p }, ∀ x, q.phase = .establishing x →
        x.Blank w.env.broker.store := by
    intro q mem x here
    rcases List.mem_or_eq_of_mem_set mem with old | rfl
    · exact undisturbed.openings q old x here
    · exact blank x here
  cases move with
  | start =>
    exact ⟨⟨owned, idle (by rintro _ ⟨⟩; trivial), undisturbed.clients⟩, fun _ => id⟩
  | refuse | fail => exact ⟨⟨owned, idle (fun x same => by cases same), undisturbed.clients⟩, fun _ => id⟩
  | opened here =>
    refine ⟨⟨owned, idle (fun x same => by cases same), fun c mem x here => ?_⟩, fun _ => id⟩
    rcases List.mem_append.mp mem with old | new
    · exact undisturbed.clients c old x here
    · cases List.mem_singleton.mp new
      cases here
  | @establish x y f here move =>
    have blank := undisturbed.openings o there x here
    have keeps := (Establish.confined move).keeps
    have mine (r : Resource) : o.owns r = x.owns r := by simp only [Opening.owns, here]
    refine ⟨⟨owned, fun q mem z phase => ?_, fun c mem z phase => ?_⟩, Establish.hushed move blank⟩
    · rcases memSet found mem with rfl | ⟨j, other, old⟩
      · cases phase
        exact Establish.blankMove move blank
      · refine blankOpening undisturbed (List.mem_of_getElem? old) phase keeps
          fun r n also touched => ?_
        exact openingsApart undisturbed.owned found old other (by rw [mine]; exact touched) also
    · refine blankClient undisturbed mem phase keeps fun r n also touched => ?_
      exact openingApart undisturbed.owned there mem (by rw [mine]; exact touched) also

theorem undisturbedClient {i : Nat} {a : Activity} {c d : Client} {f : Env Memory}
    (undisturbed : w.Undisturbed) (found : w.clients[i]? = some c) (move : Client.Move w.env c f d) :
    Undisturbed { w with env := recordEnd i a d f, clients := w.clients.set i d } ∧
      w.env.Hushed f := by
  have there := List.mem_of_getElem? found
  have same := brokerRecordEnd i a d f
  have keeps := (Client.confined move).keeps
  have blank := undisturbed.clients c there
  refine ⟨⟨ownedClient undisturbed.owned found move, fun o mem x here => ?_,
    fun b mem x here => ?_⟩, Client.hushed move blank⟩
  · dsimp only
    rw [same]
    exact blankOpening undisturbed mem here keeps fun r n mine touched =>
      openingApart undisturbed.owned mem there mine touched
  · dsimp only
    rw [same]
    rcases memSet found mem with rfl | ⟨j, other, old⟩
    · exact Client.blankMove move blank x here
    · exact blankClient undisturbed (List.mem_of_getElem? old) here keeps fun r n mine touched =>
        clientsApart undisturbed.owned found old other touched mine

theorem undisturbedAct (undisturbed : w.Undisturbed) (made : Acts w v) :
    v.Undisturbed ∧ w.env.Hushed v.env := by
  obtain ⟨a, preferStop, made⟩ := made
  cases a with
  | opening i =>
    obtain ⟨o, found, move⟩ := openingMove made
    exact undisturbedOpening undisturbed found move
  | client i a =>
    obtain ⟨c, f, d, found, stepped, rfl⟩ := clientStepSource made
    obtain ⟨after, hushed⟩ := undisturbedClient (a := a) undisturbed found (Client.clientMove stepped)
    refine ⟨after, fun n => ?_⟩
    dsimp only
    rw [brokerRecordEnd]
    exact hushed n

theorem othersSpare {i : Nat} {c : Client} (owned : w.Owned) (found : w.clients[i]? = some c)
    (made : Acts w v) (apart : ∀ a preferStop, w.step (.client i a) preferStop ≠ some v) :
    v.clients[i]? = some c ∧ ∀ r n, n ∈ c.owns r →
      (v.env.broker.store.openAt r n ↔ w.env.broker.store.openAt r n) := by
  have mine := List.mem_of_getElem? found
  have kept {before : Resource → List Nat} {t : Store}
      (keeps : Store.Keeps (fun r n => n ∈ before r) w.env.broker.store t)
      (others : ∀ r n, n ∈ c.owns r → n ∉ before r) (r : Resource) (n : Nat) (mem : n ∈ c.owns r) :
      t.openAt r n ↔ w.env.broker.store.openAt r n :=
    Store.keptOpen keeps (insideOfOwned owned (ownsOfClient mine mem)) (others r n mem)
  obtain ⟨a, preferStop, made⟩ := made
  cases a with
  | opening j =>
    obtain ⟨o, there, move⟩ := openingMove made
    cases move with
    | start | refuse | fail => exact ⟨found, fun _ _ _ => Iff.rfl⟩
    | opened => exact ⟨Consumer.keptAppend rfl found, fun _ _ _ => Iff.rfl⟩
    | establish here move =>
      refine ⟨found, kept (Establish.confined move).keeps fun r n mem touched => ?_⟩
      refine openingApart owned (List.mem_of_getElem? there) mine (r := r) (n := n) ?_ mem
      simp only [Opening.owns, here]
      exact touched
  | client j a =>
    have other : j ≠ i := by
      rintro rfl
      exact apart a preferStop made
    obtain ⟨b, f, d, there, stepped, rfl⟩ := clientStepSource made
    refine ⟨(List.getElem?_set_ne other).trans found, ?_⟩
    dsimp only
    rw [brokerRecordEnd]
    exact kept (Client.confined (Client.clientMove stepped)).keeps fun r n mem =>
      clientsApart owned found there other.symm mem

theorem ownedExercised (exercised : w.Exercised) : w.Owned := by
  obtain ⟨start, fresh, new, run⟩ := exercised
  induction run with
  | refl =>
    have level : start.env.size .connection = start.env.size .channel := by
      unfold Env.size
      rw [new]
      rfl
    exact (guardedFresh fresh level).owned
  | next _ last ih =>
    cases last with
    | act made =>
      obtain ⟨a, preferStop, made⟩ := made
      cases a with
      | opening i =>
        obtain ⟨o, found, move⟩ := openingMove made
        exact ownedOpening ih found move
      | client i a =>
        obtain ⟨c, f, d, found, stepped, rfl⟩ := clientStepSource made
        exact ownedClient ih found (Client.clientMove stepped)
    | time => exact ⟨ih.level, ih.owns⟩
    | broker change => exact ownedOutside ih (Broker.sizeCommand change)
    | make client p => exact ownedMake ih client p
    | call _ _ opens => exact ownedCall ih opens
    | letGo i => exact ownedLetGo ih i

theorem undisturbedQuiet (owned : w.Owned) (quiet : w.Quiet) : w.Undisturbed := by
  refine ⟨owned, fun o mem x here => ?_, fun c mem x here => ?_⟩
  · obtain ⟨i, found⟩ := List.getElem?_of_mem mem
    have stuck : w.openingStep i = none := quiet (.opening i) false
    unfold openingStep at stuck
    simp only [found, here] at stuck
    have stuck : x.step o.client o.plan.topology w.env = none := by
      cases x <;> first | exact Option.map_eq_none_iff.mp stuck | rfl
    exact Establish.blankStuck stuck
  · obtain ⟨i, found⟩ := List.getElem?_of_mem mem
    have stuck := stillOf quiet found .recovery
    unfold Client.step at stuck
    have stuck := Option.map_eq_none_iff.mp stuck
    unfold Supervisor.recoveryStep at stuck
    simp only [here] at stuck
    have stuck : x.step c.supervisor.client c.supervisor.topology w.env = none := by
      cases x <;> first | exact Option.map_eq_none_iff.mp stuck | rfl
    exact Establish.blankStuck stuck

end World

end AmqpClient
