import AmqpClient.Proofs.Consumer.Running
import AmqpClient.Proofs.Consumer.Serving
import AmqpClient.Proofs.Sessions
/-! Permits. A worker is added with a permit that the loop took, and gives it back when it ends, so
the permits left and the unfinished workers are together always as many as there were at first. -/
namespace AmqpClient

variable {β : Type} [Broker β] {e f : Env β} {s : Supervisor} {k m : Consumer}

namespace Consumer

def processing (k : Consumer) : Nat := k.workers.countP fun x => !x.phase.finished

structure Permitted (k : Consumer) : Prop where
  accounted : k.permits + k.processing = min k.options.maxInFlight.toNat maxPermits

theorem processingKept {i : Nat} {x y : Worker} (found : k.workers[i]? = some x)
    (going : x.phase.finished = false) (still : y.phase.finished = false) :
    (k.setWorker i y).processing = k.processing := by
  have counted := countSet (p := fun x => !x.phase.finished) (y := y) found
  rw [going, still] at counted
  exact Nat.add_right_cancel counted

theorem processingDone {i : Nat} {x y : Worker} (found : k.workers[i]? = some x)
    (going : x.phase.finished = false) (ended : y.phase.finished = true) :
    (k.setWorker i y).processing + 1 = k.processing := by
  have counted := countSet (p := fun x => !x.phase.finished) (y := y) found
  rw [going, ended] at counted
  exact counted

theorem permittedWorker {i : Nat} {x : Worker} (permitted : k.Permitted)
    (found : k.workers[i]? = some x) (move : WorkerMove i e k x f m) : m.Permitted := by
  have going := workerUnfinished move
  have accounted := permitted.accounted
  have kept {y : Worker} (still : y.phase.finished = false) :
      k.permits + (k.setWorker i y).processing = min k.options.maxInFlight.toNat maxPermits := by
    rw [processingKept found going still]
    exact accounted
  cases move with
  | @finish disposition =>
    have one := processingDone (y := x.goto (.done disposition)) found going rfl
    refine ⟨?_⟩
    change k.permits + 1 + (k.setWorker i (x.goto (.done disposition))).processing = _
    exact Eq.trans (by omega) accounted
  | _ => exact ⟨kept rfl⟩

theorem permittedLoop {i : Nat} {l : Loop} (permitted : k.Permitted)
    (move : LoopMove i s e k l f m) : m.Permitted := by
  have accounted := permitted.accounted
  cases move with
  | @grant c stream d here free =>
    have more : (k.workers ++ [worker d c]).countP (fun x => !x.phase.finished) =
        k.processing + 1 := by
      rw [List.countP_append]
      rfl
    refine ⟨?_⟩
    change k.permits - 1 + (k.workers ++ [worker d c]).countP (fun x => !x.phase.finished) = _
    exact Eq.trans (by omega) accounted
  | _ => exact ⟨accounted⟩

theorem handSmall (l : Loop) : l.hand.length ≤ (!l.phase.finished).toNat := by
  unfold Loop.hand
  cases l.phase <;> first | exact Nat.le_refl _ | exact Nat.zero_le _

theorem handFew (loops : List Loop) :
    (loops.flatMap Loop.hand).length ≤ loops.countP fun l => !l.phase.finished := by
  induction loops with
  | nil => exact Nat.le_refl 0
  | cons l rest ih =>
    rw [List.flatMap_cons, List.length_append, List.countP_cons, Nat.add_comm]
    refine Nat.add_le_add ih (Nat.le_trans (handSmall l) ?_)
    cases l.phase.finished <;> exact Nat.le_refl _

end Consumer

namespace Client

variable {c d : Client}

theorem permittedMove (permitted : ∀ k, c.role = .consumer k → k.Permitted)
    (move : Move e c f d) : ∀ m, d.role = .consumer m → m.Permitted := by
  intro m role
  cases move with
  | recovery | watcher | publish | close => exact permitted m role
  | loop was made =>
    cases role
    obtain ⟨l, -, move⟩ := Consumer.loopMove made
    exact Consumer.permittedLoop (permitted _ was) move
  | worker was made =>
    cases role
    obtain ⟨x, found, move⟩ := Consumer.workerMove made
    exact Consumer.permittedWorker (permitted _ was) found move
  | retry was made =>
    cases role
    obtain ⟨r, q, -, -, rfl⟩ := Consumer.retryStepSource made
    exact ⟨(permitted _ was).accounted⟩
  | start was here made =>
    cases role
    have accounted := (permitted _ was).accounted
    unfold Consumer.startStep at made
    split at made
    all_goals
      first
        | contradiction
        | (repeat' split at made) <;> cases made <;> exact ⟨accounted⟩
  | closeConsumer was here made =>
    cases role
    have accounted := (permitted _ was).accounted
    cases Consumer.closeMove made <;> exact ⟨accounted⟩

end Client

structure InFlight (c : Client) (k : Consumer) : Prop where
  accounted : k.permits + k.processing = min k.options.maxInFlight.toNat Consumer.maxPermits
  bounded : k.processing ≤ k.options.maxInFlight.toNat
  held : ∀ l ∈ k.loops, l.hand.length ≤ 1
  running : k.hand.length ≤ k.loops.countP fun l => !l.phase.finished
  alone : c.Unclosed → k.hand.length ≤ 1

namespace World

variable {outside : β → β → Prop} {w : World β} {i : Nat} {c : Client}

theorem permittedReachable (reached : Reachable outside w) (found : w.clients[i]? = some c)
    (role : c.role = .consumer k) : k.Permitted := by
  refine reachableClient (P := fun _ c => ∀ k, c.role = .consumer k → k.Permitted) ?_ ?_
    reached found k role
  · intro e o l connectionSignal channelSignal k role
    cases o with
    | mk client plan phase =>
      cases plan with
      | consumer t p options h => cases role; exact ⟨rfl⟩
      | _ => cases role
  · intro e c f d change permitted
    cases change with
    | same | call | letGo => exact permitted
    | step made => exact Client.permittedMove permitted (Client.clientMove made)

theorem flightBounded (reached : Reachable outside w) (found : w.clients[i]? = some c)
    (role : c.role = .consumer k) : InFlight c k := by
  have accounted := (permittedReachable reached found role).accounted
  have few := Consumer.handFew k.loops
  refine ⟨accounted, ?_, ?_, few, fun unclosed => ?_⟩
  · omega
  · exact fun l _ => Nat.le_trans (Consumer.handSmall l) (Bool.toNat_le _)
  · have running := runsReachable reached found k role unclosed
    have spawned := running.spawned
    have once : k.consuming.toNat ≤ 1 := Bool.toNat_le _
    have inside : k.loops.countP (fun l => !l.phase.finished) ≤ k.loops.length :=
      List.countP_le_length
    exact Nat.le_trans few (by omega)

open Broker (Memory)

def desk : World Memory :=
  let t := ((Topology.new "orders").withQueue "orders").underKey "order"
  let plan := Plan.consumer t {} { maxInFlight := 2 } fun _ _ => { takes := 60000 }
  ((offline.make "orders" plan).settle.call 0 (.start .locking)).settle

def twoMore (w : World Memory) : World Memory :=
  let first := w.env.broker.deliver "orders" "order" [] []
  { w with env := w.env.withBroker (first.deliver "orders" "order" [] []) }.settle

def deskCrowded : World Memory :=
  twoMore (((twoMore desk).drop.settle.advance 5000).settle.advance 10000).settle

theorem deskReached : Reachable (fun _ _ => True) desk := by
  have made : Reachable (fun _ _ => True) (offline.make "orders" (.consumer
      (((Topology.new "orders").withQueue "orders").underKey "order") {} { maxInFlight := 2 }
      fun _ _ => { takes := 60000 })).settle := reachableMade ⟨rfl, rfl, rfl⟩ _ _
  exact reachableSettled (reachableCall made (by decide +kernel) fun _ => trivial)

theorem deskCrowdedReached : Reachable (fun _ _ => True) deskCrowded := by
  have more {w : World Memory} (reached : Reachable (fun _ _ => True) w) :
      Reachable (fun _ _ => True) (twoMore w) := reachableSettled (reachableBroker reached trivial)
  have lost : Reachable (fun _ _ => True) (twoMore desk).drop.settle :=
    reachableSettled (reachableBroker (more deskReached) trivial)
  have again := reachableSettled (reachableTime lost (t := 5000) (by decide +kernel))
  exact more (reachableSettled (reachableTime again (t := 10000) (by decide +kernel)))

def admits (channel : ChannelId) (k : Consumer) : Bool :=
  match k.loops with
  | [l] =>
    match l.phase with
    | .admitting c _ _ => c == channel
    | _ => false
  | _ => false

theorem deskFull : ∃ c k, deskCrowded.clients[0]? = some c ∧ c.role = .consumer k ∧
    k.processing = 2 ∧ k.workers.map Consumer.Worker.channel = [0, 0] ∧
    (∃ l stream d, k.loops = [l] ∧ l.phase = .admitting 1 stream d) ∧ InFlight c k := by
  have seen : ((deskCrowded.clients[0]?.bind Client.consumer?).any fun k =>
      k.processing == 2 && k.workers.map Consumer.Worker.channel == [0, 0] && admits 1 k) = true := by
    decide +kernel
  obtain ⟨c, k, found, role, seen⟩ := consumerSeen seen
  obtain ⟨seen, waits⟩ := Bool.and_eq_true_iff.mp seen
  obtain ⟨two, channels⟩ := Bool.and_eq_true_iff.mp seen
  refine ⟨c, k, found, role, beq_iff_eq.mp two, beq_iff_eq.mp channels, ?_,
    flightBounded deskCrowdedReached found role⟩
  unfold admits at waits
  split at waits
  · rename_i l loops
    split at waits
    · rename_i ch stream d here
      cases beq_iff_eq.mp waits
      exact ⟨l, stream, d, loops, here⟩
    · cases waits
  · cases waits

end World

end AmqpClient
