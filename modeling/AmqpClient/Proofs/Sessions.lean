import AmqpClient.Broker.Memory
import AmqpClient.Proofs.Supervisor.Coherence
import AmqpClient.Proofs.Supervisor.Record
/-! What a session promises in every world of every run: its pair of resources is whole while it is
connected and gone otherwise, both came back from one dial and have the topology on them, its
generation counts the reconnects, and once closed it is closed for good. -/
namespace AmqpClient

variable {β : Type} [Broker β] {outside : β → β → Prop}

namespace Supervisor

structure Sound (e : Env β) (n : Nat) (s : Supervisor) : Prop where
  connection : s.session.connection.isSome ↔ s.session.state = .connected
  channel : s.session.channel.isSome ↔ s.session.state = .connected
  made : ∀ c h, s.session.connection = some c → s.session.channel = some h →
    e.Made s.client s.topology.plan ⟨c, h⟩
  generation : s.session.generation = n
  announced : s.recovery.telling = false → s.announced = n
  telling : s.recovery.telling = true → s.announced + 1 = n

variable (β) in
structure Onward (s t : Supervisor) : Prop where
  generation : s.session.generation ≤ t.session.generation
  closed : s.session.state = .closed → t.session.state = .closed
  refused : s.session.state = .closed → ∀ b : β,
    t.channel? b = .error .closed ∧ t.isConnected b = false

variable {e f : Env β} {s t u : Supervisor}

theorem onwardOf (generation : s.session.generation ≤ t.session.generation)
    (closed : s.session.state = .closed → t.session.state = .closed) : Onward β s t := by
  refine ⟨generation, closed, fun before b => ?_⟩
  have after := closed before
  constructor
  · unfold channel? Session.channel?
    rw [if_pos after]
  · unfold isConnected Session.healthy
    rw [after]
    rfl

theorem onwardRefl (s : Supervisor) : Onward β s s := onwardOf (Nat.le_refl _) id

theorem onwardTrans (first : Onward β s t) (second : Onward β t u) : Onward β s u :=
  onwardOf (Nat.le_trans first.generation second.generation)
    fun before => second.closed (first.closed before)

theorem onwardChange (coherent : s.Coherent) (change : Change e s f t) : Onward β s t :=
  onwardOf (generationChange coherent change)
    (Session.closedChange (sessionChange coherent change))

end Supervisor

namespace World

variable {start w v : World β} {changes : List (World β × World β)} {i : Nat} {c : Client}

theorem onwardRun (reached : Reachable outside w) (run : Run (Use outside) w v)
    (found : w.clients[i]? = some c) :
    ∃ d, v.clients[i]? = some d ∧ Supervisor.Onward β c.supervisor d.supervisor := by
  induction run with
  | refl => exact ⟨c, found, Supervisor.onwardRefl _⟩
  | next before last ih =>
    obtain ⟨b, there, onward⟩ := ih
    obtain ⟨d, still⟩ := useKeeps last there
    have coherent := Supervisor.coherentReachable (reachableRun reached before) there
    have change := Supervisor.changeOf (useSame last there still)
    exact ⟨d, still, Supervisor.onwardTrans onward (Supervisor.onwardChange coherent change)⟩

theorem generationCounts (fresh : Fresh start) (course : Course (Use outside) start changes w)
    (found : w.clients[i]? = some c) :
    timesSeen i Supervisor.reconnects changes = c.supervisor.session.generation :=
  timesSeenMeasure (C := Supervisor.Coherent) (M := fun s => s.session.generation)
    (fun _ _ _ reached there => Supervisor.coherentReachable reached there)
    (fun _ _ _ _ _ _ => rfl)
    (fun _ _ _ _ change coherent =>
      Session.generationChange (Supervisor.sessionChange coherent change)) fresh course found

/-- In every world of every run a session is whole or empty, and it only goes on. -/
theorem sessionSound (fresh : Fresh start) (course : Course (Use outside) start changes w)
    (found : w.clients[i]? = some c) :
    c.supervisor.Sound w.env (timesSeen i Supervisor.reconnects changes) ∧
      ∀ v, Run (Use outside) w v → ∃ d, v.clients[i]? = some d ∧
        Supervisor.Onward β c.supervisor d.supervisor := by
  have reached := courseReachable fresh course
  have coherent := Supervisor.coherentReachable reached found
  have counted := (generationCounts fresh course found).symm
  have announced := coherent.announced
  refine ⟨⟨?_, ?_, (Supervisor.recordedReachable reached found).session, counted, ?_, ?_⟩,
    fun v run => onwardRun reached run found⟩
  · rw [coherent.connection]; exact beq_iff_eq
  · rw [coherent.channel]; exact beq_iff_eq
  · intro silent
    rw [silent] at announced
    exact announced.trans counted
  · intro telling
    rw [telling] at announced
    exact announced.trans counted

open Broker (Memory)

def dropped (m : Memory) : Memory := (m.killChannel (.report "gone")).killConnection "gone"

def Drops (m b : Memory) : Prop := b = dropped m

def drop (w : World Memory) : World Memory :=
  { w with env := w.env.withBroker (dropped w.env.broker) }

def offline : World Memory := { env := { broker := {}, wallClock := fun _ => 0 } }

def online : World Memory :=
  (offline.make "orders" (.supervisor (Topology.new "orders") (.ofSeconds 5))).settle

def onlineAgain : World Memory := (online.drop.settle.advance 5000).settle

theorem onlineReached : Reachable Drops online := reachableMade ⟨rfl, rfl, rfl⟩ _ _

theorem dropReached : Reachable Drops online.drop := reachableBroker onlineReached rfl

theorem pauseReached : Reachable Drops (online.drop.settle.advance 5000) :=
  reachableTime (reachableSettled dropReached) (by decide +kernel)

theorem onlineAgainReached : Reachable Drops onlineAgain := reachableSettled pauseReached

theorem sessionSoundAgain : ∃ start changes c, Fresh start ∧
    Course (Use Drops) start changes onlineAgain ∧ onlineAgain.clients[0]? = some c ∧
    c.supervisor.session.state = .connected ∧ timesSeen 0 Supervisor.reconnects changes = 1 ∧
    c.supervisor.Sound onlineAgain.env 1 ∧
    ∀ v, Run (Use Drops) onlineAgain v → ∃ d, v.clients[0]? = some d ∧
      Supervisor.Onward Memory c.supervisor d.supervisor := by
  obtain ⟨start, fresh, run⟩ := onlineAgainReached
  obtain ⟨changes, course⟩ := runCourse run
  have seen : (onlineAgain.clients[0]?.any fun c => c.supervisor.session.state == .connected &&
      c.supervisor.session.generation == 1) = true := by decide +kernel
  obtain ⟨c, found, seen⟩ := (Option.any_eq_true _ _).mp seen
  obtain ⟨connected, generation⟩ := Bool.and_eq_true_iff.mp seen
  obtain ⟨sound, onward⟩ := sessionSound fresh course found
  have once : timesSeen 0 Supervisor.reconnects changes = 1 :=
    sound.generation.symm.trans (beq_iff_eq.mp generation)
  exact ⟨start, changes, c, fresh, course, found, beq_iff_eq.mp connected, once, once ▸ sound, onward⟩

end World

end AmqpClient
