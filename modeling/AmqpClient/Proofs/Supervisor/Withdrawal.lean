import AmqpClient.Proofs.Closings
import AmqpClient.Proofs.Supervisor.Outlook
/-! A supervisor that is closed or about to be. Nothing is repaired any more, and each step of a task
or of a closing call leaves fewer to make. -/
namespace AmqpClient

open Broker (Memory Store)

def Recovery.Idles (now : Instant) : Recovery → Prop
  | .listening => True
  | .pausing ends => now < ends
  | .ended => True
  | _ => False

def Closing.work : Closing → Nat
  | .raising => 5
  | .taking => 4
  | .releasing r => r.size + 1
  | .done _ => 0

namespace Supervisor

variable {e f : Env Memory} {x : Scene} {s t : Supervisor}

structure Leaves (x : Scene) (s : Supervisor) : Prop where
  idle : s.recovery.Idles x.now
  trusted : s.session.state = .connected → s.Trusted x

theorem leavesEnded (ended : s.recovery = .ended) (closed : s.session.state = .closed) :
    s.Leaves x where
  idle := by rw [ended]; trivial
  trusted connected := by cases closed.symm.trans connected

structure Withdraws (e : Env Memory) (s t : Supervisor) : Prop where
  leaves : t.Leaves e.scene
  view : t.view e.scene = s.view e.scene
  owns : t.owns .connection = s.owns .connection
  smaller : t.load e.now < s.load e.now

theorem recoveryWithdraws (coherent : s.Coherent) (leaves : s.Leaves e.scene)
    (move : RecoveryMove true e s f t) : f = e ∧ Withdraws e s t := by
  have idle := leaves.idle
  have owns {r q : Recovery} {events : List CloseEvent} (here : s.recovery = r)
      (nothing : q.owns .connection = r.owns .connection) :
      ({ s with events := events, recovery := q } : Supervisor).owns .connection =
        s.owns .connection := by
    unfold owns
    rw [here, ← nothing]
  cases move with
  | quit here =>
    refine ⟨rfl, ⟨⟨trivial, fun connected => ?_⟩, rfl, owns here rfl, ?_⟩⟩
    · exact ⟨(leaves.trusted connected).events, (leaves.trusted connected).watchers⟩
    · simp only [load, here, Recovery.load]
      split <;> omega
  | @handle y rest here next =>
    have same : ({ s with events := rest } : Supervisor).handle y = { s with events := rest } :=
      handleStale fun connected =>
        Nat.ne_of_lt ((leaves.trusted connected).events y (next ▸ List.mem_cons_self))
    rw [same]
    refine ⟨rfl, ⟨⟨idle, fun connected => ?_⟩, rfl, rfl, ?_⟩⟩
    · refine ⟨fun z mem => ?_, (leaves.trusted connected).watchers⟩
      exact (leaves.trusted connected).events z (next ▸ List.mem_cons_of_mem y mem)
    · simp only [load, next, List.length_cons]
      omega
  | leave _ _ unasked => cases unasked
  | @giveUp ends here =>
    have later : e.now < ends := by
      rw [here] at idle
      exact idle
    have lost : s.session.state ≠ .connected := coherent.replacing (by rw [here]; rfl)
    refine ⟨rfl, ⟨⟨trivial, fun connected => absurd connected lost⟩, rfl, owns here rfl, ?_⟩⟩
    simp only [load, here, Recovery.load, if_neg (Nat.not_le_of_lt later),
      beq_false_of_ne lost, Bool.false_eq_true, if_false]
    omega
  | dial here due =>
    rw [here] at idle
    exact absurd due (Nat.not_le_of_lt idle)
  | release here | released here | adopt here | failed here | establish here | abandon here
  | abandoned here | arm here | announce here =>
    rw [here] at idle
    exact idle.elim

theorem watcherWithdraws {i : Nat} (leaves : s.Leaves e.scene) (move : WatcherMove i e s t) :
    Withdraws e s t := by
  cases move with
  | @report w found here fired =>
    have fewer := watchesFewer found here (p := .reported) (by decide)
    refine ⟨⟨leaves.idle, fun connected => ?_⟩, rfl, rfl, ?_⟩
    · exact trustedReport (leaves.trusted connected) found here fired
    · simp only [load, setWatcher, List.length_append, List.length_singleton] at fewer ⊢
      omega
  | @quit w found here =>
    have fewer := watchesFewer found here (p := .stopped) (by decide)
    refine ⟨⟨leaves.idle, fun connected => ?_⟩, rfl, rfl, ?_⟩
    · refine ⟨(leaves.trusted connected).events, fun v mem watches heard => ?_⟩
      rcases List.mem_or_eq_of_mem_set mem with old | rfl
      · exact (leaves.trusted connected).watchers v old watches heard
      · cases watches
    · simp only [load, setWatcher] at fewer ⊢
      omega

structure Closes (e : Env Memory) (s : Supervisor) (x : Closing) (f : Env Memory) (t : Supervisor)
    (y : Closing) : Prop where
  now : f.now = e.now
  leaves : t.Leaves f.scene
  view : t.view f.scene = s.view e.scene
  minds : e.Minds (x.owns .connection ++ s.owns .connection)
    (y.owns .connection ++ t.owns .connection) f
  smaller : y.work + t.load f.now < x.work + s.load e.now

theorem loadVacated (now : Instant) :
    ({ s with session := s.session.vacate .closed } : Supervisor).load now ≤ s.load now := by
  refine Nat.add_le_add_right (Nat.add_le_add_right ?_ _) _
  change s.recovery.load s.topology.plan now false ≤ _
  cases s.recovery with
  | listening =>
    change 1 ≤ if (s.session.state == .connected) = true then 6 else 1
    split <;> decide
  | _ => exact Nat.le_refl _

theorem closingCloses {x y : Closing} (leaves : s.Leaves e.scene)
    (taken : 1 < x.stage → s.session.state = .closed)
    (move : ClosingMove e s x f t y) : Closes e s x f t y := by
  cases move with
  | raise =>
    exact ⟨rfl, ⟨leaves.idle, fun connected => ⟨(leaves.trusted connected).events,
      (leaves.trusted connected).watchers⟩⟩, rfl, Env.mindsMore (fun _ => id) fun _ => id,
      Nat.add_lt_add_right (show 4 < 5 by decide) _⟩
  | take =>
    refine ⟨rfl, ⟨leaves.idle, nofun⟩, rfl, Env.mindsMore (fun _ => id) fun n mem => ?_, ?_⟩
    · rcases List.mem_append.mp mem with none | mem
      · cases none
      · rcases List.mem_append.mp mem with old | other
        · exact List.mem_append_left _ old
        · exact List.mem_append_right _ (List.mem_append_right _ other)
    · have few := Release.sizeFew s.session.held
      have less := loadVacated (s := s) e.now
      simp only [Closing.work]
      omega
  | @release r q f move =>
    have made := Release.next move
    have closed := taken (Nat.lt_succ_self 1)
    refine ⟨made.now, ⟨?_, fun connected => nomatch closed.symm.trans connected⟩, ?_, ?_, ?_⟩
    · change s.recovery.Idles f.now
      rw [made.now]
      exact leaves.idle
    · exact viewSame made.now made.account
    · refine Env.mindsAmong made.minds (fun n mem other => ?_) fun n => List.mem_append_left _
      exact List.mem_append_right _ ((List.mem_append.mp mem).resolve_left other)
    · rw [made.now]
      exact Nat.add_lt_add_right (Nat.succ_lt_succ made.smaller) _
  | @released r empty =>
    refine ⟨rfl, leaves, rfl, Env.mindsMore (fun _ => id) fun n mem => ?_, ?_⟩
    · refine List.mem_append_right _ ((List.mem_append.mp mem).resolve_left fun held => ?_)
      change n ∈ r.owns .connection at held
      rw [Release.handsOff empty] at held
      cases held
    · exact Nat.add_lt_add_right (Nat.succ_pos _) _

end Supervisor

end AmqpClient
