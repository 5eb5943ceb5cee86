import AmqpClient.Proofs.Sessions
import Mathlib.Data.Finset.Card
/-! A lost generation is recovered once. A report is looked at only by the task that recovers the
session, only when that has nothing to replace, and leads to something only if it is about the
present generation of a connected session. So losses and the loops that replace a link take turns,
each generation is left once, and no reconnect comes without a report about a generation of its
own. -/
namespace AmqpClient

namespace Session

variable {s t : Session} {g : Nat}

def serves (g : Nat) (s : Session) : Bool := s.state = .connected ∧ s.generation = g

def past (g : Nat) (s : Session) : Bool :=
  g < s.generation ∨ (g = s.generation ∧ s.state ≠ .connected)

theorem pastChange (change : Change s t) :
    (t.past g).toNat = (s.past g).toNat + (s.serves g && !t.serves g).toNat := by
  simp only [toNatIf, past, serves, Bool.and_eq_true, Bool.not_eq_true',
    decide_eq_true_eq, decide_eq_false_iff_not]
  cases change with
  | same => grind
  | lost | closed => simp only [vacate]; grind
  | renewed => simp only [renew]; grind

end Session

namespace Supervisor

variable {β : Type} [Broker β] {e f : Env β} {s t : Supervisor}

def leaves (g : Nat) (s t : Supervisor) : Bool := s.session.serves g && !t.session.serves g

def loses (s t : Supervisor) : Bool :=
  s.session.state = .connected ∧ t.session.state = .reconnecting

def ends (s t : Supervisor) : Bool := s.recovery.running && !t.recovery.running

theorem losesSame (same : t.session = s.session) : loses s t = false := by
  unfold loses
  rw [same]
  cases s.session.state <;> rfl

theorem loopsChange (coherent : s.Coherent) (change : Change e s f t) :
    t.recovery.running.toNat + (ends s t).toNat = s.recovery.running.toNat + (loses s t).toNat := by
  have going (none : loses s t = false)
      (running : t.recovery.running = true → s.recovery.running = true) :
      t.recovery.running.toNat + (ends s t).toNat =
        s.recovery.running.toNat + (loses s t).toNat := by
    unfold ends
    rw [none]
    cases after : t.recovery.running with
    | true => rw [running after]; rfl
    | false => cases s.recovery.running <;> rfl
  cases change with
  | same => exact going (losesSame rfl) id
  | watcher move => cases move <;> exact going (losesSame rfl) id
  | closing move =>
    cases move with
    | take => exact going (by unfold loses; exact decide_eq_false nofun) id
    | raise | release | released => exact going (losesSame rfl) id
  | recovery move =>
    cases move with
    | @handle x rest here =>
      by_cases current : s.session.generation = x.generation ∧ s.session.state = .connected
      · have lost : loses s ({ s with events := rest }.handle x) = true := by
          unfold loses handle
          rw [if_pos current]
          exact decide_eq_true ⟨current.2, rfl⟩
        rw [lost, here]
        unfold ends handle
        rw [if_pos current, here]
        rfl
      · have stale : { s with events := rest }.handle x = { s with events := rest } := if_neg current
        rw [stale] at going ⊢
        exact going (losesSame rfl) id
    | @adopt l c h here =>
      refine going ?_ fun _ => by rw [here]; rfl
      by_cases closed : s.session.state = .closed
      · refine losesSame ?_
        unfold adopt
        rw [if_pos closed]
      · unfold loses
        exact decide_eq_false fun both => coherent.replacing (by rw [here]; rfl) both.1
    | quit | leave | giveUp | abandoned | announce => exact going (losesSame rfl) nofun
    | release here | released here | dial here | failed here | establish here | abandon here
    | arm here => exact going (losesSame rfl) fun _ => by rw [here]; rfl

theorem leavesChange {g : Nat} (coherent : s.Coherent) (change : Change e s f t) :
    (t.session.past g).toNat = (s.session.past g).toNat + (leaves g s t).toNat :=
  Session.pastChange (sessionChange coherent change)

structure Attentive (s : Supervisor) : Prop where
  abandoning : ∀ r, s.recovery = .abandoning r → s.session.state = .closed
  telling : s.recovery.telling = true → s.session.state ≠ .reconnecting
  reconnecting : s.session.state = .reconnecting → s.recovery.running = true ∨ s.stopped = true

theorem attentiveChange (attentive : s.Attentive) (change : Change e s f t) : t.Attentive := by
  cases change with
  | same => exact attentive
  | watcher move =>
    cases move <;> exact ⟨attentive.abandoning, attentive.telling, attentive.reconnecting⟩
  | closing move =>
    cases move with
    | raise => exact ⟨attentive.abandoning, attentive.telling, fun _ => .inr rfl⟩
    | take => exact ⟨fun _ _ => rfl, nofun, nofun⟩
    | release | released => exact attentive
  | recovery move =>
    have stopped (idle : s.recovery.running = false) (lost : s.session.state = .reconnecting) :
        s.stopped = true :=
      (attentive.reconnecting lost).resolve_left (by rw [idle]; nofun)
    cases move with
    | quit | giveUp => exact ⟨fun _ => nofun, nofun, fun _ => .inr (by assumption)⟩
    | leave here => exact ⟨fun _ => nofun, nofun, fun lost => .inr (stopped (by rw [here]; rfl) lost)⟩
    | @handle x rest here =>
      unfold handle
      split
      · exact ⟨fun _ => nofun, nofun, fun _ => .inl rfl⟩
      · exact ⟨attentive.abandoning, attentive.telling, attentive.reconnecting⟩
    | adopt here =>
      unfold adopt
      split
      · rename_i closed; exact ⟨fun _ _ => closed, nofun, fun _ => .inl rfl⟩
      · exact ⟨fun _ => nofun, fun _ => nofun, nofun⟩
    | release | released | dial | failed | establish => exact ⟨fun _ => nofun, nofun, fun _ => .inl rfl⟩
    | abandon here =>
      have closed := attentive.abandoning _ here
      exact ⟨fun _ _ => closed, nofun, fun _ => .inl rfl⟩
    | abandoned here =>
      have closed := attentive.abandoning _ here
      exact ⟨fun _ => nofun, nofun, fun lost => absurd (closed.symm.trans lost) nofun⟩
    | arm here =>
      exact ⟨fun _ => nofun, fun _ => attentive.telling (by rw [here]; rfl), fun _ => .inl rfl⟩
    | announce here =>
      have settled := attentive.telling (by rw [here]; rfl)
      exact ⟨fun _ => nofun, nofun, fun lost => absurd lost settled⟩

theorem attentiveReachable {outside : β → β → Prop} {w : World β}
    (reached : World.Reachable outside w) {i : Nat} {c : Client} (found : w.clients[i]? = some c) :
    c.supervisor.Attentive :=
  World.reachableClient (P := fun _ c => c.supervisor.Attentive)
    (fun _ _ _ _ _ => ⟨fun _ => nofun, nofun, nofun⟩)
    (fun _ _ _ _ change attentive => attentiveChange attentive (changeOf change)) reached found

def reportedGenerations (s : Supervisor) : Finset Nat :=
  ((s.watchers.filter (·.phase == .reported)).map Watcher.generation).toFinset

theorem memReported {g : Nat} : g ∈ s.reportedGenerations ↔ s.Reported g := by
  simp only [reportedGenerations, Reported, List.mem_toFinset, List.mem_map, List.mem_filter,
    beq_iff_eq, and_assoc, and_comm]

theorem generationReported (coherent : s.Coherent) :
    s.session.generation ≤ s.reportedGenerations.card := by
  have left : Finset.range s.session.generation ⊆ s.reportedGenerations := fun g below =>
    memReported.mpr (coherent.left g (Finset.mem_range.mp below))
  calc s.session.generation = (Finset.range s.session.generation).card := (Finset.card_range _).symm
    _ ≤ s.reportedGenerations.card := Finset.card_le_card left

inductive Takes (s : Supervisor) : Supervisor → Prop where
  | current {x rest} (next : s.events = x :: rest) (same : x.generation = s.session.generation)
      (connected : s.session.state = .connected) :
      Takes s { s with
        events := rest
        session := s.session.vacate .reconnecting
        recovery := .releasing s.session.held }
  | stale {x rest} (next : s.events = x :: rest)
      (other : x.generation ≠ s.session.generation ∨ s.session.state ≠ .connected) :
      Takes s { s with events := rest }
  | ended {events} : Takes s { s with events := events, recovery := .ended }

theorem takesOfRecovery {alive : Bool} (idle : s.recovery.running = false)
    (move : RecoveryMove alive e s f t) : f = e ∧ s.Takes t := by
  cases move with
  | quit | leave => exact ⟨rfl, .ended⟩
  | @handle x rest here next =>
    refine ⟨rfl, ?_⟩
    unfold handle
    split
    · rename_i current; exact .current next current.1.symm current.2
    · rename_i other
      refine .stale next ?_
      rcases Decidable.not_and_iff_or_not.mp other with generation | state
      · exact .inl (Ne.symm generation)
      · exact .inr state
  | release here | released here | dial here | giveUp here | failed here | establish here
  | abandon here | abandoned here | arm here | announce here | adopt here =>
    rw [here] at idle
    cases idle

theorem takesOfLoss (coherent : s.Coherent) (change : Change e s f t) (lost : loses s t = true) :
    s.Takes t := by
  have same (session : t.session = s.session) : s.Takes t := by
    rw [losesSame session] at lost
    cases lost
  cases change with
  | same => exact same rfl
  | watcher move => exact same (sessionOfWatcher move)
  | closing move =>
    cases move with
    | take => exact nomatch (of_decide_eq_true lost).2
    | raise | release | released => exact same rfl
  | recovery move =>
    cases move with
    | handle here next asked =>
      exact (takesOfRecovery (by rw [here]; rfl) (.handle (β := β) (e := e) here next asked)).2
    | adopt here =>
      have connected := (of_decide_eq_true lost).1
      exact absurd connected (coherent.replacing (by rw [here]; rfl))
    | _ => exact same rfl

theorem eventsOfRecovery {alive : Bool} (running : s.recovery.running = true)
    (move : RecoveryMove alive e s f t) : t.events = s.events := by
  cases move with
  | leave here | handle here => rw [here] at running; cases running
  | adopt => unfold adopt; split <;> rfl
  | _ => rfl

end Supervisor

namespace World

variable {β : Type} [Broker β] {outside : β → β → Prop} {start w v : World β}
  {changes : List (World β × World β)} {i : Nat} {c : Client}

theorem recoveryStepSource {preferStop : Bool} (found : w.clients[i]? = some c)
    (made : w.step (.client i .recovery) preferStop = some v) :
    ∃ t, Supervisor.RecoveryMove c.alive w.env c.supervisor v.env t ∧
      v.clients[i]? = some { c with supervisor := t } := by
  obtain ⟨c', e, d, there, stepped, rfl⟩ := clientStepSource made
  cases Option.some.inj (found.symm.trans there)
  obtain ⟨⟨f, t⟩, moved, same⟩ := Option.map_eq_some_iff.mp stepped
  cases same
  exact ⟨t, Supervisor.recoveryMove moved,
    List.getElem?_set_self (List.getElem?_eq_some_iff.mp found).1⟩

theorem watcherStepSource {j : Nat} {preferStop : Bool} (found : w.clients[i]? = some c)
    (made : w.step (.client i (.watcher j)) preferStop = some v) :
    v.env = w.env ∧ ∃ t, Supervisor.WatcherMove j w.env c.supervisor t ∧
      v.clients[i]? = some { c with supervisor := t } := by
  obtain ⟨c', e, d, there, stepped, rfl⟩ := clientStepSource made
  cases Option.some.inj (found.symm.trans there)
  obtain ⟨⟨f, t⟩, moved, same⟩ := Option.map_eq_some_iff.mp stepped
  cases same
  obtain ⟨rfl, move⟩ := Supervisor.watcherMove moved
  exact ⟨rfl, t, move, List.getElem?_set_self (List.getElem?_eq_some_iff.mp found).1⟩

structure RecoversOnce (i : Nat) (changes : List (World β × World β)) (w : World β)
    (s : Supervisor) : Prop where
  reporting : ∀ j preferStop v, w.step (.client i (.watcher j)) preferStop = some v →
    v.env = w.env ∧ ∃ d, v.clients[i]? = some d ∧ d.supervisor.session = s.session ∧
      d.supervisor.recovery = s.recovery
  taking : s.recovery.running = false →
    ∀ preferStop v, w.step (.client i .recovery) preferStop = some v →
      v.env = w.env ∧ ∃ d, v.clients[i]? = some d ∧ s.Takes d.supervisor
  busy : s.recovery.running = true →
    ∀ preferStop v, w.step (.client i .recovery) preferStop = some v →
      ∃ d, v.clients[i]? = some d ∧ d.supervisor.events = s.events
  losses : ∀ x ∈ changes, ∀ b d, x.1.clients[i]? = some b → x.2.clients[i]? = some d →
    Supervisor.loses b.supervisor d.supervisor = true → b.supervisor.Takes d.supervisor
  loops : timesSeen i Supervisor.loses changes =
    timesSeen i Supervisor.ends changes + s.recovery.running.toNat
  once : ∀ g, timesSeen i (Supervisor.leaves g) changes ≤ 1
  reported : timesSeen i Supervisor.reconnects changes ≤ s.reportedGenerations.card
  replaced : s.session.state = .reconnecting → s.recovery.running = true ∨ s.stopped = true

/-- Every lost generation is recovered once, whatever reports come, late and twice. -/
theorem generationsRecovered (fresh : Fresh start) (course : Course (Use outside) start changes w)
    (found : w.clients[i]? = some c) : RecoversOnce i changes w c.supervisor := by
  have reached := courseReachable fresh course
  have coherent := Supervisor.coherentReachable reached found
  have sound (w : World β) (i : Nat) (c : Client) (reached : Reachable outside w)
      (there : w.clients[i]? = some c) : c.supervisor.Coherent :=
    Supervisor.coherentReachable reached there
  refine ⟨fun j preferStop v made => ?_, fun idle preferStop v made => ?_,
    fun running preferStop v made => ?_, fun x mem b d before after lost => ?_, ?_, fun g => ?_, ?_,
    (Supervisor.attentiveReachable reached found).reconnecting⟩
  · obtain ⟨same, t, move, there⟩ := watcherStepSource found made
    exact ⟨same, _, there, Supervisor.sessionOfWatcher move, by cases move <;> rfl⟩
  · obtain ⟨t, move, there⟩ := recoveryStepSource found made
    obtain ⟨same, takes⟩ := Supervisor.takesOfRecovery idle move
    exact ⟨same, _, there, takes⟩
  · obtain ⟨t, move, there⟩ := recoveryStepSource found made
    exact ⟨_, there, Supervisor.eventsOfRecovery running move⟩
  · obtain ⟨earlier, used⟩ := courseStep fresh course mem
    exact Supervisor.takesOfLoss (sound _ _ _ earlier before)
      (Supervisor.changeOf (useSame used before after)) lost
  · have balance := timesSeenBalance (M := fun s => s.recovery.running.toNat) sound
      (fun _ _ _ _ _ _ => rfl) (fun _ _ _ _ change coherent =>
        Supervisor.loopsChange coherent change) fresh course i
    rw [found] at balance
    exact balance
  · have counted := timesSeenMeasure (p := Supervisor.leaves g)
      (M := fun s => (s.session.past g).toNat) sound (fun _ _ _ _ _ _ => by
        cases g <;> rfl) (fun _ _ _ _ change coherent =>
        Supervisor.leavesChange coherent change) fresh course found
    rw [counted]
    exact Bool.toNat_le _
  · rw [generationCounts fresh course found]
    exact Supervisor.generationReported coherent

open Broker (Memory)

def lateReport : World Memory :=
  (drive (.client 0 .recovery) 10 false (online.drop.settle.advance 5000)).2

theorem lateReportReached : Reachable Drops lateReport := reachableDriven pauseReached _ 10

theorem lateReportRecovered : ∃ start changes c x, Fresh start ∧
    Course (Use Drops) start changes lateReport ∧ lateReport.clients[0]? = some c ∧
    c.supervisor.events = [x] ∧ x.generation = 0 ∧
    timesSeen 0 Supervisor.reconnects changes = 1 ∧
    RecoversOnce 0 changes lateReport c.supervisor := by
  obtain ⟨start, fresh, run⟩ := lateReportReached
  obtain ⟨changes, course⟩ := runCourse run
  have seen : (lateReport.clients[0]?.any fun c =>
      c.supervisor.events == [⟨0, .channel, "gone"⟩] && c.supervisor.session.generation == 1) = true := by
    decide +kernel
  obtain ⟨c, found, seen⟩ := (Option.any_eq_true _ _).mp seen
  obtain ⟨events, generation⟩ := Bool.and_eq_true_iff.mp seen
  exact ⟨start, changes, c, _, fresh, course, found, beq_iff_eq.mp events, rfl,
    (generationCounts fresh course found).trans (beq_iff_eq.mp generation),
    generationsRecovered fresh course found⟩

end World

end AmqpClient
