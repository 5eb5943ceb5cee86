import AmqpClient.Proofs.Counts
import AmqpClient.Proofs.Use
/-! Runs with the changes they make, so that what happened on the way can be looked up and counted.
What is seen of a supervisor changes only by the steps of its own tasks and of the calls that close
it. -/
namespace AmqpClient

namespace Supervisor

variable {β : Type} [Broker β]

inductive Change (e : Env β) (s : Supervisor) : Env β → Supervisor → Prop where
  | same {f} (grows : e.Grows f) : Change e s f s
  | recovery {alive f t g} (move : RecoveryMove alive e s f t) (grows : f.Grows g) : Change e s g t
  | watcher {i t f} (move : WatcherMove i e s t) (grows : e.Grows f) : Change e s f t
  | closing {x f t y g} (move : ClosingMove e s x f t y) (grows : f.Grows g) : Change e s g t

theorem changeOfMove {e f g : Env β} {c d : Client} (move : Client.Move e c f d)
    (grows : f.Grows g) : Change e c.supervisor g d.supervisor := by
  have grown : e.Grows g := Env.growsTrans (Client.growsOfMove move) grows
  cases move with
  | recovery made => exact .recovery (recoveryMove made) grows
  | watcher made => exact .watcher (watcherMove made).2 grown
  | close _ made => exact .closing (closingMove made) grows
  | closeConsumer _ _ made =>
    cases Consumer.closeMove made with
    | closing stepped => exact .closing (closingMove stepped) grows
    | _ => exact .same grows
  | _ => exact .same grown

theorem changeOf {e f : Env β} {c d : Client} (change : Client.Change e c f d) :
    Change e c.supervisor f d.supervisor := by
  cases change with
  | same grows => exact .same grows
  | step made grows => exact changeOfMove (Client.clientMove made) grows
  | call | letGo => exact .same (Env.growsRefl e)

end Supervisor

namespace World

variable {β : Type}

inductive Course (step : World β → World β → Prop) (start : World β) :
    List (World β × World β) → World β → Prop where
  | refl : Course step start [] start
  | next {changes w v} (before : Course step start changes w) (last : step w v) :
      Course step start ((w, v) :: changes) v

variable {step : World β → World β → Prop} {start w v : World β}
  {changes : List (World β × World β)}

theorem courseRun (course : Course step start changes w) : Run step start w := by
  induction course with
  | refl => exact .refl start
  | next _ last ih => exact ih.next last

theorem runCourse (run : Run step start w) : ∃ changes, Course step start changes w := by
  induction run with
  | refl => exact ⟨[], .refl⟩
  | next _ last ih =>
    obtain ⟨changes, course⟩ := ih
    exact ⟨_, course.next last⟩

def seen (i : Nat) (p : Supervisor → Supervisor → Bool) (x : World β × World β) : Bool :=
  match x.1.clients[i]?, x.2.clients[i]? with
  | some c, some d => p c.supervisor d.supervisor
  | _, _ => false

def timesSeen (i : Nat) (p : Supervisor → Supervisor → Bool) (changes : List (World β × World β)) :
    Nat :=
  changes.countP (seen i p)

variable [Broker β] {outside : β → β → Prop}

theorem courseReachable (fresh : Fresh start) (course : Course (Use outside) start changes w) :
    Reachable outside w := ⟨start, fresh, courseRun course⟩

theorem courseStep (fresh : Fresh start) (course : Course (Use outside) start changes w)
    {x : World β × World β} (mem : x ∈ changes) : Reachable outside x.1 ∧ Use outside x.1 x.2 := by
  induction course with
  | refl => cases mem
  | next before last ih =>
    cases mem with
    | head => exact ⟨courseReachable fresh before, last⟩
    | tail _ mem => exact ih mem

theorem courseClient {P : Nat → List (World β × World β) → Env β → Client → Prop}
    (born : ∀ changes w v i o l s t, Course (Use outside) start changes w → o ∈ w.openings →
      o.phase = .establishing (.ready l s t) → v.env = w.env →
      P i ((w, v) :: changes) v.env (World.client o l s t))
    (kept : ∀ changes w v i c d, Course (Use outside) start changes w → w.clients[i]? = some c →
      v.clients[i]? = some d → c.Change w.env v.env d → P i changes w.env c →
      P i ((w, v) :: changes) v.env d)
    (fresh : Fresh start) (course : Course (Use outside) start changes w) {i : Nat} {c : Client}
    (found : w.clients[i]? = some c) : P i changes w.env c := by
  induction course generalizing i c with
  | refl => simp [fresh.clients] at found
  | next before last ih =>
    rcases useClient last found with ⟨-, o, l, s, t, mem, ready, same, rfl⟩ | ⟨b, there, change⟩
    · exact born _ _ _ _ _ _ _ _ before mem ready same
    · exact kept _ _ _ _ _ _ before there found change (ih there)

theorem useKeeps (h : Use outside w v) {i : Nat} {c : Client} (found : w.clients[i]? = some c) :
    ∃ d, v.clients[i]? = some d := by
  have inside : i < w.clients.length := (List.getElem?_eq_some_iff.mp found).1
  suffices more : w.clients.length ≤ v.clients.length by
    exact ⟨_, List.getElem?_eq_getElem (Nat.lt_of_lt_of_le inside more)⟩
  cases h with
  | act made =>
    obtain ⟨a, preferStop, made⟩ := made
    cases a with
    | opening j =>
      obtain ⟨-, same | ⟨o, l, s, t, grown⟩⟩ := openingStepClients made
      · exact Nat.le_of_eq (congrArg List.length same).symm
      · rw [grown, List.length_append]; exact Nat.le_add_right _ _
    | client j a =>
      obtain ⟨c, e, d, -, -, rfl⟩ := clientStepSource made
      exact Nat.le_of_eq List.length_set.symm
  | time | broker | make => exact Nat.le_refl _
  | call | letGo => exact Nat.le_of_eq (List.length_modify ..).symm

theorem useSame (h : Use outside w v) {i : Nat} {c d : Client} (before : w.clients[i]? = some c)
    (after : v.clients[i]? = some d) : c.Change w.env v.env d := by
  rcases useClient h after with ⟨missing, -⟩ | ⟨b, there, change⟩
  · rw [before] at missing
    cases missing
  · cases Option.some.inj (before.symm.trans there)
    exact change

theorem settingsUse {i : Nat} {c : Client} (used : Use outside w v) (found : w.clients[i]? = some c) :
    ∃ d, v.clients[i]? = some d ∧ d.supervisor.topology = c.supervisor.topology ∧
      d.supervisor.reconnectDelay = c.supervisor.reconnectDelay := by
  obtain ⟨d, there⟩ := useKeeps used found
  refine ⟨d, there, ?_⟩
  have change := useSame used found there
  generalize v.env = f at change
  cases change with
  | same | call | letGo => exact ⟨rfl, rfl⟩
  | step made =>
    have move := Client.clientMove made
    exact ⟨Client.topologyOfMove move, Client.delayOfMove move⟩

theorem settingsLater {i : Nat} {c : Client} (run : Run (Use outside) w v) (found : w.clients[i]? = some c) :
    ∃ d, v.clients[i]? = some d ∧ d.supervisor.topology = c.supervisor.topology ∧
      d.supervisor.reconnectDelay = c.supervisor.reconnectDelay := by
  induction run with
  | refl => exact ⟨c, found, rfl, rfl⟩
  | next _ last ih =>
    obtain ⟨d, there, topology, pause⟩ := ih
    obtain ⟨b, next, topology', pause'⟩ := settingsUse last there
    exact ⟨b, next, topology'.trans topology, pause'.trans pause⟩

/-- What each change of a supervisor that shows `p` adds to a measure of it, and each that shows `q`
takes away, is in all what the measure has come to. -/
theorem timesSeenBalance {C : Supervisor → Prop} {p q : Supervisor → Supervisor → Bool}
    {M : Supervisor → Nat}
    (sound : ∀ (w : World β) (i : Nat) (c : Client), Reachable outside w →
      w.clients[i]? = some c → C c.supervisor)
    (born : ∀ client t delay l s h, M (Supervisor.start client t delay l s h) = 0)
    (kept : ∀ (e : Env β) s f t, Supervisor.Change e s f t → C s →
      M t + (q s t).toNat = M s + (p s t).toNat)
    (fresh : Fresh start) (course : Course (Use outside) start changes w) (i : Nat) :
    timesSeen i p changes = timesSeen i q changes +
      (w.clients[i]?.map fun c : Client => M c.supervisor).getD 0 := by
  induction course with
  | refl => simp [timesSeen, fresh.clients]
  | @next changes w v before last ih =>
    have unseen (missing : w.clients[i]? = none) (r : Supervisor → Supervisor → Bool) :
        seen i r (w, v) = false := by simp only [seen, missing]
    simp only [timesSeen, List.countP_cons] at ih ⊢
    cases found : v.clients[i]? with
    | none =>
      have missing : w.clients[i]? = none := by
        refine Option.eq_none_iff_forall_ne_some.mpr fun c there => ?_
        obtain ⟨d, still⟩ := useKeeps last there
        rw [found] at still
        cases still
      rw [unseen missing p, unseen missing q, ih, missing]
      rfl
    | some d =>
      rcases useClient last found with ⟨missing, o, l, s, t, -, -, -, rfl⟩ | ⟨c, there, change⟩
      · rw [unseen missing p, unseen missing q, ih, missing]
        exact congrArg _ (born _ _ _ l s t).symm
      · have balance := kept w.env _ v.env _ (Supervisor.changeOf change)
          (sound w i c (courseReachable fresh before) there)
        have looked (r : Supervisor → Supervisor → Bool) :
            seen i r (w, v) = r c.supervisor d.supervisor := by simp only [seen, there, found]
        rw [there] at ih
        simp only [toNatIf] at balance
        simp only [looked, Option.map_some, Option.getD_some] at ih ⊢
        omega

theorem timesSeenMeasure {C : Supervisor → Prop} {p : Supervisor → Supervisor → Bool}
    {M : Supervisor → Nat}
    (sound : ∀ (w : World β) (i : Nat) (c : Client), Reachable outside w →
      w.clients[i]? = some c → C c.supervisor)
    (born : ∀ client t delay l s h, M (Supervisor.start client t delay l s h) = 0)
    (kept : ∀ (e : Env β) s f t, Supervisor.Change e s f t → C s →
      M t = M s + (p s t).toNat)
    (fresh : Fresh start) (course : Course (Use outside) start changes w) {i : Nat} {c : Client}
    (found : w.clients[i]? = some c) : timesSeen i p changes = M c.supervisor := by
  have never : timesSeen i (fun _ _ => false) changes = 0 := by
    refine List.countP_eq_zero.mpr fun x _ counted => ?_
    unfold seen at counted
    split at counted <;> cases counted
  rw [timesSeenBalance (q := fun _ _ => false) sound born kept fresh course i, never, found,
    Nat.zero_add]
  rfl

end World

end AmqpClient
