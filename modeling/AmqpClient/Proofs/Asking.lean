import AmqpClient.Proofs.Consumer.Hastening
/-! A consumer in a world at rest is asked to close. Until its call raises the stop flag it takes and
gives back the lock and clears the flag that tells whether the consumer is consuming; no one waits
for either, so that no one but the call can make a step. -/
namespace AmqpClient

variable {β : Type} [Broker β]

theorem Supervisor.recoveryUnmoved {s : Supervisor} {e : Env β} {alive preferStop : Bool}
    (other : Bool) (stuck : s.recoveryStep alive preferStop e = none) :
    s.recoveryStep other preferStop e = none := by
  unfold recoveryStep at stuck ⊢
  cases here : s.recovery with
  | listening =>
    rw [here] at stuck
    dsimp only at stuck ⊢
    cases next : s.events with
    | nil =>
      simp only [next] at stuck ⊢
      split at stuck
      · cases stuck
      · rename_i running
        exact if_neg running
    | cons x rest =>
      simp only [next] at stuck
      repeat' split at stuck
      all_goals cases stuck
  | ended => rfl
  | establishing x => cases x <;> (rw [here] at stuck; exact stuck)
  | _ =>
    rw [here] at stuck
    exact stuck

namespace Consumer

variable {s : Supervisor} {e f : Env β} {k l m : Consumer} {call : Nat}

inductive Entering (call : Nat) (k : Consumer) : ConsumerClosing → Consumer → Prop where
  | locking : Entering call k .locking k
  | clearing : Entering call k .clearing { k with lock := some (.call call) }
  | unlocking : Entering call k .unlocking { k with lock := some (.call call), consuming := false }
  | raising : Entering call k .raising { k with lock := none, consuming := false }

def Unguarded (k m : Consumer) : Prop := ∃ lock consuming, m = { k with lock, consuming }

omit [Broker β] in
theorem enteringUnguarded {x : ConsumerClosing} (entering : Entering call k x m) :
    Unguarded k m := by
  cases entering with
  | locking => exact ⟨k.lock, k.consuming, rfl⟩
  | _ => exact ⟨_, _, rfl⟩

theorem enteringGoes {x : ConsumerClosing} (free : k.lock = none) (entering : Entering call k x m) :
    m.closeStep call e s x ≠ none := by
  cases entering with
  | locking =>
    unfold closeStep
    rw [free]
    exact Option.some_ne_none _
  | raising =>
    unfold closeStep
    dsimp only
    split <;> exact Option.some_ne_none _
  | _ => exact Option.some_ne_none _

theorem enteringMove {t : Supervisor} {x y : ConsumerClosing} (running : k.stopped = false)
    (entering : Entering call k x m) (move : m.CloseMove call e s x f t l y) :
    f = e ∧ t = s ∧ (Entering call k y l ∨ (y = .grace (e.now + closeGrace) ∧
      l = { k with lock := none, consuming := false, stopped := true })) := by
  cases entering with
  | locking => cases move; exact ⟨rfl, rfl, .inl .clearing⟩
  | clearing => cases move; exact ⟨rfl, rfl, .inl .unlocking⟩
  | unlocking => cases move; exact ⟨rfl, rfl, .inl .raising⟩
  | raising =>
    cases move with
    | raise => exact ⟨rfl, rfl, .inr ⟨rfl, rfl⟩⟩
    | raised again => exact absurd again (Bool.eq_false_iff.mp running)

theorem workerUnmoved {i : Nat} (same : Unguarded k m) (stuck : k.workerStep i e = none) :
    m.workerStep i e = none := by
  obtain ⟨lock, consuming, rfl⟩ := same
  unfold workerStep at stuck ⊢
  dsimp only
  cases found : k.workers[i]? with
  | none => rfl
  | some x =>
    rw [found] at stuck
    dsimp only at stuck ⊢
    cases here : x.phase with
    | starting =>
      simp only [here] at stuck
      split at stuck <;> cases stuck
    | handling ends result =>
      simp only [here] at stuck ⊢
      by_cases early : e.now < ends
      · exact if_pos early
      · rw [if_neg early] at stuck
        cases result <;> cases stuck
    | done => rfl
    | _ => rw [here] at stuck; cases stuck

theorem retryUnmoved {i : Nat} (same : Unguarded k m) (stuck : k.retryStep i s e = none) :
    m.retryStep i s e = none := by
  obtain ⟨lock, consuming, rfl⟩ := same
  unfold retryStep at stuck ⊢
  dsimp only
  cases found : k.retries[i]? with
  | none => rfl
  | some r =>
    rw [found] at stuck
    exact Option.map_eq_none_iff.mpr (Option.map_eq_none_iff.mp stuck)

theorem closeUnmoved {i : Nat} {x : ConsumerClosing} (same : Unguarded k m) (free : k.lock = none)
    (stuck : k.closeStep i e s x = none) : m.closeStep i e s x = none := by
  obtain ⟨lock, consuming, rfl⟩ := same
  cases x with
  | locking =>
    unfold closeStep at stuck
    rw [free] at stuck
    cases stuck
  | raising =>
    unfold closeStep at stuck
    dsimp only at stuck
    split at stuck <;> cases stuck
  | grace ends =>
    unfold closeStep at stuck ⊢
    dsimp only at stuck ⊢
    split at stuck
    · cases stuck
    · rename_i early
      exact if_neg early
  | joining tasks =>
    unfold closeStep at stuck ⊢
    dsimp only at stuck ⊢
    split at stuck
    · cases stuck
    · rename_i unfinished
      exact if_neg unfinished
  | closing a => exact Option.map_eq_none_iff.mpr (Option.map_eq_none_iff.mp stuck)
  | clearing | unlocking | collecting => cases stuck

end Consumer

namespace Client

variable {c : Client} {k m : Consumer} {e f : Env β}

def asked (x : Consumer.ConsumerClosing) (m : Consumer) (c : Client) : Client :=
  { c with role := .consumer m, calls := c.calls ++ [.closeConsumer x] }

omit [Broker β] in
theorem askedLast {x : Consumer.ConsumerClosing} :
    (c.asked x m).calls[c.calls.length]? = some (.closeConsumer x) := List.getElem?_concat_length

omit [Broker β] in
theorem askedSet {x y : Consumer.ConsumerClosing} {l : Consumer} :
    { c.asked x m with role := .consumer l }.setCall c.calls.length (.closeConsumer y) =
      c.asked y l := by
  unfold setCall asked
  dsimp only
  rw [List.set_append_right _ _ (Nat.le_refl _), Nat.sub_self]
  rfl

theorem askedStill {a : Activity} {preferStop : Bool} {x : Consumer.ConsumerClosing}
    (role : c.role = .consumer k) (free : k.lock = none) (same : Consumer.Unguarded k m)
    (still : ∀ a preferStop, c.step a preferStop e = none) (other : a ≠ .call c.calls.length) :
    (c.asked x m).step a preferStop e = none := by
  have stuck := still a preferStop
  cases a with
  | recovery =>
    exact Option.map_eq_none_iff.mpr (Supervisor.recoveryUnmoved _ (Option.map_eq_none_iff.mp stuck))
  | watcher => exact Option.map_eq_none_iff.mpr (Option.map_eq_none_iff.mp stuck)
  | loop i =>
    refine Option.map_eq_none_iff.mpr (Consumer.loopUnmoved (k := k) ?_ ?_ ?_ ?_ ?_)
    · obtain ⟨lock, consuming, rfl⟩ := same; rfl
    · obtain ⟨lock, consuming, rfl⟩ := same; rfl
    · obtain ⟨lock, consuming, rfl⟩ := same; rfl
    · intro l mem
      obtain ⟨j, found⟩ := List.getElem?_of_mem mem
      have waits := still (.loop j) false
      simp only [step, consumerStep, role, Option.map_eq_none_iff] at waits
      exact (Consumer.windsStuck found free waits).2
    · simp only [step, consumerStep, role, Option.map_eq_none_iff] at stuck
      exact stuck
  | worker i =>
    refine Option.map_eq_none_iff.mpr (Consumer.workerUnmoved same ?_)
    simpa only [step, consumerStep, role, Option.map_eq_none_iff] using stuck
  | retry i =>
    refine Option.map_eq_none_iff.mpr (Consumer.retryUnmoved same ?_)
    simp only [step, consumerStep, role, Option.map_eq_none_iff] at stuck
    exact stuck
  | call i =>
    change (c.asked x m).callStep i e = none
    unfold callStep asked
    dsimp only
    rcases Nat.lt_trichotomy i c.calls.length with before | here | beyond
    · rw [List.getElem?_append_left before]
      change c.callStep i e = none at stuck
      unfold callStep at stuck
      rw [role] at stuck
      cases found : c.calls[i]? with
      | none => rfl
      | some y =>
        rw [found] at stuck
        cases y with
        | publish p | close y => exact Option.map_eq_none_iff.mpr (Option.map_eq_none_iff.mp stuck)
        | start y =>
          rcases Consumer.startStuck (Option.map_eq_none_iff.mp stuck) with ⟨o, rfl⟩ | ⟨-, taken⟩
          · rfl
          · exact absurd free taken
        | closeConsumer y =>
          exact Option.map_eq_none_iff.mpr
            (Consumer.closeUnmoved same free (Option.map_eq_none_iff.mp stuck))
    · exact absurd (congrArg Activity.call here) other
    · rw [List.getElem?_eq_none (by rw [List.length_append]; exact beyond)]

end Client

namespace World

variable {w v : World β} {i : Nat} {c : Client} {k m : Consumer}

def asked (i : Nat) (x : Consumer.ConsumerClosing) (m : Consumer) (c : Client) (w : World β) :
    World β :=
  { w with clients := w.clients.set i (c.asked x m) }

omit [Broker β] in
theorem callAsked (found : w.clients[i]? = some c) (role : c.role = .consumer k) :
    w.call i (.closeConsumer .locking) = w.asked i .locking k c := by
  unfold call asked Client.asked
  rw [modifyFound found, ← role]

theorem openingUnmoved {j : Nat} {clients : List Client} (stuck : w.openingStep j = none) :
    openingStep j { w with clients } = none := by
  unfold openingStep at stuck ⊢
  dsimp only
  cases found : w.openings[j]? with
  | none => rfl
  | some o =>
    rw [found] at stuck
    dsimp only at stuck ⊢
    split at stuck
    · split at stuck <;> cases stuck
    · cases stuck
    · cases stuck
    · rename_i none
      exact Option.map_eq_none_iff.mpr (Option.map_eq_none_iff.mp stuck)
    · rfl
    · rfl

theorem askedAlone {x : Consumer.ConsumerClosing} {a : Actor} {preferStop : Bool} (quiet : w.Quiet)
    (found : w.clients[i]? = some c) (role : c.role = .consumer k) (free : k.lock = none)
    (same : Consumer.Unguarded k m) (made : (w.asked i x m c).step a preferStop = some v) :
    a = .client i (.call c.calls.length) := by
  refine Classical.byContradiction fun other => ?_
  have stuck := quiet a preferStop
  cases a with
  | opening j => cases (openingUnmoved stuck).symm.trans made
  | client j b =>
    obtain ⟨d, f, d', there, stepped, -⟩ := clientStepSource made
    by_cases mine : i = j
    · subst mine
      have inside : i < w.clients.length := (List.getElem?_eq_some_iff.mp found).1
      cases (List.getElem?_set_self inside).symm.trans there
      have still (a : Activity) (preferStop : Bool) : c.step a preferStop w.env = none := by
        have stuck := quiet (.client i a) preferStop
        simp only [step, clientStep, found] at stuck
        exact Option.map_eq_none_iff.mp stuck
      cases (Client.askedStill role free same still fun here => other (congrArg _ here)).symm.trans
        stepped
    · have there : w.clients[j]? = some d := (List.getElem?_set_ne mine).symm.trans there
      simp only [step, clientStep, there] at stuck
      cases (Option.map_eq_none_iff.mp stuck).symm.trans stepped

theorem askedBusy {x : Consumer.ConsumerClosing} (found : w.clients[i]? = some c)
    (free : k.lock = none) (entering : Consumer.Entering c.calls.length k x m) :
    ¬ (w.asked i x m c).Quiet := by
  intro quiet
  have place : i < w.clients.length := (List.getElem?_eq_some_iff.mp found).1
  have stuck := stillOf quiet (List.getElem?_set_self place) (.call c.calls.length)
  change (c.asked x m).callStep c.calls.length w.env = none at stuck
  unfold Client.callStep at stuck
  rw [Client.askedLast] at stuck
  exact Consumer.enteringGoes free entering (Option.map_eq_none_iff.mp stuck)

theorem askedStep {x : Consumer.ConsumerClosing} {a : Actor} {preferStop : Bool} (quiet : w.Quiet)
    (found : w.clients[i]? = some c) (role : c.role = .consumer k) (free : k.lock = none)
    (running : k.stopped = false) (entering : Consumer.Entering c.calls.length k x m)
    (made : (w.asked i x m c).step a preferStop = some v) :
    (∃ y l, Consumer.Entering c.calls.length k y l ∧ v = w.asked i y l c) ∨
      v = w.asked i (.grace (w.env.now + Consumer.closeGrace))
        { k with lock := none, consuming := false, stopped := true } c := by
  cases askedAlone quiet found role free (Consumer.enteringUnguarded entering) made
  have inside : i < w.clients.length := (List.getElem?_eq_some_iff.mp found).1
  obtain ⟨d, f, d', there, stepped, rfl⟩ := clientStepSource made
  cases (List.getElem?_set_self inside).symm.trans there
  change (c.asked x m).callStep c.calls.length w.env = _ at stepped
  unfold Client.callStep at stepped
  rw [Client.askedLast] at stepped
  obtain ⟨⟨g, t, l, y⟩, closed, same⟩ := Option.map_eq_some_iff.mp stepped
  cases same
  obtain ⟨rfl, rfl, goes⟩ :=
    Consumer.enteringMove running entering (Consumer.closeMove closed)
  have quietly : recordEnd i (.call c.calls.length) (c.asked y l) w.env = w.env := by
    unfold recordEnd
    dsimp only
    rw [Client.askedLast]
    rcases goes with entered | ⟨rfl, -⟩
    · cases entered <;> rfl
    · rfl
  have next : World.mk (recordEnd i (.call c.calls.length) ({ c.asked x m with
      role := .consumer l }.setCall c.calls.length (.closeConsumer y)) w.env) w.openings
      ((w.clients.set i (c.asked x m)).set i ({ c.asked x m with
      role := .consumer l }.setCall c.calls.length (.closeConsumer y))) = w.asked i y l c := by
    rw [Client.askedSet, List.set_set, quietly]
    rfl
  rcases goes with entered | ⟨rfl, rfl⟩
  · exact .inl ⟨y, l, entered, next⟩
  · exact .inr next

end World

end AmqpClient
