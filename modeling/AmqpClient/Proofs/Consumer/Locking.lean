import AmqpClient.Proofs.Consumer.Running
/-! The lock on the flag that tells whether the consumer is consuming. Whoever is between taking it
and giving it back holds it, and no one else does; all of them can go on, so that the lock is free
when no one can make a step. -/
namespace AmqpClient

namespace Consumer

variable {s : Supervisor} {k m : Consumer}

inductive StartMove (call : Nat) (s : Supervisor) (k : Consumer) :
    Starting → Consumer → Starting → Prop where
  | lock (free : k.lock.isNone = true) :
      StartMove call s k .locking { k with lock := some (.call call) } .checkingStop
  | refuse (stopped : k.stopped = true) :
      StartMove call s k .checkingStop k (.unlocking (.error .closed))
  | enter (running : k.stopped = false) : StartMove call s k .checkingStop k .checkingRunning
  | again (consuming : k.consuming = true) :
      StartMove call s k .checkingRunning k (.unlocking (.ok ()))
  | mark (idle : k.consuming = false) :
      StartMove call s k .checkingRunning { k with consuming := true } .spawning
  | spawn : StartMove call s k .spawning
      { k with loops := k.loops ++ [{ seen := s.announced, generation := s.session.generation }] }
      (.unlocking (.ok ()))
  | unlock {o} : StartMove call s k (.unlocking o) { k with lock := none } (.done o)

theorem startMove {call : Nat} {x y : Starting} (made : k.startStep call s x = some (m, y)) :
    StartMove call s k x m y := by
  cases x with
  | locking =>
    simp only [startStep] at made
    split at made <;> cases made
    exact .lock (by assumption)
  | checkingStop =>
    simp only [startStep] at made
    split at made <;> cases made
    · exact .refuse (by assumption)
    · exact .enter (Bool.eq_false_iff.mpr (by assumption))
  | checkingRunning =>
    simp only [startStep] at made
    split at made <;> cases made
    · exact .again (by assumption)
    · exact .mark (Bool.eq_false_iff.mpr (by assumption))
  | spawning => cases made; exact .spawn
  | unlocking o => cases made; exact .unlock
  | done o => cases made

theorem startStuck {call : Nat} {x : Starting} (stuck : k.startStep call s x = none) :
    (∃ o, x = .done o) ∨ (x = .locking ∧ k.lock ≠ none) := by
  unfold startStep at stuck
  split at stuck
  case h_1 =>
    split at stuck
    · contradiction
    · rename_i taken
      exact .inr ⟨rfl, fun free => taken (by rw [free]; rfl)⟩
  case h_6 => exact .inl ⟨_, rfl⟩
  all_goals
    try split at stuck
    all_goals contradiction

def LoopPhase.inside : LoopPhase → Bool
  | .clearing => true
  | .unlocking => true
  | _ => false

end Consumer

def Call.inside : Call → Bool
  | .start x => x.inside
  | .closeConsumer .clearing => true
  | .closeConsumer .unlocking => true
  | _ => false

theorem Call.opensConsumer {x : Call} {k : Consumer} (opens : x.Opens (.consumer k)) :
    x = .start .locking ∨ x = .closeConsumer .locking := by
  unfold Opens at opens
  split at opens
  case h_1 => exact .inl rfl
  case h_2 => exact .inr rfl
  all_goals contradiction

namespace Client

def inside (c : Client) (k : Consumer) : Consumer.Holder → Bool
  | .call i => c.calls[i]?.any Call.inside
  | .loop i => k.loops[i]?.any fun l => l.phase.inside

def Locked (c : Client) (k : Consumer) : Prop := ∀ h, k.lock = some h ↔ c.inside k h = true

variable {c d : Client} {k m : Consumer} {h : Consumer.Holder} {i : Nat} {x y : Call}

theorem lockedKept (locked : c.Locked k) (same : ∀ h, d.inside m h = c.inside k h)
    (lock : m.lock = k.lock) : d.Locked m := by
  intro h
  rw [lock, same]
  exact locked h

theorem lockedTaken (locked : c.Locked k) (free : k.lock.isNone = true)
    (mine : d.inside m h = true) (others : ∀ g, g ≠ h → d.inside m g = c.inside k g)
    (lock : m.lock = some h) : d.Locked m := by
  intro g
  rw [lock]
  by_cases here : g = h
  · subst here
    exact ⟨fun _ => mine, fun _ => rfl⟩
  · rw [others g here, ← locked g, Option.isNone_iff_eq_none.mp free]
    exact ⟨fun same => absurd (Option.some.inj same).symm here, nofun⟩

theorem lockedGiven (locked : c.Locked k) (held : c.inside k h = true)
    (mine : d.inside m h = false) (others : ∀ g, g ≠ h → d.inside m g = c.inside k g)
    (lock : m.lock = none) : d.Locked m := by
  intro g
  rw [lock]
  by_cases here : g = h
  · subst here
    rw [mine]
    exact ⟨nofun, nofun⟩
  · rw [others g here, ← locked g, (locked h).mpr held]
    exact ⟨nofun, fun same => absurd (Option.some.inj same).symm here⟩

theorem insideCall (here : c.calls[i]? = some x) : c.inside k (.call i) = x.inside := by
  rw [inside, here]
  rfl

theorem insideSet (here : c.calls[i]? = some x) (calls : d.calls = c.calls.set i y)
    (loops : m.loops = k.loops) : d.inside m (.call i) = y.inside ∧
      ∀ g, g ≠ .call i → d.inside m g = c.inside k g := by
  refine ⟨?_, fun g other => ?_⟩
  · rw [inside, calls, List.getElem?_set_self (List.getElem?_eq_some_iff.mp here).1]
    rfl
  · cases g with
    | call j =>
      rw [inside, calls, List.getElem?_set_ne fun same => other (congrArg _ same.symm)]
      rfl
    | loop j => rw [inside, loops]; rfl

theorem insideSame (here : c.calls[i]? = some x) (calls : d.calls = c.calls.set i y)
    (loops : m.loops = k.loops) (same : y.inside = x.inside) (h : Consumer.Holder) :
    d.inside m h = c.inside k h := by
  obtain ⟨mine, others⟩ := insideSet here calls loops
  by_cases at_ : h = .call i
  · rw [at_, mine, same, insideCall here]
  · exact others h at_

theorem insideSpawn (here : c.calls[i]? = some x) (calls : d.calls = c.calls.set i y)
    {l : Consumer.Loop} (loops : m.loops = k.loops ++ [l]) (fresh : l.phase.inside = false)
    (same : y.inside = x.inside) (h : Consumer.Holder) : d.inside m h = c.inside k h := by
  cases h with
  | call j => exact insideSame (m := k) here calls rfl same (.call j)
  | loop j =>
    rw [inside, inside, loops, List.getElem?_append]
    split
    · rfl
    · rename_i beyond
      rw [List.getElem?_eq_none (Nat.le_of_not_lt beyond)]
      cases at_ : j - k.loops.length <;> simp [fresh]

theorem insideLoop {l l' : Consumer.Loop} (found : k.loops[i]? = some l)
    (calls : d.calls = c.calls) (loops : m.loops = k.loops.set i l') :
    d.inside m (.loop i) = l'.phase.inside ∧ ∀ g, g ≠ .loop i → d.inside m g = c.inside k g := by
  refine ⟨?_, fun g other => ?_⟩
  · rw [inside, loops, List.getElem?_set_self (List.getElem?_eq_some_iff.mp found).1]
    rfl
  · cases g with
    | call j => rw [inside, calls]; rfl
    | loop j =>
      rw [inside, loops, List.getElem?_set_ne fun same => other (congrArg _ same.symm)]
      rfl

theorem insideLooped {l l' : Consumer.Loop} (found : k.loops[i]? = some l)
    (calls : d.calls = c.calls) (loops : m.loops = k.loops.set i l')
    (same : l'.phase.inside = l.phase.inside) (h : Consumer.Holder) :
    d.inside m h = c.inside k h := by
  obtain ⟨mine, others⟩ := insideLoop found calls loops
  by_cases at_ : h = .loop i
  · rw [at_, mine, same, inside, found]
    rfl
  · exact others h at_

theorem lockedCall (locked : c.Locked k) (here : c.calls[i]? = some x)
    (calls : d.calls = c.calls.set i y) (loops : m.loops = k.loops)
    (goes : (y.inside = x.inside ∧ m.lock = k.lock) ∨
      (k.lock.isNone = true ∧ y.inside = true ∧ m.lock = some (.call i)) ∨
      (x.inside = true ∧ y.inside = false ∧ m.lock = none)) : d.Locked m := by
  obtain ⟨mine, others⟩ := insideSet here calls loops
  rcases goes with ⟨same, lock⟩ | ⟨free, enters, lock⟩ | ⟨was, leaves, lock⟩
  · exact lockedKept locked (insideSame here calls loops same) lock
  · exact lockedTaken locked free (mine.trans enters) others lock
  · exact lockedGiven locked ((insideCall here).trans was) (mine.trans leaves) others lock

theorem lockedLooped {l l' : Consumer.Loop} (locked : c.Locked k)
    (found : k.loops[i]? = some l) (calls : d.calls = c.calls)
    (loops : m.loops = k.loops.set i l')
    (goes : (l'.phase.inside = l.phase.inside ∧ m.lock = k.lock) ∨
      (k.lock.isNone = true ∧ l'.phase.inside = true ∧ m.lock = some (.loop i)) ∨
      (l.phase.inside = true ∧ l'.phase.inside = false ∧ m.lock = none)) : d.Locked m := by
  obtain ⟨mine, others⟩ := insideLoop found calls loops
  rcases goes with ⟨same, lock⟩ | ⟨free, enters, lock⟩ | ⟨was, leaves, lock⟩
  · exact lockedKept locked (insideLooped found calls loops same) lock
  · exact lockedTaken locked free (mine.trans enters) others lock
  · exact lockedGiven locked (by rw [inside, found]; exact was) (mine.trans leaves) others lock

variable {β : Type} [Broker β] {e f : Env β}

theorem lockedLoop {s : Supervisor} {l : Consumer.Loop} (locked : c.Locked k)
    (found : k.loops[i]? = some l) (move : k.LoopMove i s e l f m) (calls : d.calls = c.calls) :
    d.Locked m := by
  cases move with
  | lock here free => exact lockedLooped locked found calls rfl (.inr (.inl ⟨free, rfl, rfl⟩))
  | unlock here =>
    exact lockedLooped locked found calls rfl (.inr (.inr ⟨by rw [here]; rfl, rfl, rfl⟩))
  | _ =>
    refine lockedLooped locked found calls rfl (.inl ⟨?_, rfl⟩)
    rw [‹l.phase = _›]
    rfl

theorem lockedStart {s : Supervisor} {x y : Consumer.Starting} (locked : c.Locked k)
    (here : c.calls[i]? = some (.start x)) (move : k.StartMove i s x m y)
    (calls : d.calls = c.calls.set i (.start y)) : d.Locked m := by
  cases move with
  | lock free => exact lockedCall locked here calls rfl (.inr (.inl ⟨free, rfl, rfl⟩))
  | unlock => exact lockedCall locked here calls rfl (.inr (.inr ⟨rfl, rfl, rfl⟩))
  | spawn => exact lockedKept locked (insideSpawn (k := k) here calls rfl rfl rfl) rfl
  | _ => exact lockedCall locked here calls rfl (.inl ⟨rfl, rfl⟩)

theorem lockedClose {s t : Supervisor} {x y : Consumer.ConsumerClosing} (locked : c.Locked k)
    (here : c.calls[i]? = some (.closeConsumer x)) (move : k.CloseMove i e s x f t m y)
    (calls : d.calls = c.calls.set i (.closeConsumer y)) : d.Locked m := by
  cases move with
  | lock free => exact lockedCall locked here calls rfl (.inr (.inl ⟨free, rfl, rfl⟩))
  | unlock => exact lockedCall locked here calls rfl (.inr (.inr ⟨rfl, rfl, rfl⟩))
  | _ => exact lockedCall locked here calls rfl (.inl ⟨rfl, rfl⟩)

theorem lockedMove (locked : ∀ k, c.role = .consumer k → c.Locked k) (move : Move e c f d) :
    ∀ m, d.role = .consumer m → d.Locked m := by
  intro m role
  cases move with
  | recovery | watcher => exact lockedKept (locked m role) (fun _ => rfl) rfl
  | publish here | close here =>
    exact lockedKept (locked m role) (insideSame here rfl rfl rfl) rfl
  | loop was made =>
    cases role
    obtain ⟨l, found, move⟩ := Consumer.loopMove made
    exact lockedLoop (locked _ was) found move rfl
  | worker was made =>
    cases role
    obtain ⟨x, -, move⟩ := Consumer.workerMove made
    have loops := Consumer.loopsOfWorker move
    refine lockedKept (locked _ was) (fun h => ?_) (by cases move <;> rfl)
    cases h with
    | call j => rfl
    | loop j => rw [inside, loops]; rfl
  | retry was made =>
    cases role
    obtain ⟨r, q, -, -, rfl⟩ := Consumer.retryStepSource made
    exact lockedKept (locked _ was) (fun h => by cases h <;> rfl) rfl
  | start was here made =>
    cases role
    exact lockedStart (locked _ was) here (Consumer.startMove made) rfl
  | closeConsumer was here made =>
    cases role
    exact lockedClose (locked _ was) here (Consumer.closeMove made) rfl

theorem lockedBegun {x : Call} (locked : c.Locked k) (opens : x.Opens (.consumer m)) :
    { c with calls := c.calls ++ [x] }.Locked k := by
  have outside : x.inside = false := by
    rcases Call.opensConsumer opens with rfl | rfl <;> rfl
  refine lockedKept locked (fun h => ?_) rfl
  cases h with
  | loop j => rfl
  | call j =>
    rw [inside, inside, List.getElem?_append]
    split
    · rfl
    · rename_i beyond
      rw [List.getElem?_eq_none (Nat.le_of_not_lt beyond)]
      cases at_ : j - c.calls.length <;> simp [outside]

theorem lockedChange (locked : ∀ k, c.role = .consumer k → c.Locked k)
    (change : Change e c f d) : ∀ m, d.role = .consumer m → d.Locked m := by
  cases change with
  | same => exact locked
  | step made => exact lockedMove locked (clientMove made)
  | letGo => exact fun m role => lockedKept (locked m role) (fun _ => rfl) rfl
  | call held opens =>
    intro m role
    have was : c.role = .consumer m := role
    exact lockedBegun (locked m was) (was ▸ opens)

theorem unlockedStill (locked : c.Locked k) (role : c.role = .consumer k)
    (still : ∀ a, c.step a false e = none) : k.lock = none := by
  refine Option.eq_none_iff_forall_ne_some.mpr fun h taken => ?_
  have held := (locked h).mp taken
  cases h with
  | call i =>
    obtain ⟨x, here, inside⟩ := (Option.any_eq_true _ _).mp held
    have stuck := still (.call i)
    cases x with
    | start x =>
      simp only [step, callStep, here, role, Option.map_eq_none_iff] at stuck
      rcases Consumer.startStuck stuck with ⟨o, rfl⟩ | ⟨rfl, -⟩ <;> cases inside
    | closeConsumer x =>
      simp only [step, callStep, here, role, Option.map_eq_none_iff] at stuck
      cases x with
      | clearing | unlocking => simp [Consumer.closeStep] at stuck
      | _ => cases inside
    | publish p => cases inside
    | close x => cases inside
  | loop i =>
    obtain ⟨l, found, inside⟩ := (Option.any_eq_true _ _).mp held
    have stuck := still (.loop i)
    simp only [step, consumerStep, role, Option.map_eq_none_iff, Consumer.loopStep, found] at stuck
    cases here : l.phase with
    | clearing | unlocking => simp [here] at stuck
    | _ => rw [here] at inside; cases inside

end Client

namespace World

variable {β : Type} [Broker β] {outside : β → β → Prop} {w : World β} {c : Client} {k : Consumer}

theorem lockedReachable (reached : Reachable outside w) {i : Nat} (found : w.clients[i]? = some c)
    (role : c.role = .consumer k) : c.Locked k := by
  refine reachableClient (P := fun _ c => ∀ k, c.role = .consumer k → c.Locked k) ?_ ?_
    reached found k role
  · intro e o l connectionSignal channelSignal k role
    cases o with
    | mk client plan phase =>
      cases plan with
      | consumer t p options h =>
        cases role
        intro h
        cases h <;> exact ⟨nofun, nofun⟩
      | _ => cases role
  · exact fun e c f d change locked => Client.lockedChange locked change

end World

end AmqpClient
