import AmqpClient.Proofs.Consumer.Locking
import AmqpClient.Proofs.Consumer.Permits
/-! The end of a consumer. Once it is told to stop, no one can stand still before its loop has ended
and every delivery that the loop handed on is being processed; and as time passes only over those
who stand still, that is so before the grace of the closing call is over. From then on it takes up
nothing. -/
namespace AmqpClient

namespace Consumer

def LoopPhase.cleared : LoopPhase → Bool
  | .unlocking => true
  | .done => true
  | _ => false

theorem clearedOfFinished {p : LoopPhase} (finished : p.finished = true) : p.cleared = true := by
  cases p <;> first | rfl | cases finished

def WorkerPhase.begun : WorkerPhase → Bool
  | .starting => false
  | _ => true

def Starting.refusing : Starting → Bool
  | .locking => true
  | .checkingStop => true
  | .unlocking (.error .closed) => true
  | .done (.error .closed) => true
  | _ => false

end Consumer

def Call.admitted : Call → Bool
  | .start .checkingRunning => true
  | .start .spawning => true
  | _ => false

namespace Client

def Flagged (c : Client) (k : Consumer) : Prop := k.consuming = true →
  (∃ x ∈ c.calls, x.spawning = true) ∨ ∃ l ∈ k.loops, l.phase.cleared = false

structure Barred (c : Client) (k : Consumer) : Prop where
  stopped : k.stopped = true
  refused : ∀ x ∈ c.calls, x.admitted = false

structure Retired (c : Client) (k : Consumer) : Prop extends c.Barred k where
  loops : ∀ l ∈ k.loops, l.phase.finished = true
  begun : ∀ x ∈ k.workers, x.phase.begun = true
  idle : k.consuming = false

end Client

variable {β : Type} [Broker β] {e f : Env β}

namespace Consumer

variable {s : Supervisor} {k m : Consumer}

theorem loopStuck {i : Nat} {l : Loop} (found : k.loops[i]? = some l) (stopped : k.stopped = true)
    (free : k.lock = none) (stuck : k.loopStep i false s e = none) : l.phase.finished = true := by
  simp only [loopStep, found] at stuck
  cases here : l.phase with
  | done => rfl
  | opening =>
    simp only [here] at stuck
    split at stuck <;> cases stuck
  | prefetching c =>
    simp only [here] at stuck
    split at stuck <;> cases stuck
  | subscribing c =>
    simp only [here] at stuck
    split at stuck <;> cases stuck
  | admitting c stream d =>
    simp only [here, stopped, if_true] at stuck
    split at stuck <;> cases stuck
  | pausing ends stream =>
    simp only [here, stopped, if_true] at stuck
    split at stuck <;> cases stuck
  | _ => simp [here, stopped, free] at stuck

theorem workerStuck {i : Nat} {x : Worker} (found : k.workers[i]? = some x)
    (stuck : k.workerStep i e = none) : x.phase.begun = true := by
  cases here : x.phase with
  | starting =>
    simp only [workerStep, found, here] at stuck
    split at stuck <;> cases stuck
  | _ => rfl

theorem workerKeeps {i : Nat} {x : Worker} (move : WorkerMove i e k x f m) : ∃ y,
    m.workers = k.workers.set i y ∧ y.delivery = x.delivery ∧ y.channel = x.channel ∧
      y.phase.begun = true := by
  cases move with
  | settle => exact ⟨_, rfl, deliveryNoted _ x, channelNoted _ x, rfl⟩
  | _ => exact ⟨_, rfl, rfl, rfl, rfl⟩

theorem workerSettles {i : Nat} {x : Worker} (begun : x.phase.begun = true)
    (move : WorkerMove i e k x f m) : m.handled = k.handled ∧ m.stopped = k.stopped ∧
      m.consuming = k.consuming ∧ m.loops = k.loops ∧
      ∃ new, f.journal = new ++ e.journal ∧ ∀ n ∈ new, (∀ d, n.fact ≠ .handling d) ∧
        ∀ ch tag s o, n.fact = .settled ch tag s o → ch = x.channel ∧ tag = x.delivery.tag := by
  cases move with
  | refuse here | handle here => rw [here] at begun; cases begun
  | schedule => exact ⟨rfl, rfl, rfl, rfl, [], rfl, nofun⟩
  | settle here =>
    refine ⟨rfl, rfl, rfl, rfl, [⟨e.now, .settled x.channel x.delivery.tag _ _⟩], rfl, ?_⟩
    simp +contextual
  | succeed here =>
    exact ⟨rfl, rfl, rfl, rfl, [⟨e.now, .handled x.delivery.tag true⟩], rfl, by simp⟩
  | fail here =>
    exact ⟨rfl, rfl, rfl, rfl, [⟨e.now, .handled x.delivery.tag false⟩], rfl, by simp⟩
  | finish here => exact ⟨rfl, rfl, rfl, rfl, [⟨e.now, .spanEnded x.span⟩], rfl, by simp⟩

end Consumer

namespace Client

variable {c d : Client} {k m : Consumer}

omit [Broker β] in
theorem flaggedCall {i : Nat} {x y : Call} (flagged : c.Flagged k) (here : c.calls[i]? = some x)
    (other : x.spawning = false) (calls : d.calls = c.calls.set i y)
    (consuming : m.consuming = true → k.consuming = true) (loops : m.loops = k.loops) :
    d.Flagged m := by
  intro up
  rcases flagged (consuming up) with ⟨z, mem, spawning⟩ | loop
  · refine .inl ⟨z, ?_, spawning⟩
    rw [calls]
    refine otherStays here mem fun same => ?_
    rw [same, other] at spawning
    cases spawning
  · exact .inr (loops ▸ loop)

theorem flaggedLoop {i : Nat} {s : Supervisor} {l : Consumer.Loop} (flagged : c.Flagged k)
    (found : k.loops[i]? = some l) (move : k.LoopMove i s e l f m) :
    { c with role := .consumer m }.Flagged m := by
  have inside : i < k.loops.length := (List.getElem?_eq_some_iff.mp found).1
  have kept {l' : Consumer.Loop} (goes : l.phase.cleared = true ∨ l'.phase.cleared = false)
      (consuming : m.consuming = k.consuming) (loops : m.loops = k.loops.set i l') :
      { c with role := .consumer m }.Flagged m := by
    intro up
    rcases flagged (consuming ▸ up) with call | ⟨z, mem, going⟩
    · exact .inl call
    · refine .inr ?_
      rw [loops]
      rcases goes with was | goes
      · refine ⟨z, otherStays found mem fun same => ?_, going⟩
        rw [same, was] at going
        cases going
      · exact ⟨l', List.mem_set inside l', goes⟩
  cases move with
  | clear => exact nofun
  | unlock here => exact kept (.inl (by rw [here]; rfl)) rfl rfl
  | _ => exact kept (.inr rfl) rfl rfl

omit [Broker β] in
theorem flaggedStart {i : Nat} {s : Supervisor} {x y : Consumer.Starting} (flagged : c.Flagged k)
    (here : c.calls[i]? = some (.start x)) (move : k.StartMove i s x m y)
    (calls : d.calls = c.calls.set i (.start y)) : d.Flagged m := by
  cases move with
  | mark =>
    refine fun _ => .inl ⟨.start .spawning, ?_, rfl⟩
    rw [calls]
    exact List.mem_set (List.getElem?_eq_some_iff.mp here).1 _
  | spawn => exact fun _ => .inr ⟨_, List.mem_append_right _ (List.mem_singleton_self _), rfl⟩
  | _ => exact flaggedCall flagged here rfl calls id rfl

theorem flaggedMove (flagged : ∀ k, c.role = .consumer k → c.Flagged k) (move : Move e c f d) :
    ∀ m, d.role = .consumer m → d.Flagged m := by
  intro m role
  cases move with
  | recovery | watcher => exact flagged m role
  | publish here | close here => exact flaggedCall (flagged m role) here rfl rfl id rfl
  | loop was made =>
    cases role
    obtain ⟨l, found, move⟩ := Consumer.loopMove made
    exact flaggedLoop (flagged _ was) found move
  | worker was made =>
    cases role
    obtain ⟨x, -, move⟩ := Consumer.workerMove made
    have before := flagged _ was
    cases move <;> exact before
  | retry was made =>
    cases role
    obtain ⟨r, q, -, -, rfl⟩ := Consumer.retryStepSource made
    have before := flagged _ was
    exact before
  | start was here made =>
    cases role
    exact flaggedStart (flagged _ was) here (Consumer.startMove made) rfl
  | closeConsumer was here made =>
    cases role
    have before := flagged _ was
    cases Consumer.closeMove made with
    | clear => exact nofun
    | _ => exact flaggedCall before here rfl rfl id rfl

theorem flaggedChange (flagged : ∀ k, c.role = .consumer k → c.Flagged k)
    (change : Change e c f d) : ∀ m, d.role = .consumer m → d.Flagged m := by
  cases change with
  | same | letGo => exact flagged
  | step made => exact flaggedMove flagged (clientMove made)
  | call => exact fun m role up => (flagged m role up).imp_left fun ⟨x, mem, spawning⟩ =>
      ⟨x, List.mem_append_left _ mem, spawning⟩

theorem retiredStill (locked : c.Locked k) (flagged : c.Flagged k) (role : c.role = .consumer k)
    (stopped : k.stopped = true) (still : ∀ a, c.step a false e = none) : c.Retired k := by
  have free := unlockedStill locked role still
  have loops : ∀ l ∈ k.loops, l.phase.finished = true := by
    intro l mem
    obtain ⟨i, found⟩ := List.getElem?_of_mem mem
    have stuck := still (.loop i)
    simp only [step, consumerStep, role, Option.map_eq_none_iff] at stuck
    exact Consumer.loopStuck found stopped free stuck
  have refused : ∀ x ∈ c.calls, x.admitted = false := by
    intro x mem
    obtain ⟨i, here⟩ := List.getElem?_of_mem mem
    have stuck := still (.call i)
    cases x with
    | start x =>
      simp only [step, callStep, here, role, Option.map_eq_none_iff] at stuck
      rcases Consumer.startStuck stuck with ⟨o, rfl⟩ | ⟨rfl, -⟩ <;> rfl
    | _ => rfl
  refine ⟨⟨stopped, refused⟩, loops, ?_, Bool.eq_false_iff.mpr fun up => ?_⟩
  · intro x mem
    obtain ⟨i, found⟩ := List.getElem?_of_mem mem
    have stuck := still (.worker i)
    simp only [step, consumerStep, role, Option.map_eq_none_iff] at stuck
    exact Consumer.workerStuck found stuck
  · rcases flagged up with ⟨x, mem, spawning⟩ | ⟨l, mem, going⟩
    · have admitted := refused x mem
      unfold Call.spawning at spawning
      split at spawning <;> first | cases admitted | cases spawning
    · rw [Consumer.clearedOfFinished (loops l mem)] at going
      cases going

structure Silent (c : Client) (k : Consumer) (d : Client) (m : Consumer) : Prop where
  handled : m.handled = k.handled
  workers : ∀ (n : Nat) (y : Consumer.Worker), m.workers[n]? = some y → ∃ x,
    k.workers[n]? = some x ∧ x.phase.begun = true ∧ y.delivery = x.delivery ∧
      y.channel = x.channel
  refused : ∀ (n : Nat) (x : Consumer.Starting), c.calls.length ≤ n →
    d.calls[n]? = some (.start x) → x.refusing = true

variable {a : Client} {b : Consumer}

omit [Broker β] in
theorem silentSelf (retired : c.Retired k) : c.Silent k c k := by
  refine ⟨rfl, fun j y found => ⟨y, found, retired.begun y (List.mem_of_getElem? found), rfl, rfl⟩,
    fun n x beyond found => ?_⟩
  rw [List.getElem?_eq_none beyond] at found
  cases found

omit [Broker β] in
theorem barredCall {i : Nat} {y : Call} (barred : c.Barred k) (calls : d.calls = c.calls.set i y)
    (refused : y.admitted = false) (stopped : m.stopped = k.stopped) : d.Barred m :=
  ⟨stopped.trans barred.stopped, calls ▸ allSet barred.refused refused⟩

omit [Broker β] in
theorem barredBegun {x : Call} (barred : c.Barred k) (opens : x.Opens (.consumer m)) :
    { c with calls := c.calls ++ [x] }.Barred k := by
  refine ⟨barred.stopped, allMore barred.refused ?_⟩
  rcases Call.opensConsumer opens with rfl | rfl <;> rfl

omit [Broker β] in
theorem retiredCall {i : Nat} {y : Call} (retired : c.Retired k)
    (calls : d.calls = c.calls.set i y) (refused : y.admitted = false)
    (stopped : m.stopped = k.stopped) (idle : m.consuming = true → k.consuming = true)
    (loops : m.loops = k.loops) (workers : m.workers = k.workers) : d.Retired m :=
  ⟨barredCall retired.toBarred calls refused stopped, loops ▸ retired.loops,
    workers ▸ retired.begun,
    Bool.eq_false_iff.mpr fun up => Bool.eq_false_iff.mp retired.idle (idle up)⟩

omit [Broker β] in
theorem silentCall {i : Nat} {x y : Call} (silent : a.Silent b c k) (here : c.calls[i]? = some x)
    (calls : d.calls = c.calls.set i y)
    (refuses : ∀ z, y = .start z → ∃ u, x = .start u ∧ (u.refusing = true → z.refusing = true))
    (handled : m.handled = k.handled) (workers : m.workers = k.workers) : a.Silent b d m := by
  refine ⟨handled.trans silent.handled, workers ▸ silent.workers, fun n z beyond found => ?_⟩
  rw [calls] at found
  by_cases same : i = n
  · subst same
    rw [List.getElem?_set_self (List.getElem?_eq_some_iff.mp here).1] at found
    obtain ⟨u, rfl, goes⟩ := refuses z (Option.some.inj found)
    exact goes (silent.refused i u beyond here)
  · rw [List.getElem?_set_ne same] at found
    exact silent.refused n z beyond found

theorem retiredWorker {i : Nat} {x : Consumer.Worker} (retired : c.Retired k)
    (silent : a.Silent b c k) (found : k.workers[i]? = some x) (move : k.WorkerMove i e x f m)
    (calls : d.calls = c.calls) : d.Retired m ∧ a.Silent b d m := by
  have begun := retired.begun x (List.mem_of_getElem? found)
  obtain ⟨handled, stopped, consuming, loops, -⟩ := Consumer.workerSettles begun move
  obtain ⟨y, workers, delivery, channel, going⟩ := Consumer.workerKeeps move
  refine ⟨⟨⟨stopped.trans retired.stopped, calls ▸ retired.refused⟩, loops ▸ retired.loops,
    workers ▸ allSet retired.begun going, consuming.trans retired.idle⟩,
    ⟨handled.trans silent.handled, ?_, calls ▸ silent.refused⟩⟩
  · rw [workers]
    intro n z there
    by_cases same : i = n
    · subst same
      rw [List.getElem?_set_self (List.getElem?_eq_some_iff.mp found).1] at there
      obtain ⟨w, first, started, delivered, through⟩ := silent.workers i x found
      cases there
      exact ⟨w, first, started, delivery.trans delivered, channel.trans through⟩
    · rw [List.getElem?_set_ne same] at there
      exact silent.workers n z there

omit [Broker β] in
theorem retiredStart {i : Nat} {s : Supervisor} {x y : Consumer.Starting} (retired : c.Retired k)
    (silent : a.Silent b c k) (here : c.calls[i]? = some (.start x)) (move : k.StartMove i s x m y)
    (calls : d.calls = c.calls.set i (.start y)) : d.Retired m ∧ a.Silent b d m := by
  have outside := retired.refused _ (List.mem_of_getElem? here)
  cases move with
  | enter running => exact absurd retired.stopped (Bool.eq_false_iff.mp running)
  | again | mark | spawn => cases outside
  | @unlock o =>
    refine ⟨retiredCall retired calls rfl rfl id rfl rfl, silentCall silent here calls ?_ rfl rfl⟩
    rintro _ ⟨⟩
    refine ⟨_, rfl, fun refusing => ?_⟩
    unfold Consumer.Starting.refusing at refusing
    split at refusing <;> simp_all [Consumer.Starting.refusing]
  | _ =>
    refine ⟨retiredCall retired calls rfl rfl id rfl rfl, silentCall silent here calls ?_ rfl rfl⟩
    rintro _ ⟨⟩
    exact ⟨_, rfl, fun _ => rfl⟩

theorem retiredMove (retired : c.Retired k) (silent : a.Silent b c k) (role : c.role = .consumer k)
    (move : Move e c f d) : ∃ m, d.role = .consumer m ∧ d.Retired m ∧ a.Silent b d m := by
  cases move with
  | recovery | watcher =>
    exact ⟨k, role, ⟨⟨retired.stopped, retired.refused⟩, retired.loops, retired.begun, retired.idle⟩,
      ⟨silent.handled, silent.workers, silent.refused⟩⟩
  | publish here | close here =>
    exact ⟨k, role, retiredCall retired rfl rfl rfl id rfl rfl,
      silentCall silent here rfl (by rintro _ ⟨⟩) rfl rfl⟩
  | loop was made =>
    cases role.symm.trans was
    obtain ⟨l, found, move⟩ := Consumer.loopMove made
    have ended := retired.loops l (List.mem_of_getElem? found)
    rw [Consumer.loopUnfinished move] at ended
    cases ended
  | worker was made =>
    cases role.symm.trans was
    obtain ⟨x, found, move⟩ := Consumer.workerMove made
    exact ⟨_, rfl, retiredWorker retired silent found move rfl⟩
  | retry was made =>
    cases role.symm.trans was
    obtain ⟨r, q, -, -, rfl⟩ := Consumer.retryStepSource made
    exact ⟨_, rfl, ⟨⟨retired.stopped, retired.refused⟩, retired.loops, retired.begun, retired.idle⟩,
      ⟨silent.handled, silent.workers, silent.refused⟩⟩
  | start was here made =>
    cases role.symm.trans was
    exact ⟨_, rfl, retiredStart retired silent here (Consumer.startMove made) rfl⟩
  | closeConsumer was here made =>
    cases role.symm.trans was
    refine ⟨_, rfl, ?_⟩
    cases Consumer.closeMove made with
    | raise running => exact absurd retired.stopped (Bool.eq_false_iff.mp running)
    | clear => exact ⟨retiredCall retired rfl rfl rfl nofun rfl rfl,
        silentCall silent here rfl (by rintro _ ⟨⟩) rfl rfl⟩
    | _ => exact ⟨retiredCall retired rfl rfl rfl id rfl rfl,
        silentCall silent here rfl (by rintro _ ⟨⟩) rfl rfl⟩

theorem retiredChange (retired : c.Retired k) (silent : a.Silent b c k)
    (role : c.role = .consumer k)
    (change : Change e c f d) : ∃ m, d.role = .consumer m ∧ d.Retired m ∧ a.Silent b d m := by
  cases change with
  | same => exact ⟨k, role, retired, silent⟩
  | step made => exact retiredMove retired silent role (clientMove made)
  | letGo => exact ⟨k, role, ⟨⟨retired.stopped, retired.refused⟩, retired.loops, retired.begun,
      retired.idle⟩, ⟨silent.handled, silent.workers, silent.refused⟩⟩
  | call held opens =>
    rw [role] at opens
    refine ⟨k, role, ⟨barredBegun retired.toBarred opens, retired.loops, retired.begun,
      retired.idle⟩, ⟨silent.handled, silent.workers, ?_⟩⟩
    intro n y beyond found
    rw [List.getElem?_append] at found
    split at found
    · exact silent.refused n y beyond found
    · rw [← List.mem_singleton.mp (List.mem_of_getElem? found)] at opens
      rcases Call.opensConsumer opens with same | same <;> cases same
      rfl

end Client

namespace World

variable {outside : β → β → Prop} {w v u : World β} {i j : Nat}

theorem flaggedReachable (reached : Reachable outside w) {c : Client} {k : Consumer}
    (found : w.clients[i]? = some c) (role : c.role = .consumer k) : c.Flagged k := by
  refine reachableClient (P := fun _ c => ∀ k, c.role = .consumer k → c.Flagged k) ?_ ?_
    reached found k role
  · intro e o l connectionSignal channelSignal k role
    cases o with
    | mk client plan phase =>
      cases plan with
      | consumer t p options h => cases role; exact nofun
      | _ => cases role
  · exact fun e c f d change flagged => Client.flaggedChange flagged change

structure Over (i : Nat) (d : Client) (l : Consumer) (x : World β) (b : Client) (m : Consumer) :
    Prop where
  found : x.clients[i]? = some b
  role : b.role = .consumer m
  handled : m.handled = l.handled
  idle : m.consuming = false
  refused : ∀ (n : Nat) (s : Consumer.Starting), d.calls.length ≤ n →
    b.calls[n]? = some (.start s) →
      (∀ o, s = .done o → o = .error .closed) ∧ (x.Quiet → s = .done (.error .closed))
  settled : ∀ a preferStop y, x.step (.client i a) preferStop = some y →
    ∃ new, y.env.journal = new ++ x.env.journal ∧ ∀ n ∈ new, (∀ g, n.fact ≠ .handling g) ∧
      ∀ ch tag s o, n.fact = .settled ch tag s o → ∃ z ∈ l.workers,
        z.phase.begun = true ∧ z.channel = ch ∧ z.delivery.tag = tag

open Broker (Memory)

end World

end AmqpClient
