import AmqpClient.Proofs.Counts
import AmqpClient.Proofs.Use
/-! A consumer that no call has begun to close. Its starting calls take turns at the lock, so the
first of them spawns a receive loop and the others find it running; nothing ends that loop. -/
namespace AmqpClient

namespace Consumer

def Starting.inside : Starting → Bool
  | .locking => false
  | .done _ => false
  | _ => true

def LoopPhase.leaving : LoopPhase → Bool
  | .locking => true
  | .clearing => true
  | .unlocking => true
  | .done => true
  | _ => false

end Consumer

def Call.spawning : Call → Bool
  | .start .spawning => true
  | _ => false

def Call.started : Call → Bool
  | .start (.unlocking (.ok ())) => true
  | .start (.done (.ok ())) => true
  | _ => false

def Client.Unclosed (c : Client) : Prop := ∀ x ∈ c.calls, ∃ y, x = .start y

structure Client.Running (c : Client) (k : Consumer) : Prop where
  stopped : k.stopped = false
  opened : c.supervisor.session.state ≠ .closed
  serving : ∀ l ∈ k.loops, l.phase.leaving = false
  spawned : k.loops.length + c.calls.countP Call.spawning = k.consuming.toNat
  guarded : ∀ i x, c.calls[i]? = some (.start x) → x.inside = true → k.lock = some (.call i)
  started : ∀ x ∈ c.calls, x.started = true → k.loops.length = 1

def Client.Runs (c : Client) : Prop := ∀ k, c.role = .consumer k → c.Unclosed → c.Running k

variable {β : Type} [Broker β] {e f : Env β} {s : Supervisor} {k m : Consumer}

theorem Consumer.servingMove {i : Nat} {l : Loop} (found : k.loops[i]? = some l)
    (running : k.stopped = false) (opened : s.session.state ≠ .closed)
    (serving : ∀ l ∈ k.loops, l.phase.leaving = false) (move : LoopMove i s e k l f m) :
    m.consuming = k.consuming ∧ m.lock = k.lock ∧
      ∃ l', m.loops = k.loops.set i l' ∧ l'.phase.leaving = false := by
  have staying := serving l (List.mem_of_getElem? found)
  cases move with
  | halt here stopped | stop here stopped | leave here stopped | wake here stopped =>
    rw [running] at stopped
    cases stopped
  | closed here gone => exact absurd (Supervisor.closedOfChannel gone) opened
  | lock here | clear here | unlock here =>
    rw [here] at staying
    cases staying
  | _ => exact ⟨rfl, rfl, _, rfl, rfl⟩

namespace Client

variable {c d : Client}

theorem runningLoop {i : Nat} {l : Consumer.Loop} (running : c.Running k)
    (found : k.loops[i]? = some l) (move : k.LoopMove i c.supervisor e l f m) :
    { c with role := .consumer m }.Running m := by
  obtain ⟨consuming, lock, l', loops, stays⟩ :=
    Consumer.servingMove found running.stopped running.opened running.serving move
  have same : m.loops.length = k.loops.length := by rw [loops, List.length_set]
  refine ⟨(Consumer.loopFrame move).stopped.trans running.stopped, running.opened, ?_, ?_, ?_, ?_⟩
  · rw [loops]
    intro j mem
    rcases List.mem_or_eq_of_mem_set mem with old | rfl
    · exact running.serving j old
    · exact stays
  · rw [same, consuming]; exact running.spawned
  · rw [lock]; exact running.guarded
  · rw [same]; exact running.started

omit [Broker β] in
theorem runningSame (running : c.Running k) (calls : d.calls = c.calls)
    (opened : d.supervisor.session.state = .closed → c.supervisor.session.state = .closed)
    (stopped : m.stopped = k.stopped) (consuming : m.consuming = k.consuming)
    (lock : m.lock = k.lock) (loops : m.loops = k.loops) : d.Running m := by
  refine ⟨stopped.trans running.stopped, fun closed => running.opened (opened closed), ?_, ?_, ?_, ?_⟩
  · rw [loops]; exact running.serving
  · rw [loops, calls, consuming]; exact running.spawned
  · rw [calls, lock]; exact running.guarded
  · rw [calls, loops]; exact running.started

omit [Broker β] in
theorem insideAlone {i j : Nat} {x y : Consumer.Starting} (running : c.Running k)
    (here : c.calls[i]? = some (.start x)) (inside : x.inside = true)
    (there : c.calls[j]? = some (.start y)) (too : y.inside = true) : i = j := by
  have first := running.guarded i x here inside
  have second := running.guarded j y there too
  cases first.symm.trans second
  rfl

omit [Broker β] in
theorem spawningAlone {i : Nat} {x : Consumer.Starting} (running : c.Running k)
    (unclosed : c.Unclosed) (here : c.calls[i]? = some (.start x)) (inside : x.inside = true)
    (other : (Call.start x).spawning = false) : c.calls.countP Call.spawning = 0 := by
  refine List.countP_eq_zero.mpr fun z mem spawning => ?_
  obtain ⟨j, there⟩ := List.getElem?_of_mem mem
  obtain ⟨y, rfl⟩ := unclosed z mem
  have too : y.inside = true := by
    cases y <;> first | rfl | cases spawning
  cases insideAlone running here inside there too
  cases here.symm.trans there
  rw [other] at spawning
  cases spawning

omit [Broker β] in
theorem runningCall {i : Nat} {x y : Consumer.Starting} (running : c.Running k)
    (here : c.calls[i]? = some (.start x)) (stopped : m.stopped = false)
    (serving : ∀ l ∈ m.loops, l.phase.leaving = false)
    (spawned : m.loops.length + (c.calls.set i (.start y)).countP Call.spawning =
      m.consuming.toNat)
    (mine : y.inside = true → m.lock = some (.call i))
    (others : ∀ j x, j ≠ i → c.calls[j]? = some (.start x) → x.inside = true →
      m.lock = some (.call j))
    (grown : k.loops.length ≤ m.loops.length)
    (started : (Call.start y).started = true → m.loops.length = 1) :
    ({ c with role := .consumer m }.setCall i (.start y)).Running m := by
  have inside : i < c.calls.length := (List.getElem?_eq_some_iff.mp here).1
  refine ⟨stopped, running.opened, serving, spawned, ?_, ?_⟩
  · intro j z there held
    by_cases same : j = i
    · subst same
      have self : (c.calls.set j (.start y))[j]? = some (.start y) := List.getElem?_set_self inside
      cases Option.some.inj (self.symm.trans there)
      exact mine held
    · exact others j z same ((List.getElem?_set_ne (Ne.symm same)).symm.trans there) held
  · intro z mem begun
    rcases List.mem_or_eq_of_mem_set mem with old | rfl
    · have one := running.started z old begun
      have few : m.consuming.toNat ≤ 1 := Bool.toNat_le _
      omega
    · exact started begun

omit [Broker β] in
theorem runningStart {i : Nat} {x y : Consumer.Starting} (running : c.Running k)
    (unclosed : c.Unclosed) (here : c.calls[i]? = some (.start x))
    (made : k.startStep i c.supervisor x = some (m, y)) :
    ({ c with role := .consumer m }.setCall i (.start y)).Running m := by
  have counted := countSet (p := Call.spawning) (y := .start y) here
  have total := running.spawned
  have alone {j : Nat} {z : Consumer.Starting} (inside : x.inside = true) (other : j ≠ i)
      (there : c.calls[j]? = some (.start z)) (too : z.inside = true) : False :=
    other (insideAlone running there too here inside)
  cases x with
  | locking =>
    simp only [Consumer.startStep] at made
    split at made <;> cases made
    rename_i free
    refine runningCall running here running.stopped running.serving ?_ (fun _ => rfl) ?_
      (Nat.le_refl _) nofun
    · rw [← running.spawned]; exact congrArg _ counted
    · intro j z _ there inside
      rw [running.guarded j z there inside] at free
      cases free
  | checkingStop =>
    simp only [Consumer.startStep, running.stopped] at made
    cases made
    refine runningCall running here running.stopped running.serving ?_
      (fun _ => running.guarded i _ here rfl) (fun j z other there too => (alone rfl other there too).elim)
      (Nat.le_refl _) nofun
    rw [← running.spawned]; exact congrArg _ counted
  | checkingRunning =>
    have none := spawningAlone running unclosed here rfl rfl
    simp only [Consumer.startStep] at made
    split at made <;> cases made
    · rename_i consuming
      rw [consuming, none] at total
      refine runningCall running here running.stopped running.serving ?_
        (fun _ => running.guarded i _ here rfl)
        (fun j z other there too => (alone rfl other there too).elim) (Nat.le_refl _) fun _ => total
      rw [← running.spawned]; exact congrArg _ counted
    · rename_i idle
      rw [Bool.eq_false_iff.mpr idle, none] at total
      refine runningCall running here running.stopped running.serving ?_
        (fun _ => running.guarded i _ here rfl)
        (fun j z other there too => (alone rfl other there too).elim) (Nat.le_refl _) nofun
      change k.loops.length + (c.calls.set i (.start .spawning)).countP Call.spawning = 1
      simp only [Call.spawning, Bool.false_eq_true, if_false, if_true] at counted
      simp only [Bool.toNat_false] at total
      omega
  | spawning =>
    cases made
    simp only [Call.spawning, Bool.false_eq_true, if_false, if_true] at counted
    have few : k.consuming.toNat ≤ 1 := Bool.toNat_le _
    have one : (k.loops ++ [({ seen := c.supervisor.announced
                               generation := c.supervisor.session.generation } :
        Consumer.Loop)]).length = 1 := by
      rw [List.length_append, List.length_singleton]
      omega
    refine runningCall running here running.stopped ?_ ?_
      (fun _ => running.guarded i _ here rfl)
      (fun j z other there too => (alone rfl other there too).elim) ?_ fun _ => one
    · intro l mem
      rcases List.mem_append.mp mem with old | new
      · exact running.serving l old
      · cases List.mem_singleton.mp new
        rfl
    · rw [one]
      change 1 + _ = k.consuming.toNat
      omega
    · rw [List.length_append]
      exact Nat.le_add_right _ _
  | unlocking o =>
    cases made
    refine runningCall running here running.stopped running.serving ?_ nofun
      (fun j z other there too => (alone rfl other there too).elim) (Nat.le_refl _) ?_
    · rw [← running.spawned]; exact congrArg _ counted
    · intro begun
      refine running.started _ (List.mem_of_getElem? here) ?_
      cases o with
      | ok => rfl
      | error => cases begun
  | done => cases made

theorem unclosedBack {i : Nat} {x y : Call} (here : c.calls[i]? = some x)
    (unclosed : ∀ z ∈ c.calls.set i y, ∃ u, z = .start u) : ∃ u, y = .start u :=
  unclosed y (List.mem_set (List.getElem?_eq_some_iff.mp here).1 y)

theorem runsMove (runs : c.Runs) (move : Move e c f d) : d.Runs := by
  intro m role unclosed
  cases move with
  | recovery made =>
    exact runningSame (runs m role unclosed) rfl
      (Supervisor.openOfRecovery (Supervisor.recoveryMove made)) rfl rfl rfl rfl
  | watcher made =>
    have session := Supervisor.sessionOfWatcher (Supervisor.watcherMove made).2
    exact runningSame (runs m role unclosed) rfl (fun closed => session ▸ closed) rfl rfl rfl rfl
  | loop was made =>
    cases role
    obtain ⟨l, found, move⟩ := Consumer.loopMove made
    exact runningLoop (runs _ was unclosed) found move
  | worker was made =>
    cases role
    obtain ⟨x, found, move⟩ := Consumer.workerMove made
    have running := runs _ was unclosed
    cases move <;> exact runningSame running rfl id rfl rfl rfl rfl
  | retry was made =>
    cases role
    obtain ⟨r, q, found, move, rfl⟩ := Consumer.retryStepSource made
    exact runningSame (runs _ was unclosed) rfl id rfl rfl rfl rfl
  | publish here | close here | closeConsumer _ here =>
    obtain ⟨_, other⟩ := unclosedBack here unclosed
    cases other
  | @start i _ _ _ _ was here made =>
    cases role
    have before : c.Unclosed := by
      intro z mem
      obtain ⟨j, there⟩ := List.getElem?_of_mem mem
      by_cases same : j = i
      · subst same; exact ⟨_, Option.some.inj (there.symm.trans here)⟩
      · exact unclosed z (List.mem_of_getElem? ((List.getElem?_set_ne (Ne.symm same)).trans there))
    exact runningStart (runs _ was before) before here made

theorem runsChange (runs : c.Runs) (change : Change e c f d) : d.Runs := by
  cases change with
  | same => exact runs
  | step made => exact runsMove runs (clientMove made)
  | letGo => exact fun k role unclosed => runningSame (runs k role unclosed) rfl id rfl rfl rfl rfl
  | @call x held opens =>
    intro k role unclosed
    have running := runs k role fun z mem => unclosed z (List.mem_append_left _ mem)
    obtain ⟨y, rfl⟩ := unclosed x (List.mem_append_right _ (List.mem_singleton_self x))
    have was : c.role = .consumer k := role
    rw [was] at opens
    cases y <;> try exact opens.elim
    refine ⟨running.stopped, running.opened, running.serving, ?_, ?_, ?_⟩
    · rw [← running.spawned, List.countP_append]
      rfl
    · intro i z found inside
      rw [List.getElem?_append] at found
      split at found
      · exact running.guarded i z found inside
      · cases List.mem_singleton.mp (List.mem_of_getElem? found)
        cases inside
    · intro z mem begun
      rcases List.mem_append.mp mem with old | new
      · exact running.started z old begun
      · cases List.mem_singleton.mp new
        cases begun

end Client

namespace World

variable {outside : β → β → Prop} {w : World β}

theorem runsReachable (reached : Reachable outside w) {i : Nat} {c : Client}
    (found : w.clients[i]? = some c) : c.Runs := by
  refine reachableClient (P := fun _ c => c.Runs) ?_ ?_ reached found
  · intro e o l connectionSignal channelSignal k role _
    cases o with
    | mk client plan phase =>
      cases plan with
      | consumer t p options h =>
        cases role
        exact ⟨rfl, (by intro closed; cases closed), fun l mem => (by cases mem), rfl,
          fun j y there => (by cases there), fun x mem => (by cases mem)⟩
      | _ => cases role
  · intro e c f d change runs
    exact Client.runsChange runs change

end World

end AmqpClient
