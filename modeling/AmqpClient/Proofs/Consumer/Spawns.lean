import AmqpClient.Proofs.Consumer.Retirement
/-! How many loops a consumer spawns. A closing call clears the flag that tells whether the consumer
is consuming before it raises the stop flag, and a starting call that comes in between finds neither
in its way: each closing call may let in one loop more. Once the stop flag is up, and no starting
call has seen it down, no loop is spawned. -/
namespace AmqpClient

namespace Call

def checking : Call → Bool
  | .start .checkingRunning => true
  | _ => false

def cleared : Call → Bool
  | .closeConsumer .locking => false
  | .closeConsumer .clearing => false
  | .closeConsumer _ => true
  | _ => false

def stopping : Call → Bool
  | .closeConsumer (.grace _) => true
  | .closeConsumer .collecting => true
  | .closeConsumer (.joining _) => true
  | .closeConsumer (.closing _) => true
  | .close _ => true
  | _ => false

end Call

namespace Client

structure Untold (c : Client) (k : Consumer) : Prop where
  calls : ∀ x ∈ c.calls, x.stopping = false
  opened : c.supervisor.session.state ≠ .closed
  serving : ∀ l ∈ k.loops, l.phase.leaving = false

structure Few (c : Client) (k : Consumer) : Prop where
  bounded : k.loops.length + c.calls.countP Call.spawning ≤ 1 + c.calls.countP Call.cleared
  spare : (k.stopped = false ∨ ∃ x ∈ c.calls, x.checking = true) →
    k.loops.length + c.calls.countP Call.spawning ≤
      k.consuming.toNat + c.calls.countP Call.cleared

variable {β : Type} [Broker β] {e f : Env β} {c d : Client} {k m : Consumer} {i : Nat} {x y : Call}

omit [Broker β] in
theorem untoldCall (untold : c.Untold k) (calls : d.calls = c.calls.set i y)
    (goes : y.stopping = false)
    (session : d.supervisor.session = c.supervisor.session)
    (serving : ∀ l ∈ m.loops, l.phase.leaving = false) : d.Untold m :=
  ⟨calls ▸ allSet untold.calls goes, session ▸ untold.opened, serving⟩

omit [Broker β] in
theorem untoldStart {s : Supervisor} {x y : Consumer.Starting} (untold : c.Untold k)
    (move : k.StartMove i s x m y) (calls : d.calls = c.calls.set i (.start y))
    (session : d.supervisor.session = c.supervisor.session) : d.Untold m := by
  refine untoldCall untold calls rfl session ?_
  cases move with
  | spawn => exact allMore untold.serving rfl
  | _ => exact untold.serving

theorem untoldMove (untold : ∀ k, c.role = .consumer k → k.stopped = false → c.Untold k)
    (move : Move e c f d) : ∀ m, d.role = .consumer m → m.stopped = false → d.Untold m := by
  intro m role running
  cases move with
  | recovery made =>
    have before := untold m role running
    exact ⟨before.calls, fun closed =>
      before.opened (Supervisor.openOfRecovery (Supervisor.recoveryMove made) closed),
      before.serving⟩
  | watcher made =>
    have before := untold m role running
    exact ⟨before.calls, Supervisor.sessionOfWatcher (Supervisor.watcherMove made).2 ▸ before.opened,
      before.serving⟩
  | publish here =>
    have before := untold m role running
    exact untoldCall before rfl rfl rfl before.serving
  | close here =>
    have none := (untold m role running).calls _ (List.mem_of_getElem? here)
    cases none
  | loop was made =>
    cases role
    obtain ⟨l, found, move⟩ := Consumer.loopMove made
    have first := (Consumer.loopFrame move).stopped.symm.trans running
    have before := untold _ was first
    obtain ⟨-, -, l', loops, stays⟩ :=
      Consumer.servingMove found first before.opened before.serving move
    exact ⟨before.calls, before.opened, loops ▸ allSet before.serving stays⟩
  | @worker _ k _ _ was made =>
    cases role
    obtain ⟨x, -, move⟩ := Consumer.workerMove made
    have first : k.stopped = false := by cases move <;> exact running
    have before := untold k was first
    exact ⟨before.calls, before.opened, Consumer.loopsOfWorker move ▸ before.serving⟩
  | retry was made =>
    cases role
    obtain ⟨r, q, -, -, rfl⟩ := Consumer.retryStepSource made
    have before := untold _ was running
    exact ⟨before.calls, before.opened, before.serving⟩
  | start was here made =>
    cases role
    have first := (Consumer.startFrame made).2.1.symm.trans running
    exact untoldStart (untold _ was first) (Consumer.startMove made) rfl rfl
  | closeConsumer was here made =>
    cases role
    have mem := List.mem_of_getElem? here
    cases Consumer.closeMove made with
    | raise => cases running
    | raised again => exact absurd again (Bool.eq_false_iff.mp running)
    | lock | clear | unlock =>
      have before := untold _ was running
      exact untoldCall before rfl rfl rfl before.serving
    | grace | collect | joined | closing => cases (untold _ was running).calls _ mem

theorem untoldChange (untold : ∀ k, c.role = .consumer k → k.stopped = false → c.Untold k)
    (change : Change e c f d) : ∀ m, d.role = .consumer m → m.stopped = false → d.Untold m := by
  intro m role running
  cases change with
  | same => exact untold m role running
  | step made => exact untoldMove untold (clientMove made) m role running
  | letGo =>
    have before := untold m role running
    exact ⟨before.calls, before.opened, before.serving⟩
  | call held opens =>
    have before := untold m role running
    have was : c.role = .consumer m := role
    rw [was] at opens
    refine ⟨allMore before.calls ?_, before.opened, before.serving⟩
    rcases Call.opensConsumer opens with rfl | rfl <;> rfl

omit [Broker β] in
theorem fewKept (few : c.Few k) (calls : d.calls = c.calls)
    (loops : m.loops.length = k.loops.length)
    (goes : (m.stopped = false ∨ ∃ x ∈ c.calls, x.checking = true) →
      m.stopped = k.stopped ∧ m.consuming = k.consuming) : d.Few m := by
  refine ⟨by rw [loops, calls]; exact few.bounded, ?_⟩
  rw [calls, loops]
  intro still
  obtain ⟨stopped, consuming⟩ := goes still
  rw [consuming]
  exact few.spare (stopped ▸ still)

omit [Broker β] in
theorem tallied (here : c.calls[i]? = some x) (calls : d.calls = c.calls.set i y)
    (p : Call → Bool) :
    d.calls.countP p + (p x).toNat = c.calls.countP p + (p y).toNat := by
  rw [calls, toNatIf, toNatIf]
  exact countSet here

omit [Broker β] in
theorem fewCall (few : c.Few k) (here : c.calls[i]? = some x) (calls : d.calls = c.calls.set i y)
    (loops : m.loops.length + y.spawning.toNat = k.loops.length + x.spawning.toNat)
    (cleared : y.cleared = x.cleared) (consuming : m.consuming = k.consuming)
    (stopped : m.stopped = false → k.stopped = false)
    (checking : y.checking = true → k.stopped = false ∨ x.checking = true) : d.Few m := by
  have spawns := tallied here calls Call.spawning
  have clears := tallied here calls Call.cleared
  rw [cleared] at clears
  have before := few.bounded
  refine ⟨by omega, fun still => ?_⟩
  have was : k.stopped = false ∨ ∃ x ∈ c.calls, x.checking = true := by
    rcases still with running | ⟨z, mem, looks⟩
    · exact .inl (stopped running)
    · rw [calls] at mem
      rcases List.mem_or_eq_of_mem_set mem with old | rfl
      · exact .inr ⟨z, old, looks⟩
      · exact (checking looks).imp_right fun was => ⟨x, List.mem_of_getElem? here, was⟩
  have spare := few.spare was
  rw [consuming]
  omega

omit [Broker β] in
theorem fewStart {s : Supervisor} {x y : Consumer.Starting} (few : c.Few k)
    (here : c.calls[i]? = some (.start x)) (move : k.StartMove i s x m y)
    (calls : d.calls = c.calls.set i (.start y)) : d.Few m := by
  cases move with
  | mark idle =>
    have before := few.spare (.inr ⟨_, List.mem_of_getElem? here, rfl⟩)
    rw [idle] at before
    have spawns : d.calls.countP Call.spawning + 0 = c.calls.countP Call.spawning + 1 :=
      tallied here calls Call.spawning
    have clears : d.calls.countP Call.cleared + 0 = c.calls.countP Call.cleared + 0 :=
      tallied here calls Call.cleared
    have bounded : k.loops.length + d.calls.countP Call.spawning ≤
        1 + d.calls.countP Call.cleared := by
      simp only [Bool.toNat_false] at before
      omega
    exact ⟨bounded, fun _ => bounded⟩
  | spawn =>
    refine fewCall few here calls ?_ rfl rfl id nofun
    rw [List.length_append]
    rfl
  | enter running => exact fewCall few here calls rfl rfl rfl id fun _ => .inl running
  | lock | refuse | again | unlock => exact fewCall few here calls rfl rfl rfl id nofun

omit [Broker β] in
theorem clearsAlone {l : Consumer.Loop} (locked : c.Locked k) (found : k.loops[i]? = some l)
    (here : l.phase = .clearing) : ¬ ∃ x ∈ c.calls, x.checking = true := by
  -- the loop holds the lock, and so would a call that looks at the flag
  rintro ⟨x, mem, looks⟩
  obtain ⟨j, there⟩ := List.getElem?_of_mem mem
  have mine := (locked (.loop i)).mpr (by rw [inside, found]; simp [here, Consumer.LoopPhase.inside])
  have other := (locked (.call j)).mpr (by
    rw [insideCall there]
    unfold Call.checking at looks
    split at looks
    · rfl
    · cases looks)
  cases mine.symm.trans other

theorem fewLoop {s : Supervisor} {l : Consumer.Loop} (few : c.Few k) (locked : c.Locked k)
    (untold : k.stopped = false → c.Untold k) (found : k.loops[i]? = some l)
    (move : k.LoopMove i s e l f m) (calls : d.calls = c.calls) : d.Few m := by
  have loops : m.loops.length = k.loops.length := by
    obtain ⟨l', loops⟩ := Consumer.loopsOfLoop move
    rw [loops, List.length_set]
  refine fewKept few calls loops fun still => ⟨(Consumer.loopFrame move).stopped, ?_⟩
  cases move with
  | clear here =>
    rcases still with running | looks
    · have stays := (untold running).serving l (List.mem_of_getElem? found)
      rw [here] at stays
      cases stays
    · exact absurd looks (clearsAlone locked found here)
  | _ => rfl

theorem fewClose {s t : Supervisor} {x y : Consumer.ConsumerClosing} (few : c.Few k)
    (here : c.calls[i]? = some (.closeConsumer x)) (move : k.CloseMove i e s x f t m y)
    (calls : d.calls = c.calls.set i (.closeConsumer y)) : d.Few m := by
  cases move with
  | clear =>
    have before := few.bounded
    have spawns : d.calls.countP Call.spawning + 0 = c.calls.countP Call.spawning + 0 :=
      tallied here calls Call.spawning
    have clears : d.calls.countP Call.cleared + 0 = c.calls.countP Call.cleared + 1 :=
      tallied here calls Call.cleared
    have bounded : k.loops.length + d.calls.countP Call.spawning ≤
        0 + d.calls.countP Call.cleared := by omega
    exact ⟨Nat.le_trans bounded (Nat.add_le_add_right (Nat.zero_le 1) _), fun _ => bounded⟩
  | raise => exact fewCall few here calls rfl rfl rfl nofun nofun
  | _ => exact fewCall few here calls rfl rfl rfl id nofun

theorem fewMove (few : ∀ k, c.role = .consumer k → c.Few k)
    (locked : ∀ k, c.role = .consumer k → c.Locked k)
    (untold : ∀ k, c.role = .consumer k → k.stopped = false → c.Untold k) (move : Move e c f d) :
    ∀ m, d.role = .consumer m → d.Few m := by
  intro m role
  cases move with
  | recovery | watcher => exact fewKept (few m role) rfl rfl fun _ => ⟨rfl, rfl⟩
  | publish here | close here => exact fewCall (few m role) here rfl rfl rfl rfl id nofun
  | loop was made =>
    cases role
    obtain ⟨l, found, move⟩ := Consumer.loopMove made
    exact fewLoop (few _ was) (locked _ was) (untold _ was) found move rfl
  | worker was made =>
    cases role
    obtain ⟨x, -, move⟩ := Consumer.workerMove made
    exact fewKept (few _ was) rfl (by rw [Consumer.loopsOfWorker move])
      fun _ => by cases move <;> exact ⟨rfl, rfl⟩
  | retry was made =>
    cases role
    obtain ⟨r, q, -, -, rfl⟩ := Consumer.retryStepSource made
    exact fewKept (few _ was) rfl rfl fun _ => ⟨rfl, rfl⟩
  | start was here made =>
    cases role
    exact fewStart (few _ was) here (Consumer.startMove made) rfl
  | closeConsumer was here made =>
    cases role
    exact fewClose (few _ was) here (Consumer.closeMove made) rfl

theorem fewChange (few : ∀ k, c.role = .consumer k → c.Few k)
    (locked : ∀ k, c.role = .consumer k → c.Locked k)
    (untold : ∀ k, c.role = .consumer k → k.stopped = false → c.Untold k)
    (change : Change e c f d) : ∀ m, d.role = .consumer m → d.Few m := by
  intro m role
  cases change with
  | same => exact few m role
  | step made => exact fewMove few locked untold (clientMove made) m role
  | letGo => exact fewKept (few m role) rfl rfl fun _ => ⟨rfl, rfl⟩
  | @call x held opens =>
    have was : c.role = .consumer m := role
    rw [was] at opens
    obtain ⟨spawning, checking, cleared⟩ :
        x.spawning = false ∧ x.checking = false ∧ x.cleared = false := by
      rcases Call.opensConsumer opens with rfl | rfl <;> exact ⟨rfl, rfl, rfl⟩
    have same {p : Call → Bool} (none : p x = false) : (c.calls ++ [x]).countP p = c.calls.countP p := by
      rw [List.countP_append, List.countP_singleton, none]
      rfl
    obtain ⟨bounded, spare⟩ := few m was
    refine ⟨by rw [same spawning, same cleared]; exact bounded, fun still => ?_⟩
    rw [same spawning, same cleared]
    refine spare (still.imp_right fun ⟨z, mem, looks⟩ => ?_)
    rcases List.mem_append.mp mem with old | new
    · exact ⟨z, old, looks⟩
    · rw [List.mem_singleton.mp new, checking] at looks
      cases looks

theorem barredMove (barred : c.Barred k) (role : c.role = .consumer k) (move : Move e c f d) :
    ∃ m, d.role = .consumer m ∧ d.Barred m ∧ m.loops.length = k.loops.length := by
  cases move with
  | recovery | watcher => exact ⟨k, role, ⟨barred.stopped, barred.refused⟩, rfl⟩
  | publish | close => exact ⟨k, role, barredCall barred rfl rfl rfl, rfl⟩
  | loop was made =>
    cases role.symm.trans was
    obtain ⟨l, found, move⟩ := Consumer.loopMove made
    obtain ⟨l', loops⟩ := Consumer.loopsOfLoop move
    exact ⟨_, rfl, ⟨(Consumer.loopFrame move).stopped.trans barred.stopped, barred.refused⟩,
      by rw [loops, List.length_set]⟩
  | worker was made =>
    cases role.symm.trans was
    obtain ⟨x, -, move⟩ := Consumer.workerMove made
    exact ⟨_, rfl, ⟨by cases move <;> exact barred.stopped, barred.refused⟩,
      by rw [Consumer.loopsOfWorker move]⟩
  | retry was made =>
    cases role.symm.trans was
    obtain ⟨r, q, -, -, rfl⟩ := Consumer.retryStepSource made
    exact ⟨_, rfl, ⟨barred.stopped, barred.refused⟩, rfl⟩
  | start was here made =>
    cases role.symm.trans was
    have outside := barred.refused _ (List.mem_of_getElem? here)
    cases Consumer.startMove made with
    | enter running => exact absurd barred.stopped (Bool.eq_false_iff.mp running)
    | again | mark | spawn => cases outside
    | _ => exact ⟨_, rfl, barredCall barred rfl rfl rfl, rfl⟩
  | closeConsumer was here made =>
    cases role.symm.trans was
    cases Consumer.closeMove made with
    | raise running => exact absurd barred.stopped (Bool.eq_false_iff.mp running)
    | _ => exact ⟨_, rfl, barredCall barred rfl rfl rfl, rfl⟩

theorem barredChange (barred : c.Barred k) (role : c.role = .consumer k)
    (change : Change e c f d) :
    ∃ m, d.role = .consumer m ∧ d.Barred m ∧ m.loops.length = k.loops.length := by
  cases change with
  | same => exact ⟨k, role, barred, rfl⟩
  | step made => exact barredMove barred role (clientMove made)
  | letGo => exact ⟨k, role, ⟨barred.stopped, barred.refused⟩, rfl⟩
  | call held opens => exact ⟨k, role, barredBegun barred (role ▸ opens), rfl⟩

end Client

namespace World

variable {β : Type} [Broker β] {outside : β → β → Prop} {w v : World β} {i n : Nat} {c : Client}
  {k m : Consumer}

theorem fewReachable (reached : Reachable outside w) (found : w.clients[i]? = some c)
    (role : c.role = .consumer k) : c.Few k := by
  have all := reachableClient (P := fun _ c => (∀ k, c.role = .consumer k → c.Few k) ∧
    (∀ k, c.role = .consumer k → c.Locked k) ∧
      ∀ k, c.role = .consumer k → k.stopped = false → c.Untold k) ?_ ?_ reached found
  · exact all.1 k role
  · intro e o l connectionSignal channelSignal
    cases o with
    | mk client plan phase =>
      cases plan with
      | consumer t p options h =>
        refine ⟨?_, ?_, ?_⟩
        all_goals
          intro k role
          cases role
        · exact ⟨Nat.zero_le _, fun _ => Nat.zero_le _⟩
        · intro h
          cases h <;> exact ⟨nofun, nofun⟩
        · exact fun _ => ⟨nofun, nofun, nofun⟩
      | _ => exact ⟨nofun, nofun, nofun⟩
  · exact fun e c f d change ⟨few, locked, untold⟩ =>
      ⟨Client.fewChange few locked untold change, Client.lockedChange locked change,
        Client.untoldChange untold change⟩

theorem barredRun (found : w.clients[i]? = some c) (role : c.role = .consumer k)
    (barred : c.Barred k) (run : Run (Use outside) w v) : ∃ d m, v.clients[i]? = some d ∧
      d.role = .consumer m ∧ d.Barred m ∧ m.loops.length = k.loops.length := by
  induction run with
  | refl => exact ⟨c, k, found, role, barred, rfl⟩
  | next _ last ih =>
    obtain ⟨b, l, before, was, still, few⟩ := ih
    obtain ⟨d, there⟩ := useKeeps last before
    obtain ⟨m, same, kept, loops⟩ := Client.barredChange still was (useSame last before there)
    exact ⟨d, m, there, same, kept, loops.trans few⟩

theorem startGoes {x y : Consumer.Starting} (found : w.clients[i]? = some c)
    (role : c.role = .consumer k) (here : c.calls[n]? = some (.start x))
    (made : k.startStep n c.supervisor x = some (m, y)) : ∃ v d, Use outside w v ∧
      v.clients[i]? = some d ∧ d.role = .consumer m ∧ d.calls[n]? = some (.start y) := by
  have goes : c.step (.call n) false w.env =
      some (w.env, { c with role := .consumer m }.setCall n (.start y)) := by
    simp only [Client.step, Client.callStep, here, role, made, Option.map_some]
  obtain ⟨v, stepped, there⟩ := clientSteps found goes
  exact ⟨v, _, .act ⟨_, _, stepped⟩, there, rfl,
    List.getElem?_set_self (List.getElem?_eq_some_iff.mp here).1⟩

theorem startSpawns (found : w.clients[i]? = some c) (role : c.role = .consumer k)
    (held : c.held = true) (running : k.stopped = false) (idle : k.consuming = false)
    (free : k.lock = none) : ∃ v d m, Run (Use outside) w v ∧ v.clients[i]? = some d ∧
      d.role = .consumer m ∧ m.loops.length = k.loops.length + 1 := by
  have called : Use outside w (w.call i (.start .locking)) :=
    .call w found held (by rw [role]; trivial)
  have begun : (w.call i (.start .locking)).clients[i]? =
      some { c with calls := c.calls ++ [.start .locking] } := by
    rw [World.call, List.getElem?_modify, found]
    simp
  obtain ⟨w₁, c₁, locks, found, role, here⟩ := startGoes begun role
    (x := .locking) List.getElem?_concat_length (by rw [Consumer.startStep, free]; rfl)
  obtain ⟨w₂, c₂, admits, found, role, here⟩ := startGoes found role here
    (by rw [Consumer.startStep, running]; rfl)
  obtain ⟨w₃, c₃, marks, found, role, here⟩ := startGoes found role here
    (by rw [Consumer.startStep, idle]; rfl)
  obtain ⟨w₄, c₄, spawns, found, role, -⟩ := startGoes found role here rfl
  refine ⟨w₄, c₄, _, ((((Run.single called).next locks).next admits).next marks).next spawns,
    found, role, ?_⟩
  rw [List.length_append]
  rfl

structure Spawns (outside : β → β → Prop) (w : World β) (i : Nat) (c : Client) (k : Consumer) :
    Prop where
  few : k.loops.length + c.calls.countP Call.spawning ≤ 1 + c.calls.countP Call.cleared
  barred : c.Barred k → ∀ v, Run (Use outside) w v → ∃ d m, v.clients[i]? = some d ∧
    d.role = .consumer m ∧ m.loops.length = k.loops.length
  gap : c.held = true → k.stopped = false → k.consuming = false → k.lock = none →
    ∃ v d m, Run (Use outside) w v ∧ v.clients[i]? = some d ∧ d.role = .consumer m ∧
      m.loops.length = k.loops.length + 1

theorem loopsSpawned (reached : Reachable outside w) (found : w.clients[i]? = some c)
    (role : c.role = .consumer k) : Spawns outside w i c k where
  few := (fewReachable reached found role).bounded
  barred := fun barred _ run =>
    let ⟨d, m, there, same, _, loops⟩ := barredRun found role barred run
    ⟨d, m, there, same, loops⟩
  gap := startSpawns found role

open Broker (Memory)

def deskCleared : World Memory :=
  (drive (.client 0 (.call 1)) 3 false (desk.call 0 (.closeConsumer .locking))).2

def deskTwice : World Memory :=
  (drive (.client 0 (.call 2)) 5 false (deskCleared.call 0 (.start .locking))).2

theorem deskClearedReached : Reachable (fun _ _ => True) deskCleared :=
  reachableDriven (reachableCall (x := .closeConsumer .locking) deskReached (by decide +kernel)
    fun _ => trivial) _ _

theorem deskTwiceRun : Run (Use fun _ _ => True) deskCleared deskTwice :=
  (Run.single (useCall (x := .start .locking) (by decide +kernel) fun _ => trivial)).trans
    ((driveActs _ _ _ _).map fun _ _ made => .act made)

structure Busy (w : World Memory) (closing loops : Nat) (c : Client) (k : Consumer) : Prop where
  found : w.clients[0]? = some c
  role : c.role = .consumer k
  closing : c.calls.countP Call.cleared = closing
  loops : k.loops.countP (fun l => !l.phase.finished) = loops

theorem busySeen {w : World Memory} {closing loops : Nat}
    (cleared : (w.clients[0]?.map fun c => c.calls.countP Call.cleared) = some closing)
    (seen : ((w.clients[0]?.bind Client.consumer?).any fun k =>
      k.loops.countP (fun l => !l.phase.finished) == loops) = true) :
    ∃ c k, Busy w closing loops c k := by
  obtain ⟨c, k, found, role, running⟩ := consumerSeen seen
  rw [found] at cleared
  exact ⟨c, k, found, role, Option.some.inj cleared, beq_iff_eq.mp running⟩

/-- A second loop is spawned beside the first, after a closing call has cleared the flag. -/
theorem deskStartedTwice : Reachable (fun _ _ => True) deskCleared ∧
    (∃ c k, Busy deskCleared 1 1 c k) ∧ Run (Use fun _ _ => True) deskCleared deskTwice ∧
    ∃ d m, Busy deskTwice 1 2 d m :=
  ⟨deskClearedReached, busySeen (by decide +kernel) (by decide +kernel), deskTwiceRun,
    busySeen (by decide +kernel) (by decide +kernel)⟩

theorem deskLoops : ∃ d m, Busy deskTwice 1 2 d m ∧ Spawns (fun _ _ => True) deskTwice 0 d m := by
  obtain ⟨d, m, busy⟩ : ∃ d m, Busy deskTwice 1 2 d m :=
    busySeen (by decide +kernel) (by decide +kernel)
  exact ⟨d, m, busy,
    loopsSpawned (reachableRun deskClearedReached deskTwiceRun) busy.found busy.role⟩

end World

end AmqpClient
