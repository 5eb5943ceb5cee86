import AmqpClient.Proofs.Sessions
/-! No receive loop misses that its channel was replaced. A loop notes the generation it was told of
before it looks for a channel, so what it was told is no newer than the channel; a newer generation
is then either told and not yet seen, or about to be told. -/
namespace AmqpClient

variable {β : Type} [Broker β] {e f : Env β} {s t : Supervisor}

namespace Consumer

def LoopPhase.channel? : LoopPhase → Option ChannelId
  | .prefetching ch => some ch
  | .subscribing ch => some ch
  | .reading ch _ => some ch
  | .admitting ch _ _ => some ch
  | _ => none

def LoopPhase.stream? : LoopPhase → Option StreamId
  | .reading _ stream => some stream
  | .admitting _ stream _ => some stream
  | .pausing _ stream => stream
  | _ => none

/-- What a loop knows of generations. `Read g ch` says that it read `ch` as the channel of
generation `g`. -/
structure Loop.Tuned (Read : Nat → ChannelId → Prop) (e : Env β) (s : Supervisor) (l : Loop) :
    Prop where
  seen : l.seen ≤ s.announced
  generation : l.generation ≤ s.session.generation
  channel : ∀ ch, l.phase.channel? = some ch → Read l.generation ch ∧ l.seen ≤ l.generation
  stream : ∀ x, l.phase.stream? = some x → l.seen ≤ l.generation ∧ ∃ ch queue tag,
    Read l.generation ch ∧ Fact.subscribed ch queue tag (.ok x) ∈ e.facts

variable {Read More : Nat → ChannelId → Prop} {l : Loop} {p : LoopPhase}

omit [Broker β] in
theorem tunedLater (grows : e.Grows f) (announced : s.announced ≤ t.announced)
    (generation : s.session.generation ≤ t.session.generation)
    (more : ∀ g ch, Read g ch → More g ch) (tuned : l.Tuned Read e s) : l.Tuned More f t := by
  refine ⟨Nat.le_trans tuned.seen announced, Nat.le_trans tuned.generation generation,
    fun ch here => ?_, fun x held => ?_⟩
  · obtain ⟨read, order⟩ := tuned.channel ch here
    exact ⟨more _ _ read, order⟩
  · obtain ⟨order, ch, queue, tag, read, noted⟩ := tuned.stream x held
    exact ⟨order, ch, queue, tag, more _ _ read, (Env.factsGrow grows).subset noted⟩

omit [Broker β] in
theorem tunedGoto (grows : e.Grows f) (tuned : l.Tuned Read e s)
    (channel : ∀ ch, p.channel? = some ch → l.phase.channel? = some ch)
    (stream : ∀ x, p.stream? = some x → l.phase.stream? = some x) :
    (l.goto p).Tuned Read f s := by
  have later : l.Tuned Read f s :=
    tunedLater grows (Nat.le_refl _) (Nat.le_refl _) (fun _ _ => id) tuned
  exact ⟨later.seen, later.generation, fun ch here => later.channel ch (channel ch here),
    fun x held => later.stream x (stream x held)⟩

theorem tunedMove {i : Nat} {k m : Consumer} (coherent : s.Coherent) (tuned : l.Tuned Read e s)
    (more : ∀ g ch, Read g ch → More g ch)
    (reads : ∀ ch, l.phase = .opening → s.channel? e.broker = .ok ch →
      More s.session.generation ch)
    (move : LoopMove i s e k l f m) : ∃ j, m.loops = k.loops.set i j ∧ j.Tuned More f s := by
  have grows : e.Grows f := Env.growsOfBy (growsOfLoop move)
  have tuned : l.Tuned More e s :=
    tunedLater (Env.growsRefl e) (Nat.le_refl _) (Nat.le_refl _) more tuned
  cases move with
  | mark => exact ⟨_, rfl, Nat.le_refl _, tuned.generation, fun _ => nofun, fun _ => nofun⟩
  | @opened c here current =>
    have told : l.seen ≤ s.session.generation := by
      have seen := tuned.seen
      have announced := coherent.announced
      omega
    refine ⟨_, rfl, tuned.seen, Nat.le_refl _, fun ch there => ?_, fun _ => nofun⟩
    cases there
    exact ⟨reads c here current, told⟩
  | @subscribed c f stream here answer =>
    have noted : Fact.subscribed c s.topology.queueName k.options.consumerTag (.ok stream) ∈
        f.facts := by
      rw [← (Prod.mk.inj answer).1, ← (Prod.mk.inj answer).2]
      exact List.mem_cons_self
    obtain ⟨read, order⟩ := tuned.channel c (by rw [here]; rfl)
    refine ⟨_, rfl, tuned.seen, tuned.generation, fun ch there => ?_, fun x held => ?_⟩
    · cases there
      exact ⟨read, order⟩
    · cases held
      exact ⟨order, c, _, _, read, noted⟩
  | prefetched here =>
    exact ⟨_, rfl, tunedGoto grows tuned (fun ch there => by rw [here]; exact there)
      fun _ => nofun⟩
  | take here | grant here =>
    exact ⟨_, rfl, tunedGoto grows tuned (fun ch there => by rw [here]; exact there)
      fun x held => by rw [here]; exact held⟩
  | broken here | ended here =>
    exact ⟨_, rfl, tunedGoto grows tuned (fun _ => nofun) fun x held => by rw [here]; exact held⟩
  | _ => exact ⟨_, rfl, tunedGoto grows tuned (fun _ => nofun) fun _ => nofun⟩

end Consumer

namespace Client

variable {c d : Client} {Read More : Nat → Nat → ChannelId → Prop}

def Tuned (Read : Nat → Nat → ChannelId → Prop) (e : Env β) (c : Client) : Prop :=
  ∀ (k : Consumer) (j : Nat) (l : Consumer.Loop), c.role = .consumer k → k.loops[j]? = some l →
    l.Tuned (Read j) e c.supervisor

theorem growsOfChange (change : Change e c f d) : e.Grows f := by
  cases change with
  | same grows => exact grows
  | step made grows => exact Env.growsTrans (growsOfMove (clientMove made)) grows
  | call | letGo => exact Env.growsRefl e

theorem tunedChange (coherent : c.supervisor.Coherent) (tuned : c.Tuned Read e)
    (more : ∀ j g ch, Read j g ch → More j g ch)
    (reads : ∀ (k : Consumer) j l ch, c.role = .consumer k → k.loops[j]? = some l →
      l.phase = .opening →
      c.supervisor.channel? e.broker = .ok ch → More j c.supervisor.session.generation ch)
    (change : Change e c f d) : d.Tuned More f := by
  have grows := growsOfChange change
  have announced := Supervisor.announcedChange coherent (Supervisor.changeOf change)
  have generation := Supervisor.generationChange coherent (Supervisor.changeOf change)
  have old {k : Consumer} (role : c.role = .consumer k) {j : Nat} {l : Consumer.Loop}
      (found : k.loops[j]? = some l) : l.Tuned (More j) f d.supervisor :=
    Consumer.tunedLater grows announced generation (more j) (tuned k j l role found)
  cases change with
  | same | call | letGo => exact fun k j l role there => old role there
  | step stepped after =>
    intro m j l here there
    obtain ⟨k, role, -, source⟩ := loopFrom (clientMove stepped) here
    cases source j l there with
    | kept before => exact old role before
    | spawned fresh =>
      subst fresh
      exact ⟨announced, generation, fun _ => nofun, fun _ => nofun⟩
    | @moved was before move =>
      obtain ⟨next, loops, moved⟩ := Consumer.tunedMove coherent (tuned k j was role before) (more j)
        (fun ch opening current => reads k j was ch role before opening current) move
      rw [loops, List.getElem?_set_self (List.getElem?_eq_some_iff.mp before).1] at there
      cases there
      exact Consumer.tunedLater after announced generation (fun _ _ => id) moved

end Client

namespace World

variable {outside : β → β → Prop} {start w v : World β} {changes : List (World β × World β)}
  {i j : Nat} {c : Client} {k : Consumer} {l : Consumer.Loop} {stream : StreamId}

def Reads (i j g : Nat) (ch : ChannelId) (w : World β) : Prop :=
  ∃ (c : Client) (k : Consumer) (l : Consumer.Loop), w.clients[i]? = some c ∧
    c.role = .consumer k ∧ k.loops[j]? = some l ∧ l.phase = .opening ∧
    c.supervisor.channel? w.env.broker = .ok ch ∧ c.supervisor.session.generation = g

def HasRead (i : Nat) (changes : List (World β × World β)) (j g : Nat) (ch : ChannelId) : Prop :=
  ∃ x ∈ changes, x.1.Reads i j g ch

theorem tunedReached (fresh : Fresh start) (course : Course (Use outside) start changes w)
    (found : w.clients[i]? = some c) : c.Tuned (HasRead i changes) w.env := by
  refine courseClient (P := fun i changes e c => c.Tuned (HasRead i changes) e) ?_ ?_ fresh course
    found
  · intro changes w v i o l s t _ _ _ _ k j m role there
    -- a consumer is made without a loop
    have none : k.loops = [] := by
      change o.plan.role = .consumer k at role
      unfold Plan.role at role
      split at role <;> cases role
      rfl
    rw [none] at there
    cases there
  · intro changes w v i c d before there after change tuned
    have coherent := Supervisor.coherentReachable (courseReachable fresh before) there
    refine Client.tunedChange coherent tuned ?_ ?_ change
    · exact fun j g ch ⟨x, mem, read⟩ => ⟨x, List.mem_cons_of_mem _ mem, read⟩
    · exact fun k j l ch role loop opening current =>
        ⟨_, List.mem_cons_self, c, k, l, there, role, loop, opening, current, rfl⟩

structure AwareLoop (i j : Nat) (changes : List (World β × World β)) (w : World β)
    (s : Supervisor) (l : Consumer.Loop) (stream : StreamId) : Prop where
  opened : ∃ ch queue tag, HasRead i changes j l.generation ch ∧
    Fact.subscribed ch queue tag (.ok stream) ∈ w.env.facts
  older : l.generation ≤ s.session.generation
  unseen : l.generation < s.session.generation →
    l.seen ≠ s.announced ∨ s.recovery.telling = true
  told : s.recovery.telling = true → ∀ preferStop, ∃ v d,
    w.step (.client i .recovery) preferStop = some v ∧ v.clients[i]? = some d ∧
      (d.supervisor.recovery = .announcing s.session.generation ∨
        d.supervisor.announced = s.session.generation)
  woken : ∀ ch, l.phase = .reading ch stream → l.seen ≠ s.announced → ∀ preferStop, ∃ v d m n,
    w.step (.client i (.loop j)) preferStop = some v ∧ v.clients[i]? = some d ∧
      d.role = .consumer m ∧ m.loops[j]? = some n ∧ n.phase.stream? = none
  rest : w.Quiet → ∀ ch, l.phase = .reading ch stream → l.generation = s.session.generation

theorem toldOf (coherent : c.supervisor.Coherent) (found : w.clients[i]? = some c)
    (telling : c.supervisor.recovery.telling = true) (preferStop : Bool) :
    ∃ v d, w.step (.client i .recovery) preferStop = some v ∧ v.clients[i]? = some d ∧
      (d.supervisor.recovery = .announcing c.supervisor.session.generation ∨
        d.supervisor.announced = c.supervisor.session.generation) := by
  have steps {t : Supervisor}
      (made : c.supervisor.recoveryStep c.alive preferStop w.env = some (w.env, t)) :
      ∃ v, w.step (.client i .recovery) preferStop = some v ∧
        v.clients[i]? = some { c with supervisor := t } :=
    clientSteps (e := w.env) found (by simp only [Client.step, made]; rfl)
  cases here : c.supervisor.recovery with
  | arming g a b =>
    have current := coherent.told g (by rw [here]; rfl)
    obtain ⟨v, made, there⟩ := steps (by simp only [Supervisor.recoveryStep, here]; rfl)
    exact ⟨v, _, made, there, .inl (congrArg Recovery.announcing current)⟩
  | announcing g =>
    have current := coherent.told g (by rw [here]; rfl)
    obtain ⟨v, made, there⟩ := steps (by simp only [Supervisor.recoveryStep, here]; rfl)
    exact ⟨v, _, made, there, .inr current⟩
  | _ => rw [here] at telling; cases telling

theorem loopWakes (found : w.clients[i]? = some c) (role : c.role = .consumer k)
    (there : k.loops[j]? = some l) {ch : ChannelId} (here : l.phase = .reading ch stream)
    (unseen : l.seen ≠ c.supervisor.announced) (preferStop : Bool) :
    ∃ v d m n, w.step (.client i (.loop j)) preferStop = some v ∧ v.clients[i]? = some d ∧
      d.role = .consumer m ∧ m.loops[j]? = some n ∧ n.phase.stream? = none := by
  have inside : j < k.loops.length := (List.getElem?_eq_some_iff.mp there).1
  obtain ⟨p, none, made⟩ : ∃ p : Consumer.LoopPhase, p.stream? = none ∧
      k.loopStep j preferStop c.supervisor w.env =
        some (w.env.dropStream stream, k.setLoop j (l.goto p)) := by
    cases stopped : k.stopped with
    | true => exact ⟨.locking, rfl, by simp [Consumer.loopStep, there, here, stopped]⟩
    | false => exact ⟨.checking, rfl, by simp [Consumer.loopStep, there, here, stopped, unseen]⟩
  have stepped : c.step (.loop j) preferStop w.env = some (w.env.dropStream stream,
      { c with role := .consumer (k.setLoop j (l.goto p)) }) := by
    simp only [Client.step, Client.consumerStep, role, made]
    rfl
  obtain ⟨v, made, after⟩ := clientSteps found stepped
  exact ⟨v, _, _, l.goto p, made, after, rfl, List.getElem?_set_self inside, none⟩

/-- No loop misses that the channel its stream was opened on was replaced. -/
theorem swapsNoticed (fresh : Fresh start) (course : Course (Use outside) start changes w)
    (found : w.clients[i]? = some c) (role : c.role = .consumer k) (there : k.loops[j]? = some l)
    (held : l.phase.stream? = some stream) : AwareLoop i j changes w c.supervisor l stream := by
  have coherent := Supervisor.coherentReachable (courseReachable fresh course) found
  have tuned := tunedReached fresh course found k j l role there
  obtain ⟨order, ch, queue, tag, read, noted⟩ := tuned.stream stream held
  have unseen (newer : l.generation < c.supervisor.session.generation) :
      l.seen ≠ c.supervisor.announced ∨ c.supervisor.recovery.telling = true := by
    have announced := coherent.announced
    cases telling : c.supervisor.recovery.telling with
    | true => exact .inr rfl
    | false =>
      -- all is told, so what the loop was told of is as old as its channel
      rw [telling] at announced
      change c.supervisor.announced = _ at announced
      exact .inl (by omega)
  refine ⟨⟨ch, queue, tag, read, noted⟩, tuned.generation, unseen, toldOf coherent found,
    fun ch here => loopWakes found role there here, fun quiet ch here => ?_⟩
  refine Decidable.byContradiction fun other => ?_
  rcases unseen (Nat.lt_of_le_of_ne tuned.generation other) with late | telling
  · obtain ⟨v, d, m, n, made, -⟩ := loopWakes found role there here late true
    exact nomatch made.symm.trans (quiet _ true)
  · obtain ⟨v, d, made, -⟩ := toldOf coherent found telling true
    exact nomatch made.symm.trans (quiet _ true)

open Broker (Memory)

def inbox : World Memory :=
  let t := ((Topology.new "orders").withQueue "orders").underKey "order"
  ((offline.make "orders" (.consumer t {} {} fun _ _ => {})).settle.call 0 (.start .locking)).settle

def inboxSwapped : World Memory :=
  let reported := (drive (.client 0 (.watcher 0)) 1 false inbox.drop).2
  let released := (drive (.client 0 .recovery) 4 false reported).2
  (drive (.client 0 .recovery) 12 false (released.advance 5000)).2

theorem inboxSwappedReached : Reachable Drops inboxSwapped := by
  have made : Reachable Drops (offline.make "orders" (.consumer (((Topology.new "orders").withQueue
      "orders").underKey "order") {} {} fun _ _ => {})).settle := reachableMade ⟨rfl, rfl, rfl⟩ _ _
  have started : Reachable Drops inbox :=
    reachableSettled (reachableCall made (by decide +kernel) fun _ => trivial)
  have lost : Reachable Drops inbox.drop := reachableBroker started rfl
  have released := reachableDriven (reachableDriven lost (.client 0 (.watcher 0)) 1)
    (.client 0 .recovery) 4
  exact reachableDriven (reachableTime released (by decide +kernel)) _ 12

theorem inboxSwapNoticed : ∃ start changes c k l ch stream, Fresh start ∧
    Course (Use Drops) start changes inboxSwapped ∧ inboxSwapped.clients[0]? = some c ∧
    c.role = .consumer k ∧ k.loops[0]? = some l ∧ l.phase = .reading ch stream ∧
    l.generation < c.supervisor.session.generation ∧
    AwareLoop 0 0 changes inboxSwapped c.supervisor l stream := by
  obtain ⟨start, fresh, run⟩ := inboxSwappedReached
  obtain ⟨changes, course⟩ := runCourse run
  have newer : (inboxSwapped.clients[0]?.any fun c => c.supervisor.session.generation == 1) = true := by
    decide +kernel
  have older : ((inboxSwapped.clients[0]?.bind Client.consumer?).any fun k => k.loops[0]?.any fun l =>
      l.generation == 0 && match l.phase with | .reading .. => true | _ => false) = true := by
    decide +kernel
  obtain ⟨b, there, newer⟩ := (Option.any_eq_true _ _).mp newer
  obtain ⟨c, k, found, role, older⟩ := consumerSeen older
  cases Option.some.inj (there.symm.trans found)
  obtain ⟨l, loop, older⟩ := (Option.any_eq_true _ _).mp older
  obtain ⟨old, reading⟩ := Bool.and_eq_true_iff.mp older
  split at reading
  · rename_i ch stream here
    have less : l.generation < b.supervisor.session.generation := by
      rw [beq_iff_eq.mp old, beq_iff_eq.mp newer]
      exact Nat.zero_lt_one
    exact ⟨start, changes, b, k, l, ch, stream, fresh, course, found, role, loop, here, less,
      swapsNoticed fresh course found role loop (by rw [here]; rfl)⟩
  · cases reading

end World

end AmqpClient
