import AmqpClient.Proofs.Supervisor.Missed
/-! No loss of a link goes unnoticed but one that falls between the last declaration and the
watches. -/
namespace AmqpClient

open Broker (Memory Store)

def Call.taking : Call → Prop
  | .close .taking => True
  | .closeConsumer (.closing .taking) => True
  | _ => False

namespace Client

def closing (c : Client) : Prop := ∃ x ∈ c.calls, x.taking

structure Guarded (s : Store) (c : Client) : Prop where
  supervisor : c.supervisor.Guarded s c.alive
  stopped : c.supervisor.stopped = true → c.supervisor.session.state = .closed ∨ c.closing
  taking : c.closing → c.supervisor.stopped = true
  closed : c.supervisor.session.state = .closed → c.supervisor.stopped = true

variable {e f : Env Memory} {c d : Client} {s t : Store}

theorem aliveOfCall {i : Nat} {x : Call} (here : c.calls[i]? = some x) (going : x.result? = none) :
    c.alive = true := by
  have called : c.calls.any (·.result?.isNone) = true :=
    List.any_eq_true.mpr ⟨x, List.mem_of_getElem? here, by rw [going]; rfl⟩
  simp only [alive, called, Bool.or_true]

theorem aliveOfTask {k : Consumer} (role : c.role = .consumer k) (busy : k.busy = true) :
    c.alive = true := by
  simp only [alive, consumer?, role, Option.any_some, busy, Bool.or_true, Bool.true_or]

theorem busyOfLoop {k : Consumer} {i : Nat} {l : Consumer.Loop} (here : k.loops[i]? = some l)
    (going : l.phase.finished = false) : k.busy = true := by
  have found : k.loops.any (!·.phase.finished) = true :=
    List.any_eq_true.mpr ⟨l, List.mem_of_getElem? here, by rw [going]; rfl⟩
  simp only [Consumer.busy, found, Bool.true_or]

theorem busyOfWorker {k : Consumer} {i : Nat} {x : Consumer.Worker} (here : k.workers[i]? = some x)
    (going : x.phase.finished = false) : k.busy = true := by
  have found : k.workers.any (!·.phase.finished) = true :=
    List.any_eq_true.mpr ⟨x, List.mem_of_getElem? here, by rw [going]; rfl⟩
  simp only [Consumer.busy, found, Bool.or_true, Bool.true_or]

theorem busyOfRetry {k : Consumer} {i : Nat} {r : Consumer.RetryTask} (here : k.retries[i]? = some r)
    (going : r.phase.finished = false) : k.busy = true := by
  have found : k.retries.any (!·.phase.finished) = true :=
    List.any_eq_true.mpr ⟨r, List.mem_of_getElem? here, by rw [going]; rfl⟩
  simp only [Consumer.busy, found, Bool.or_true]

theorem aliveBefore (move : Move e c f d) (asked : d.alive = true) : c.alive = true := by
  cases move with
  | recovery | watcher => exact asked
  | loop role made =>
    obtain ⟨l, here, move⟩ := Consumer.loopMove made
    exact aliveOfTask role (busyOfLoop here (Consumer.loopUnfinished move))
  | worker role made =>
    obtain ⟨x, here, move⟩ := Consumer.workerMove made
    exact aliveOfTask role (busyOfWorker here (Consumer.workerUnfinished move))
  | retry role made =>
    obtain ⟨r, q, here, move, -⟩ := Consumer.retryStepSource made
    exact aliveOfTask role (busyOfRetry here (Consumer.retryUnfinished move))
  | publish here made => exact aliveOfCall here (publishGoing made)
  | close here made => exact aliveOfCall here (closeGoing made)
  | start role here made => exact aliveOfCall here (startGoing made)
  | closeConsumer role here made => exact aliveOfCall here (closeConsumerGoing made)

theorem guardedKept {touched : Resource → Nat → Prop} (keeps : Store.Keeps touched s t)
    (supervisor : d.supervisor = c.supervisor) (closing : d.closing ↔ c.closing)
    (before : d.alive = true → c.alive = true)
    (inside : ∀ r n, n ∈ c.supervisor.owns r → n < (s.ends r).length)
    (untouched : ∀ r n, n ∈ c.supervisor.owns r → ¬ touched r n)
    (guarded : c.Guarded s) : d.Guarded t := by
  have kept := Supervisor.guardedKept keeps inside untouched before guarded.supervisor
  refine ⟨by rw [supervisor]; exact kept, ?_, ?_, ?_⟩
  · rw [supervisor, closing]; exact guarded.stopped
  · rw [supervisor, closing]; exact guarded.taking
  · rw [supervisor]; exact guarded.closed

theorem guardedSame (same : Store.SameLinks s t) (supervisor : d.supervisor = c.supervisor)
    (closing : d.closing ↔ c.closing) (before : d.alive = true → c.alive = true)
    (inside : ∀ r n, n ∈ c.supervisor.owns r → n < (s.ends r).length)
    (guarded : c.Guarded s) : d.Guarded t :=
  guardedKept (Store.keepsSame same) supervisor closing before inside (fun _ _ _ h => h) guarded

theorem closingBack {i : Nat} {y : Call} (calls : d.calls = c.calls.set i y) (idle : ¬ y.taking)
    (closing : d.closing) : c.closing := by
  obtain ⟨z, mem, taking⟩ := closing
  rw [calls] at mem
  rcases List.mem_or_eq_of_mem_set mem with old | rfl
  · exact ⟨z, old, taking⟩
  · exact absurd taking idle

theorem closingOn {i : Nat} {x y : Call} (here : c.calls[i]? = some x)
    (calls : d.calls = c.calls.set i y) (idle : ¬ x.taking) (closing : c.closing) : d.closing := by
  obtain ⟨z, mem, taking⟩ := closing
  obtain ⟨j, found⟩ := List.getElem?_of_mem mem
  refine ⟨z, ?_, taking⟩
  rw [calls]
  refine List.mem_of_getElem? (i := j) ((List.getElem?_set_ne fun same => idle ?_).trans found)
  subst same
  cases here.symm.trans found
  exact taking

theorem guardedClosing {i : Nat} {x y : Call} {u v : Closing} {w : Supervisor}
    (here : c.calls[i]? = some x) (calls : d.calls = c.calls.set i y) (supervisor : d.supervisor = w)
    (move : Supervisor.ClosingMove e c.supervisor u f w v)
    (first : x.taking ↔ u = .taking) (then_ : y.taking ↔ v = .taking)
    (before : d.alive = true → c.alive = true)
    (inside : ∀ r n, n ∈ c.supervisor.owns r → n < e.size r)
    (apart : ∀ r n, n ∈ c.supervisor.owns r → n ∉ u.owns r)
    (guarded : c.Guarded e.broker.store) : d.Guarded f.broker.store := by
  have kept := Supervisor.guardedClosing move inside apart before guarded.supervisor
  rw [← supervisor] at kept
  have same (idle : ¬ x.taking) (rest : ¬ y.taking) (stays : d.supervisor = c.supervisor) :
      d.Guarded f.broker.store := by
    have closing : d.closing ↔ c.closing := ⟨closingBack calls rest, closingOn here calls idle⟩
    refine ⟨kept, ?_, ?_, ?_⟩
    · rw [stays, closing]; exact guarded.stopped
    · rw [stays, closing]; exact guarded.taking
    · rw [stays]; exact guarded.closed
  cases move with
  | raise =>
    have taking : d.closing := by
      have inside : i < c.calls.length := (List.getElem?_eq_some_iff.mp here).1
      refine ⟨y, ?_, then_.mpr rfl⟩
      rw [calls]
      exact List.mem_of_getElem? (List.getElem?_set_self inside)
    have raised : d.supervisor.stopped = true := by rw [supervisor]
    exact ⟨kept, fun _ => .inr taking, fun _ => raised, fun _ => raised⟩
  | take =>
    have raised : c.supervisor.stopped = true :=
      guarded.taking ⟨x, List.mem_of_getElem? here, first.mpr rfl⟩
    have raised : d.supervisor.stopped = true := by rw [supervisor]; exact raised
    exact ⟨kept, fun _ => .inl (by rw [supervisor]; rfl), fun _ => raised, fun _ => raised⟩
  | release move =>
    exact same (fun h => by cases first.mp h) (fun h => by cases then_.mp h) supervisor
  | released =>
    exact same (fun h => by cases first.mp h) (fun h => by cases then_.mp h) supervisor

theorem guardedMove (move : Move e c f d) (level : e.size .connection = e.size .channel)
    (inside : ∀ r n, n ∈ c.owns r → n < e.size r) (single : ∀ r n, (c.owns r).count n ≤ 1)
    (guarded : c.Guarded e.broker.store) : d.Guarded f.broker.store := by
  have before := aliveBefore move
  have inside (r : Resource) (n : Nat) (mem : n ∈ c.supervisor.owns r) : n < e.size r :=
    inside r n (List.mem_append_left _ mem)
  have apart {i : Nat} {x : Call} {u : Closing} (here : c.calls[i]? = some x)
      (same : ∀ r, x.owns r = u.owns r) (r : Resource) (n : Nat)
      (mem : n ∈ c.supervisor.owns r) : n ∉ u.owns r := by
    intro also
    have total := single r n
    have one := List.count_pos_iff.mpr mem
    have two : 0 < (c.calls.flatMap (Call.owns r)).count n :=
      List.count_pos_iff.mpr (List.mem_flatMap.mpr
        ⟨x, List.mem_of_getElem? here, by rw [same]; exact also⟩)
    simp only [owns, List.count_append] at total
    omega
  have idle {i : Nat} {x y : Call} (here : c.calls[i]? = some x) (calls : d.calls = c.calls.set i y)
      (first : ¬ x.taking) (rest : ¬ y.taking) : d.closing ↔ c.closing :=
    ⟨closingBack calls rest, closingOn here calls first⟩
  cases move with
  | recovery made =>
    have move := Supervisor.recoveryMove made
    have stopped := Supervisor.stoppedOfRecovery move
    refine ⟨Supervisor.guardedRecovery level move guarded.supervisor, ?_, ?_, ?_⟩
    · intro raised
      exact (guarded.stopped (stopped.symm.trans raised)).imp_left
        (Supervisor.closedOfRecovery move)
    · exact fun closing => stopped.trans (guarded.taking closing)
    · exact fun closed => stopped.trans (guarded.closed (Supervisor.openOfRecovery move closed))
  | watcher made =>
    obtain ⟨rfl, move⟩ := Supervisor.watcherMove made
    have stopped := Supervisor.stoppedOfWatcher move
    have session := Supervisor.sessionOfWatcher move
    refine ⟨Supervisor.guardedWatcher move guarded.supervisor, ?_, ?_, ?_⟩
    · dsimp only
      rw [stopped, session]
      exact guarded.stopped
    · exact fun closing => stopped.trans (guarded.taking closing)
    · dsimp only
      rw [stopped, session]
      exact guarded.closed
  | loop role made =>
    obtain ⟨l, -, move⟩ := Consumer.loopMove made
    exact guardedSame (c := c) (sameLoop move) rfl Iff.rfl before inside guarded
  | worker role made =>
    obtain ⟨x, -, move⟩ := Consumer.workerMove made
    exact guardedSame (c := c) (sameWorker move) rfl Iff.rfl before inside guarded
  | retry role made =>
    obtain ⟨r, q, -, move, -⟩ := Consumer.retryStepSource made
    exact guardedSame (c := c) (sameRetry move) rfl Iff.rfl before inside guarded
  | publish here made =>
    exact guardedSame (c := c) (samePublication made) rfl (idle here rfl (fun h => h) fun h => h) before inside
      guarded
  | start role here made =>
    exact guardedSame (c := c) (Store.sameLinksRefl _) rfl (idle here rfl (fun h => h) fun h => h) before
      inside guarded
  | @close i x y f t here made =>
    have taking (z : Closing) : (Call.close z).taking ↔ z = .taking := by
      cases z <;> simp [Call.taking]
    exact guardedClosing here rfl rfl (Supervisor.closingMove made) (taking x) (taking y) before
      inside (apart here fun _ => rfl) guarded
  | @closeConsumer i x y k l f t role here made =>
    have taking (z : Closing) : (Call.closeConsumer (.closing z)).taking ↔ z = .taking := by
      cases z <;> simp [Call.taking]
    cases Consumer.closeMove made with
    | closing stepped =>
      exact guardedClosing here rfl rfl (Supervisor.closingMove stepped) (taking _) (taking _) before
        inside (apart here fun _ => rfl) guarded
    | _ =>
      exact guardedSame (c := c) (Store.sameLinksRefl _) rfl (idle here rfl (fun h => h) fun h => h) before
        inside guarded

theorem guardedBorn {o : Opening} {l : Link} {i j : SignalId}
    (safe : Establish.Safe s (.ready l i j)) : (World.client o l i j).Guarded s := by
  refine ⟨Supervisor.guardedBorn safe, (fun h => by cases h), ?_, fun h => by cases h⟩
  intro ⟨x, mem, _⟩
  cases mem

theorem guardedLose {r : Resource} {n : Nat} {reason : String} {m : Memory}
    (watched : ∀ x, c.supervisor.recovery = .establishing x → c.supervisor.stopped = false →
      c.alive = true → ¬ x.Unwatched m.store r n)
    (inside : ∀ r n, n ∈ c.supervisor.owns r → n < (m.store.ends r).length)
    (guarded : c.Guarded m.store) : c.Guarded (m.lose r n reason).store :=
  ⟨Supervisor.guardedLose watched inside guarded.supervisor, guarded.stopped, guarded.taking,
    guarded.closed⟩

def Missed (m : Memory) (c : Client) : Prop :=
  c.alive = true ∧ c.supervisor.Astray m ∧ ¬ c.closing ∧
    ¬ (c.supervisor.recovery.attends ∧ c.supervisor.Noticed m.store)

theorem guardedNoticed {m : Memory} (guarded : c.Guarded m.store) : ¬ c.Missed m := by
  intro ⟨asked, astray, idle, unnoticed⟩
  refine unnoticed (Supervisor.guardedNoticed guarded.supervisor astray ?_ asked)
  cases running : c.supervisor.stopped with
  | false => rfl
  | true =>
    rcases guarded.stopped running with closed | closing
    · cases closed.symm.trans astray.1
    · exact absurd closing idle

end Client

namespace World

def lost (r : Resource) (n : Nat) (reason : String) (w : World Memory) : World Memory :=
  { w with env := w.env.withBroker (w.env.broker.lose r n reason) }

inductive Establishes (w : World Memory) (x : Establish) : Prop where
  | opening {o} (found : o ∈ w.openings) (here : o.phase = .establishing x)
  | recovery {c} (found : c ∈ w.clients) (asked : c.alive = true)
      (running : c.supervisor.stopped = false) (here : c.supervisor.recovery = .establishing x)

def Unrelated (m b : Memory) : Prop := Store.SameLinks m.store b.store

/-- A use of the clients, or a loss other than between the last declaration of a link and the watch
that would tell of it. -/
inductive Attended : World Memory → World Memory → Prop where
  | use {w v} (used : Use Unrelated w v) : Attended w v
  | loss (w) {r n} (reason : String)
      (watched : ∀ x, w.Establishes x → ¬ x.Unwatched w.env.broker.store r n) :
      Attended w (w.lost r n reason)

def Watchful (w : World Memory) : Prop :=
  ∃ start, Fresh start ∧ start.env.size .connection = start.env.size .channel ∧
    Run Attended start w

structure Guarded (w : World Memory) : Prop where
  owned : w.Owned
  openings : ∀ o ∈ w.openings, ∀ x, o.phase = .establishing x → x.Safe w.env.broker.store
  clients : ∀ c ∈ w.clients, c.Guarded w.env.broker.store

variable {w v : World Memory}

section Others

variable {touched : Resource → Nat → Prop} {t : Store}

theorem safeOther {o : Opening} {x : Establish} (keeps : Store.Keeps touched w.env.broker.store t)
    (guarded : w.Guarded) (found : o ∈ w.openings) (here : o.phase = .establishing x)
    (untouched : ∀ r n, n ∈ o.owns r → ¬ touched r n) : x.Safe t := by
  have mine (r : Resource) : o.owns r = x.owns r := by simp only [Opening.owns, here]
  refine Establish.safeKept keeps (fun r n mem => ?_) (fun r n mem => ?_)
    (guarded.openings o found x here)
  · exact insideOfOwned guarded.owned (ownsOfOpening found (by rw [mine]; exact mem))
  · exact untouched r n (by rw [mine]; exact mem)

theorem guardedOther {c : Client} (keeps : Store.Keeps touched w.env.broker.store t)
    (guarded : w.Guarded) (found : c ∈ w.clients)
    (untouched : ∀ r n, n ∈ c.owns r → ¬ touched r n) : c.Guarded t := by
  refine Client.guardedKept keeps rfl Iff.rfl id (fun r n mem => ?_) (fun r n mem => ?_)
    (guarded.clients c found)
  · exact insideOfOwned guarded.owned (ownsOfClient found (List.mem_append_left _ mem))
  · exact untouched r n (List.mem_append_left _ mem)

end Others

theorem guardedOpening {i : Nat} {o : Opening} (guarded : w.Guarded)
    (found : w.openings[i]? = some o) (move : OpeningMove i w o v) : v.Guarded := by
  have there := List.mem_of_getElem? found
  have idle {p : OpeningPhase} (safe : ∀ x, p = .establishing x → x.Safe w.env.broker.store) :
      ∀ q ∈ w.openings.set i { o with phase := p }, ∀ x, q.phase = .establishing x →
        x.Safe w.env.broker.store := by
    intro q mem x here
    rcases List.mem_or_eq_of_mem_set mem with old | rfl
    · exact guarded.openings q old x here
    · exact safe x here
  have owned := ownedOpening guarded.owned found move
  cases move with
  | start here =>
    exact ⟨owned, idle (fun x h => by cases h; trivial), guarded.clients⟩
  | refuse here => exact ⟨owned, idle (fun x h => by cases h), guarded.clients⟩
  | fail here => exact ⟨owned, idle (fun x h => by cases h), guarded.clients⟩
  | @opened l c h here =>
    refine ⟨owned, idle (fun x h => by cases h), fun d mem => ?_⟩
    rcases List.mem_append.mp mem with old | new
    · exact guarded.clients d old
    · cases List.mem_singleton.mp new
      exact Client.guardedBorn (guarded.openings o there _ here)
  | @establish x y f here move =>
    have keeps := (Establish.confined move).keeps
    have mine (r : Resource) : o.owns r = x.owns r := by simp only [Opening.owns, here]
    refine ⟨owned, fun q mem z phase => ?_, fun c mem => ?_⟩
    · rcases memSet found mem with rfl | ⟨j, other, old⟩
      · cases phase
        exact Establish.safeMove move guarded.owned.level (guarded.openings o there x here)
      · refine safeOther keeps guarded (List.mem_of_getElem? old) phase fun r n mine' touched => ?_
        exact openingsApart guarded.owned found old other (by rw [mine]; exact touched) mine'
    · refine guardedOther keeps guarded mem fun r n mine' touched => ?_
      exact openingApart guarded.owned there mem (by rw [mine]; exact touched) mine'

theorem guardedClient {i : Nat} {a : Activity} {c d : Client} {f : Env Memory} (guarded : w.Guarded)
    (found : w.clients[i]? = some c) (move : Client.Move w.env c f d) :
    Guarded { w with env := recordEnd i a d f, clients := w.clients.set i d } := by
  have there := List.mem_of_getElem? found
  have same := brokerRecordEnd i a d f
  have keeps := (Client.confined move).keeps
  refine ⟨ownedClient guarded.owned found move, fun o mem x here => ?_, fun b mem => ?_⟩
  · dsimp only
    rw [same]
    exact safeOther keeps guarded mem here fun r n mine touched =>
      openingApart guarded.owned mem there mine touched
  · dsimp only
    rw [same]
    rcases memSet found mem with rfl | ⟨j, other, old⟩
    · refine Client.guardedMove move guarded.owned.level (fun r n mem => ?_) (fun r n => ?_)
        (guarded.clients c there)
      · exact insideOfOwned guarded.owned (ownsOfClient there mem)
      · have whole := ownedOnce (r := r) (n := n) guarded.owned
        have part := leTotal (f := fun x => (Client.owns r x).count n) there
        rw [← countParts] at part
        simp only [World.owns, List.count_append] at whole part
        omega
    · exact guardedOther keeps guarded (List.mem_of_getElem? old) fun r n mine touched =>
        clientsApart guarded.owned found old other touched mine

theorem guardedFresh (fresh : Fresh w) (level : w.env.size .connection = w.env.size .channel) :
    w.Guarded := by
  refine ⟨⟨level, fun r n => ?_⟩, fun o mem => ?_, fun c mem => ?_⟩
  · simp only [World.owns, fresh.openings, fresh.clients, List.flatMap_nil, List.append_nil,
      List.count_nil]
    exact Nat.zero_le _
  · rw [fresh.openings] at mem; cases mem
  · rw [fresh.clients] at mem; cases mem

theorem guardedModify {i : Nat} {f : Client → Client} (guarded : w.Guarded)
    (owned : World.Owned { w with clients := w.clients.modify i f })
    (supervisor : ∀ c, (f c).supervisor = c.supervisor) (closing : ∀ c, (f c).closing ↔ c.closing)
    (before : ∀ c, w.clients[i]? = some c → (f c).alive = true → c.alive = true) :
    Guarded { w with clients := w.clients.modify i f } := by
  refine ⟨owned, guarded.openings, fun d mem => ?_⟩
  obtain ⟨j, found⟩ := List.getElem?_of_mem mem
  rw [List.getElem?_modify] at found
  obtain ⟨c, old, same⟩ := Option.map_eq_some_iff.mp found
  have kept := guarded.clients c (List.mem_of_getElem? old)
  split at same <;> subst same
  · rename_i here
    subst here
    have inside (r : Resource) (n : Nat) (mem : n ∈ c.supervisor.owns r) : n < w.env.size r :=
      insideOfOwned guarded.owned
        (ownsOfClient (List.mem_of_getElem? old) (List.mem_append_left _ mem))
    exact Client.guardedSame (Store.sameLinksRefl _) (supervisor c) (closing c) (before c old)
      inside kept
  · exact kept

theorem guardedUse (guarded : w.Guarded) (used : Use Unrelated w v) : v.Guarded := by
  cases used with
  | act made =>
    obtain ⟨a, preferStop, made⟩ := made
    cases a with
    | opening i =>
      obtain ⟨o, found, move⟩ := openingMove made
      exact guardedOpening guarded found move
    | client i a =>
      obtain ⟨c, f, d, found, stepped, rfl⟩ := clientStepSource made
      exact guardedClient guarded found (Client.clientMove stepped)
  | time => exact ⟨⟨guarded.owned.level, guarded.owned.owns⟩, guarded.openings, guarded.clients⟩
  | broker change =>
    have keeps := Store.keepsSame change
    refine ⟨ownedOutside guarded.owned (Store.sizeOfSame change), fun o mem x here => ?_,
      fun c mem => ?_⟩
    · exact safeOther keeps guarded mem here fun _ _ _ h => h
    · exact guardedOther keeps guarded mem fun _ _ _ h => h
  | make client p =>
    refine ⟨ownedMake guarded.owned client p, fun o mem x here => ?_, guarded.clients⟩
    rcases List.mem_append.mp mem with old | new
    · exact guarded.openings o old x here
    · cases List.mem_singleton.mp new
      cases here
  | @call i c x found held opens =>
    have idle : ¬ x.taking := by
      intro taking
      unfold Call.Opens at opens
      split at opens <;> contradiction
    refine guardedModify guarded (ownedCall guarded.owned opens) (fun _ => rfl) (fun c => ?_)
      (fun d there _ => ?_)
    · constructor
      · rintro ⟨y, mem, taking⟩
        rcases List.mem_append.mp mem with old | new
        · exact ⟨y, old, taking⟩
        · cases List.mem_singleton.mp new
          exact absurd taking idle
      · exact fun ⟨y, mem, taking⟩ => ⟨y, List.mem_append_left _ mem, taking⟩
    · cases found.symm.trans there
      simp only [Client.alive, held, Bool.true_or]
  | letGo i =>
    refine guardedModify guarded (ownedLetGo guarded.owned i) (fun _ => rfl) (fun _ => Iff.rfl)
      (fun c _ asked => ?_)
    have asked : (false || c.consumer?.any Consumer.busy || c.calls.any (·.result?.isNone)) = true :=
      asked
    unfold Client.alive
    rw [Bool.false_or] at asked
    rw [Bool.or_assoc, asked, Bool.or_true]

theorem guardedLoss {r : Resource} {n : Nat} (reason : String) (guarded : w.Guarded)
    (watched : ∀ x, w.Establishes x → ¬ x.Unwatched w.env.broker.store r n) :
    (w.lost r n reason).Guarded := by
  refine ⟨ownedOutside guarded.owned (Broker.Memory.sizeLose r n reason _), fun o mem x here => ?_,
    fun c mem => ?_⟩
  · refine Establish.safeLose (watched x (.opening mem here)) (fun q k own => ?_)
      (guarded.openings o mem x here)
    refine insideOfOwned guarded.owned (ownsOfOpening mem ?_)
    simp only [Opening.owns, here]
    exact own
  · refine Client.guardedLose (fun x here running asked => watched x (.recovery mem asked running here))
      (fun q k own => ?_) (guarded.clients c mem)
    exact insideOfOwned guarded.owned (ownsOfClient mem (List.mem_append_left _ own))

theorem guardedWatchful (watchful : w.Watchful) : w.Guarded := by
  obtain ⟨start, fresh, level, run⟩ := watchful
  induction run with
  | refl => exact guardedFresh fresh level
  | next _ last ih =>
    cases last with
    | use used => exact guardedUse ih used
    | loss reason watched => exact guardedLoss reason ih watched

def Missed (w : World Memory) : Prop := ∃ c ∈ w.clients, c.Missed w.env.broker

section Stranding

variable {i : Nat} {e f : Env Memory} {x y : Establish}

theorem openingPath {client : String} {plan : Plan}
    (path : Establish.Path client plan.topology e x f y) (start : w.env = e)
    (found : w.openings[i]? = some ⟨client, plan, .establishing x⟩) :
    ∃ v, Run Acts w v ∧ v.env = f ∧ v.openings[i]? = some ⟨client, plan, .establishing y⟩ := by
  induction path generalizing w with
  | refl => exact ⟨w, .refl w, start, found⟩
  | @next e x f y g z first rest ih =>
    let o : Opening := ⟨client, plan, .establishing x⟩
    have step : w.openingStep i = some { w.setOpening i o (.establishing y) with env := f } := by
      unfold openingStep
      rw [found]
      dsimp only
      rw [start]
      cases x with
      | failed => cases first
      | ready => cases first
      | _ => simp only [first, Option.map_some]; rfl
    have inside : i < w.openings.length := (List.getElem?_eq_some_iff.mp found).1
    obtain ⟨v, run, env, there⟩ :=
      ih (w := { w.setOpening i o (.establishing y) with env := f }) rfl
        (List.getElem?_set_self inside)
    exact ⟨v, (Run.single ⟨.opening i, false, step⟩).trans run, env, there⟩

theorem recoveryPath {c : Client}
    (path : Establish.Path c.supervisor.client c.supervisor.topology e x f y) (start : w.env = e)
    (found : w.clients[i]? = some
      { c with supervisor := { c.supervisor with recovery := .establishing x } }) :
    ∃ v, Run Acts w v ∧ v.env = f ∧ v.clients[i]? = some
      { c with supervisor := { c.supervisor with recovery := .establishing y } } := by
  -- neither changes on the way, though the client does
  generalize client : c.supervisor.client = name at path
  generalize topology : c.supervisor.topology = t at path
  induction path generalizing w with
  | refl => exact ⟨w, .refl w, start, found⟩
  | @next e x f y g z first rest ih =>
    let d : Client := { c with supervisor := { c.supervisor with recovery := .establishing y } }
    have step : w.clientStep i .recovery false =
        some { w with env := f, clients := w.clients.set i d } := by
      unfold clientStep Client.step
      rw [found]
      dsimp only
      unfold Supervisor.recoveryStep
      dsimp only
      rw [start]
      rw [← client, ← topology] at first
      cases x with
      | failed => cases first
      | ready => cases first
      | _ => simp only [first, Option.map_some]; rfl
    have inside : i < w.clients.length := (List.getElem?_eq_some_iff.mp found).1
    obtain ⟨v, run, env, there⟩ :=
      ih (w := { w with env := f, clients := w.clients.set i d }) rfl
        (List.getElem?_set_self inside)
    exact ⟨v, (Run.single ⟨.client i .recovery, false, step⟩).trans run, env, there⟩

theorem missedOpening {o : Opening} (found : w.openings[i]? = some o)
    (here : o.phase = .establishing x) (doomed : x.Doomed w.env.broker.store) :
    ∃ v, Run Acts w v ∧ v.Missed := by
  obtain ⟨client, plan, phase⟩ := o
  cases here
  obtain ⟨f, l, c, h, path, dead, first, second⟩ :=
    Establish.doomedReady client plan.topology doomed
  obtain ⟨v, run, rfl, there⟩ := openingPath path rfl found
  let o : Opening := ⟨client, plan, .establishing (.ready l c h)⟩
  have step : v.openingStep i = some { v.setOpening i o (.opened v.clients.length) with
      clients := v.clients ++ [World.client o l c h] } := by
    unfold openingStep
    rw [there]
  refine ⟨_, run.next ⟨.opening i, false, step⟩, World.client o l c h,
    List.mem_append_right _ (List.mem_singleton_self _), rfl,
    Supervisor.astrayOfDead rfl rfl rfl dead, ?_, ?_⟩
  · intro ⟨x, mem, _⟩
    cases mem
  · intro ⟨_, noticed⟩
    rcases noticed with ⟨x, mem, _⟩ | ⟨x, mem, _, _, fired⟩ | ⟨c, h, arming, _⟩
    · cases mem
    · rcases List.mem_cons.mp mem with rfl | mem
      · exact first fired
      · cases List.mem_singleton.mp mem
        exact second fired
    · cases arming

theorem missedRecovery {c : Client} {t : Store} (kept : c.Guarded t)
    (found : w.clients[i]? = some c)
    (asked : c.alive = true) (running : c.supervisor.stopped = false)
    (here : c.supervisor.recovery = .establishing x) (doomed : x.Doomed w.env.broker.store) :
    ∃ v, Run Acts w v ∧ v.Missed := by
  have unclosed : c.supervisor.session.state ≠ .closed := by
    intro closed
    rw [kept.closed closed] at running
    cases running
  have idle : ¬ c.closing := by
    intro closing
    rw [kept.taking closing] at running
    cases running
  obtain ⟨f, l, i₁, i₂, path, dead, first, second⟩ :=
    Establish.doomedReady c.supervisor.client c.supervisor.topology doomed
  have found : w.clients[i]? = some
      { c with supervisor := { c.supervisor with recovery := .establishing x } } := by
    rw [found, ← here]
  obtain ⟨v, run, rfl, there⟩ := recoveryPath path rfl found
  let s : Supervisor := { c.supervisor with recovery := .establishing (.ready l i₁ i₂) }
  have step : v.clientStep i .recovery false =
      some { v with clients := v.clients.set i { c with supervisor := s.adopt l i₁ i₂ } } := by
    unfold clientStep Client.step
    rw [there]
    rfl
  have adopted : s.adopt l i₁ i₂ = { s with
      session := s.session.renew l
      recovery := .arming (s.session.generation + 1) i₁ i₂ } := by
    unfold Supervisor.adopt
    rw [if_neg unclosed]
    rfl
  rw [adopted] at step
  have inside : i < v.clients.length := (List.getElem?_eq_some_iff.mp there).1
  refine ⟨_, run.next ⟨.client i .recovery, false, step⟩, _,
    List.mem_of_getElem? (List.getElem?_set_self inside), asked,
    Supervisor.astrayOfDead rfl rfl rfl dead, idle, ?_⟩
  intro ⟨_, noticed⟩
  -- the reports and the watchers there are belong to generations before the new one
  rcases noticed with ⟨y, mem, same⟩ | ⟨y, mem, same, _⟩ | ⟨j, k, arming, fired⟩
  · have old := kept.supervisor.events y mem
    have same : y.generation = c.supervisor.session.generation + 1 := same
    omega
  · have old := kept.supervisor.watchers y mem
    have same : y.generation = c.supervisor.session.generation + 1 := same
    omega
  · cases arming
    exact fired.elim first second

end Stranding

/-- A loss that no link being set up is exposed to is found out; any other may be missed. -/
theorem lossesNoticed (watchful : w.Watchful) :
    (∀ c ∈ w.clients, c.alive = true → c.supervisor.Astray w.env.broker →
      c.closing ∨ (c.supervisor.recovery.attends ∧ c.supervisor.Noticed w.env.broker.store)) ∧
    ∀ r n reason, (∃ v, Run Acts (w.lost r n reason) v ∧ v.Missed) ↔
      ∃ x, w.Establishes x ∧ x.Unwatched w.env.broker.store r n := by
  have noticed {v : World Memory} (guarded : v.Guarded) : ¬ v.Missed := fun ⟨c, mem, missed⟩ =>
    Client.guardedNoticed (guarded.clients c mem) missed
  have guarded := guardedWatchful watchful
  refine ⟨fun c mem asked astray => ?_, fun r n reason => ⟨fun ⟨v, run, missed⟩ => ?_, ?_⟩⟩
  · refine Classical.byContradiction fun unnoticed => noticed guarded ⟨c, mem, asked, astray, ?_⟩
    exact not_or.mp unnoticed
  · refine Classical.byContradiction fun unexposed => noticed ?_ missed
    have lost := guardedLoss (r := r) (n := n) reason guarded fun x establishes exposed =>
      unexposed ⟨x, establishes, exposed⟩
    -- no step that follows misses anything, since each keeps the guard
    clear missed
    induction run with
    | refl => exact lost
    | next _ last ih => exact guardedUse ih (.act last)
  · rintro ⟨x, establishes, exposed⟩
    cases establishes with
    | opening found here =>
      have safe := guarded.openings _ found x here
      obtain ⟨i, found⟩ := List.getElem?_of_mem found
      exact missedOpening (w := w.lost r n reason) found here (Establish.doomedLose safe exposed)
    | recovery found asked running here =>
      have kept := guarded.clients _ found
      have safe := kept.supervisor.establishing x here running asked
      obtain ⟨i, found⟩ := List.getElem?_of_mem found
      exact missedRecovery (w := w.lost r n reason) kept found asked running here
        (Establish.doomedLose safe exposed)

def linked? (w : World Memory) : Bool :=
  w.openings.all (fun o => match o.phase with | .establishing _ => false | _ => true) &&
    w.clients.all fun c => match c.supervisor.recovery with | .establishing _ => false | _ => true

theorem linkedSeen (seen : w.linked? = true) {x : Establish} : ¬ w.Establishes x := by
  obtain ⟨openings, clients⟩ := Bool.and_eq_true_iff.mp seen
  intro establishes
  cases establishes with
  | opening found here =>
    have idle := List.all_eq_true.mp openings _ found
    rw [here] at idle
    cases idle
  | recovery found _ _ here =>
    have idle := List.all_eq_true.mp clients _ found
    rw [here] at idle
    cases idle

def unlinked : World Memory := { env := { broker := {}, wallClock := fun _ => 0 } }

def declared : World Memory :=
  (drive (.opening 0) 5 false
    (unlinked.make "orders" (.supervisor (Topology.new "orders") (.ofSeconds 5)))).2

def disconnected : World Memory := declared.settle.lost .connection 0 "gone"

theorem declaredRun {outside : Memory → Memory → Prop} : Run (Use outside) unlinked declared :=
  .trans (.single (.make _ _ _)) ((driveActs _ _ _ _).map fun _ _ made => .act made)

theorem declaredWatchful : declared.Watchful :=
  ⟨unlinked, ⟨rfl, rfl, rfl⟩, rfl, declaredRun.map fun _ _ used => .use used⟩

theorem disconnectedWatchful : disconnected.Watchful := by
  obtain ⟨start, fresh, level, run⟩ := declaredWatchful
  have settled : Run Attended declared declared.settle :=
    (settleActs declared).map fun _ _ made => .use (.act made)
  have still : declared.settle.linked? = true := by decide +kernel
  exact ⟨start, fresh, level, (run.trans settled).next
    (.loss _ "gone" fun _ establishes => absurd establishes (linkedSeen still))⟩

theorem declaredExposed : declared.openings[0]?.map Opening.phase =
    some (.establishing (.watchingConnection ⟨0, 0⟩)) := by decide +kernel

theorem lossNoticedOrMissed :
    (disconnected.Watchful ∧ ∃ c ∈ disconnected.clients, c.alive = true ∧
      c.supervisor.Astray disconnected.env.broker ∧
      c.supervisor.Noticed disconnected.env.broker.store) ∧
    declared.Watchful ∧ ∃ v, Run Acts (declared.lost .connection 0 "gone") v ∧ v.Missed := by
  refine ⟨⟨disconnectedWatchful, ?_⟩, declaredWatchful, ?_⟩
  · have seen : (disconnected.clients[0]?.any fun c => c.alive && c.calls.isEmpty &&
        (c.supervisor.session.state == .connected &&
          !c.supervisor.isConnected disconnected.env.broker)) = true := by decide +kernel
    obtain ⟨c, found, seen⟩ := (Option.any_eq_true _ _).mp seen
    simp only [Bool.and_eq_true, Bool.not_eq_true', List.isEmpty_iff, beq_iff_eq] at seen
    obtain ⟨⟨asked, idle⟩, astray⟩ := seen
    have mem := List.mem_of_getElem? found
    refine ⟨c, mem, asked, astray, ?_⟩
    rcases (lossesNoticed disconnectedWatchful).1 c mem asked astray with ⟨x, call, _⟩ | noticed
    · rw [idle] at call; cases call
    · exact noticed.2
  · obtain ⟨o, found, here⟩ := Option.map_eq_some_iff.mp declaredExposed
    exact ((lossesNoticed declaredWatchful).2 .connection 0 "gone").mpr
      ⟨_, .opening (List.mem_of_getElem? found) here, rfl⟩

/-- A connection dropped just before it is watched leaves its client connected on it, untold. -/
theorem dropMissed :
    ∃ v, Reachable (fun m b => b = m.killConnection "gone") v ∧ v.Missed := by
  have reached : Reachable (fun m b => b = m.killConnection "gone") declared :=
    ⟨unlinked, ⟨rfl, rfl, rfl⟩, declaredRun⟩
  have killed : declared.env.broker.killConnection "gone" =
      declared.env.broker.lose .connection 0 "gone" :=
    Broker.Memory.killConnectionLoses (by decide +kernel) (by decide +kernel)
  have lost := reachableBroker reached (b := declared.env.broker.lose .connection 0 "gone") killed.symm
  obtain ⟨o, found, here⟩ := Option.map_eq_some_iff.mp declaredExposed
  have safe := (guardedWatchful declaredWatchful).openings o (List.mem_of_getElem? found) _ here
  obtain ⟨v, run, missed⟩ := missedOpening (w := declared.lost .connection 0 "gone") found here
    (Establish.doomedLose safe rfl)
  exact ⟨v, reachableRun lost (run.map fun _ _ made => .act made), missed⟩

end World

end AmqpClient
