import AmqpClient.Proofs.Course
/-! One worker, or one task that holds a copy, among all else that goes on: it stays as it is but for
the steps it makes itself. -/
namespace AmqpClient

variable {β : Type} [Broker β]

structure Consumer.Spares (a : Activity) (k m : Consumer) : Prop where
  policy : m.retry = k.retry
  workers : ∀ j x, a ≠ .worker j → k.workers[j]? = some x → m.workers[j]? = some x
  retries : ∀ j r, a ≠ .retry j → k.retries[j]? = some r → m.retries[j]? = some r
  stopped : k.stopped = true → m.stopped = true

namespace Consumer

variable {a : Activity} {e f : Env β} {s : Supervisor} {k m : Consumer}

omit [Broker β] in
theorem sparesSame (policy : m.retry = k.retry) (workers : m.workers = k.workers)
    (retries : m.retries = k.retries) (stopped : k.stopped = true → m.stopped = true) :
    Spares a k m :=
  ⟨policy, fun _ _ _ found => workers ▸ found, fun _ _ _ found => retries ▸ found, stopped⟩

omit [Broker β] in
theorem keptAppend {α : Type} {xs ys zs : List α} {j : Nat} {x : α} (more : ys = xs ++ zs)
    (found : xs[j]? = some x) : ys[j]? = some x := by
  rw [more, List.getElem?_append_left (List.getElem?_eq_some_iff.mp found).1]
  exact found

theorem sparesWorker {i : Nat} (made : k.workerStep i e = some (f, m)) :
    Spares (.worker i) k m := by
  obtain ⟨x, -, move⟩ := workerMove made
  refine ⟨?_, fun j y other found => ?_, fun j r _ found => ?_, ?_⟩
  · cases move <;> rfl
  · have apart : i ≠ j := fun same => other (congrArg _ same)
    cases move <;> exact (List.getElem?_set_ne apart).trans found
  · cases move with
    | schedule => exact keptAppend rfl found
    | _ => exact found
  · cases move <;> exact id

theorem sparesLoop {i : Nat} {preferStop : Bool} (made : k.loopStep i preferStop s e = some (f, m)) :
    Spares a k m := by
  obtain ⟨l, -, move⟩ := loopMove made
  have frame := loopFrame move
  refine ⟨frame.retry, fun j y _ found => ?_, fun j r _ found => frame.retries ▸ found,
    fun h => frame.stopped ▸ h⟩
  rcases frame.workers with same | ⟨d, c, more⟩
  · exact same ▸ found
  · exact keptAppend more found

theorem sparesRetry {i : Nat} (made : k.retryStep i s e = some (f, m)) : Spares (.retry i) k m := by
  obtain ⟨r, q, -, -, rfl⟩ := retryStepSource made
  refine ⟨rfl, fun _ _ _ => id, fun j r other found => ?_, id⟩
  exact (List.getElem?_set_ne fun same => other (congrArg _ same)).trans found

theorem sparesClose {call : Nat} {t : Supervisor} {x y : ConsumerClosing}
    (made : k.closeStep call e s x = some (f, t, m, y)) : Spares a k m := by
  cases closeMove made with
  | raise => exact sparesSame rfl rfl rfl fun _ => rfl
  | _ => exact sparesSame rfl rfl rfl id

end Consumer

namespace Client

variable {a : Activity} {preferStop : Bool} {e f : Env β} {c d : Client} {k : Consumer}

theorem sparesCall {i : Nat} (made : c.callStep i e = some (f, d)) (role : c.role = .consumer k) :
    ∃ m, d.role = .consumer m ∧ Consumer.Spares a k m := by
  unfold callStep at made
  split at made
  case h_1 | h_2 =>
    obtain ⟨_, -, same⟩ := Option.map_eq_some_iff.mp made
    cases same
    exact ⟨k, role, Consumer.sparesSame rfl rfl rfl id⟩
  case h_3 was =>
    cases role.symm.trans was
    obtain ⟨_, started, same⟩ := Option.map_eq_some_iff.mp made
    cases same
    obtain ⟨policy, stopped, retries, -, workers⟩ := Consumer.startFrame started
    exact ⟨_, rfl, Consumer.sparesSame policy workers retries fun h => stopped ▸ h⟩
  case h_4 was =>
    cases role.symm.trans was
    obtain ⟨_, closed, same⟩ := Option.map_eq_some_iff.mp made
    cases same
    exact ⟨_, rfl, Consumer.sparesClose closed⟩
  case h_5 => contradiction

theorem sparesStep (made : c.step a preferStop e = some (f, d)) (role : c.role = .consumer k) :
    ∃ m, d.role = .consumer m ∧ Consumer.Spares a k m := by
  cases a with
  | recovery | watcher =>
    obtain ⟨_, -, same⟩ := Option.map_eq_some_iff.mp made
    cases same
    exact ⟨k, role, Consumer.sparesSame rfl rfl rfl id⟩
  | loop i =>
    obtain ⟨_, m, was, made, rfl⟩ := consumerStepSource made
    cases role.symm.trans was
    exact ⟨m, rfl, Consumer.sparesLoop made⟩
  | worker i =>
    obtain ⟨_, m, was, made, rfl⟩ := consumerStepSource (g := fun _ e k => k.workerStep i e) made
    cases role.symm.trans was
    exact ⟨m, rfl, Consumer.sparesWorker made⟩
  | retry i =>
    obtain ⟨_, m, was, made, rfl⟩ := consumerStepSource made
    cases role.symm.trans was
    exact ⟨m, rfl, Consumer.sparesRetry made⟩
  | call i => exact sparesCall made role

end Client

namespace World

variable {w v : World β} {outside : β → β → Prop} {i j : Nat} {k : Consumer}

def consumerAt (w : World β) (i : Nat) : Option Consumer := w.clients[i]?.bind Client.consumer?

def workerAt (w : World β) (i j : Nat) : Option Consumer.Worker :=
  (w.consumerAt i).bind fun k => k.workers[j]?

def retryAt (w : World β) (i j : Nat) : Option Consumer.RetryTask :=
  (w.consumerAt i).bind fun k => k.retries[j]?

omit [Broker β] in
theorem consumerAtIff : w.consumerAt i = some k ↔
    ∃ c, w.clients[i]? = some c ∧ c.role = .consumer k := by
  constructor
  · intro there
    obtain ⟨c, found, consumer⟩ := Option.bind_eq_some_iff.mp there
    refine ⟨c, found, ?_⟩
    unfold Client.consumer? at consumer
    split at consumer
    · rename_i role
      cases consumer
      exact role
    · cases consumer
  · rintro ⟨c, found, role⟩
    unfold consumerAt
    rw [found]
    exact Client.consumerOf role

theorem sparesUse (used : Use outside w v) (there : w.consumerAt i = some k) :
    ∃ m, v.consumerAt i = some m ∧ ∃ a, Consumer.Spares a k m ∧
      ((∃ preferStop, w.step (.client i a) preferStop = some v) ∨ m = k) := by
  obtain ⟨c, found, role⟩ := consumerAtIff.mp there
  have idle (same : v.consumerAt i = some k) : ∃ m, v.consumerAt i = some m ∧
      ∃ a, Consumer.Spares a k m ∧
        ((∃ preferStop, w.step (.client i a) preferStop = some v) ∨ m = k) :=
    ⟨k, same, .recovery, Consumer.sparesSame rfl rfl rfl id, .inr rfl⟩
  have modified {n : Nat} {f : Client → Client} (role : ∀ c, (f c).role = c.role) :
      World.consumerAt { w with clients := w.clients.modify n f } i = some k := by
    obtain ⟨c, found, was⟩ := consumerAtIff.mp there
    refine consumerAtIff.mpr ⟨if n = i then f c else c, ?_, ?_⟩
    · rw [List.getElem?_modify, found]
      rfl
    · split
      · rw [role, was]
      · exact was
  cases used with
  | act made =>
    obtain ⟨a, preferStop, made⟩ := made
    cases a with
    | opening n =>
      refine idle (consumerAtIff.mpr ⟨c, ?_, role⟩)
      obtain ⟨-, same | ⟨o, l, s, t, more⟩⟩ := openingStepClients made
      · rw [same]; exact found
      · exact Consumer.keptAppend more found
    | client n a =>
      obtain ⟨b, e, d, was, stepped, rfl⟩ := clientStepSource made
      by_cases here : n = i
      · subst here
        cases was.symm.trans found
        obtain ⟨m, after, spares⟩ := Client.sparesStep stepped role
        exact ⟨m, consumerAtIff.mpr ⟨d, List.getElem?_set_self (List.getElem?_eq_some_iff.mp was).1,
          after⟩, a, spares, .inl ⟨preferStop, made⟩⟩
      · exact idle (consumerAtIff.mpr ⟨c, (List.getElem?_set_ne here).trans found, role⟩)
  | time | broker | make => exact idle there
  | call | letGo => exact idle (modified fun _ => rfl)

/-- What a consumer without a worker satisfies, and what a worker keeps by its steps and a loop by
handing deliveries over, is so of every consumer: no other task touches a worker. -/
theorem reachableWorkers {P : Env β → Consumer → Prop}
    (born : ∀ e k, k.workers = [] → P e k)
    (worker : ∀ i e k f m, P e k → k.workerStep i e = some (f, m) → P f m)
    (loop : ∀ i s e k l f m, P e k → Consumer.LoopMove i s e k l f m → P f m)
    (others : ∀ e k f m, P e k → m.workers = k.workers → m.retry = k.retry → P f m)
    (reached : Reachable outside w) {c : Client} (found : w.clients[i]? = some c)
    (role : c.role = .consumer k) : P w.env k := by
  refine reachableClient (P := fun e c => ∀ k, c.role = .consumer k → P e k) ?_ ?_ reached
    found k role
  · intro e o l s t k role
    -- a client is made without a worker
    obtain ⟨name, plan, phase⟩ := o
    cases plan <;> cases role
    exact born e _ rfl
  · intro e c f d change holds m role
    cases change with
    | same | call | letGo => exact others _ _ _ _ (holds m role) rfl rfl
    | step stepped =>
      cases Client.clientMove stepped with
      | recovery | watcher | publish | close => exact others _ _ _ _ (holds m role) rfl rfl
      | worker was made =>
        cases role
        exact others _ _ _ _ (worker _ _ _ _ _ (holds _ was) made) rfl rfl
      | loop was made =>
        cases role
        obtain ⟨l, -, move⟩ := Consumer.loopMove made
        exact others _ _ _ _ (loop _ _ _ _ _ _ _ (holds _ was) move) rfl rfl
      | retry was made =>
        cases role
        obtain ⟨r, q, -, -, rfl⟩ := Consumer.retryStepSource made
        exact others _ _ _ _ (holds _ was) rfl rfl
      | start was _ made =>
        cases role
        obtain ⟨policy, -, -, -, workers⟩ := Consumer.startFrame made
        exact others _ _ _ _ (holds _ was) workers policy
      | closeConsumer was _ made =>
        cases role
        have move := Consumer.closeMove made
        exact others _ _ _ _ (holds _ was) (by cases move <;> rfl) (by cases move <;> rfl)

variable {x : Consumer.Worker} {r : Consumer.RetryTask}

theorem workerKept (used : Use outside w v) (there : w.workerAt i j = some x)
    (apart : ∀ preferStop, w.step (.client i (.worker j)) preferStop ≠ some v) :
    v.workerAt i j = some x := by
  obtain ⟨k, here, found⟩ := Option.bind_eq_some_iff.mp there
  obtain ⟨m, after, a, spares, source⟩ := sparesUse used here
  refine Option.bind_eq_some_iff.mpr ⟨m, after, ?_⟩
  rcases source with ⟨preferStop, made⟩ | rfl
  · exact spares.workers j x (fun same => apart preferStop (same ▸ made)) found
  · exact found

theorem retryKept (used : Use outside w v) (there : w.retryAt i j = some r)
    (apart : ∀ preferStop, w.step (.client i (.retry j)) preferStop ≠ some v) :
    v.retryAt i j = some r := by
  obtain ⟨k, here, found⟩ := Option.bind_eq_some_iff.mp there
  obtain ⟨m, after, a, spares, source⟩ := sparesUse used here
  refine Option.bind_eq_some_iff.mpr ⟨m, after, ?_⟩
  rcases source with ⟨preferStop, made⟩ | rfl
  · exact spares.retries j r (fun same => apart preferStop (same ▸ made)) found
  · exact found

theorem workerOwn {preferStop : Bool} (there : w.workerAt i j = some x)
    (made : w.step (.client i (.worker j)) preferStop = some v) :
    ∃ k m, w.consumerAt i = some k ∧ v.consumerAt i = some m ∧ k.workers[j]? = some x ∧
      Consumer.WorkerMove j w.env k x v.env m := by
  obtain ⟨k, here, found⟩ := Option.bind_eq_some_iff.mp there
  obtain ⟨c, was, role⟩ := consumerAtIff.mp here
  obtain ⟨b, e, d, same, stepped, rfl⟩ := clientStepSource made
  cases was.symm.trans same
  obtain ⟨_, m, role', made', rfl⟩ :=
    Client.consumerStepSource (g := fun _ e k => k.workerStep j e) stepped
  cases role.symm.trans role'
  obtain ⟨x', found', move⟩ := Consumer.workerMove made'
  cases found.symm.trans found'
  exact ⟨k, m, here, consumerAtIff.mpr ⟨_, List.getElem?_set_self
    (List.getElem?_eq_some_iff.mp was).1, rfl⟩, found, move⟩

theorem retryOwn {preferStop : Bool} (there : w.retryAt i j = some r)
    (made : w.step (.client i (.retry j)) preferStop = some v) :
    ∃ c k q, w.clients[i]? = some c ∧ c.role = .consumer k ∧ v.retryAt i j = some q ∧
      Consumer.RetryMove k.stopped c.supervisor w.env r v.env q := by
  obtain ⟨k, here, found⟩ := Option.bind_eq_some_iff.mp there
  obtain ⟨c, was, role⟩ := consumerAtIff.mp here
  obtain ⟨b, e, d, same, stepped, rfl⟩ := clientStepSource made
  cases was.symm.trans same
  obtain ⟨_, m, role', made', rfl⟩ := Client.consumerStepSource stepped
  cases role.symm.trans role'
  obtain ⟨r', q, found', move, rfl⟩ := Consumer.retryStepSource made'
  cases found.symm.trans found'
  refine ⟨c, k, q, was, role, Option.bind_eq_some_iff.mpr ⟨_, consumerAtIff.mpr
    ⟨_, List.getElem?_set_self (List.getElem?_eq_some_iff.mp was).1, rfl⟩, ?_⟩, move⟩
  exact List.getElem?_set_self (List.getElem?_eq_some_iff.mp found).1

end World

end AmqpClient
