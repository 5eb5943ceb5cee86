import AmqpClient.Consumer.Calls
import AmqpClient.Consumer.Loop
import AmqpClient.Consumer.RetryTask
import AmqpClient.Consumer.Worker
/-! All that the tasks of a consumer can do in one step, said once: a relation with a case for each
way on beside every step function, and that the function makes no other step. -/
namespace AmqpClient.Consumer

variable {β : Type} [Broker β]

inductive WorkerMove (i : Nat) (e : Env β) (k : Consumer) (x : Worker) :
    Env β → Consumer → Prop where
  | refuse (here : x.phase = .starting)
      (spent : k.retry.maxRetries ≤ Retry.count x.delivery.headers) :
      WorkerMove i e k x e (k.setWorker i
        ((x.note (.failed "retry budget exhausted")).goto (.settling (.reject false) .deadLettered)))
  | handle (here : x.phase = .starting)
      (left : ¬ k.retry.maxRetries ≤ Retry.count x.delivery.headers) :
      WorkerMove i e k x (e.record (.handling x.delivery))
        { k.setWorker i (x.goto (.handling
            (Instant.afterSleep e.now (k.handler k.handled x.delivery).takes)
            (k.handler k.handled x.delivery).result)) with
          handled := x.delivery :: k.handled }
  | succeed {ends} (here : x.phase = .handling ends (.ok ())) (due : ends ≤ e.now) :
      WorkerMove i e k x (e.record (.handled x.delivery.tag true))
        (k.setWorker i (x.goto (.settling .ack .acked)))
  | fail {ends failure} (here : x.phase = .handling ends (.error failure)) (due : ends ≤ e.now) :
      WorkerMove i e k x (e.record (.handled x.delivery.tag false))
        (k.setWorker i (((x.note (.exception failure)).note (.failed failure)).goto
          (.scheduling failure)))
  | schedule {failure} (here : x.phase = .scheduling failure) :
      WorkerMove i e k x e.freshId.1
        ((k.schedule e.now i
            (Envelope.json e.freshId.2 x.delivery.body
              (some (copyHeaders x.delivery failure e.unix)))
            (Retry.delay (Retry.count x.delivery.headers) k.retry)).setWorker i
          (x.goto (.settling .ack (.retried (Retry.next (Retry.count x.delivery.headers))
            (Retry.delay (Retry.count x.delivery.headers) k.retry)))))
  | settle {s disposition} (here : x.phase = .settling s disposition) :
      WorkerMove i e k x (e.settle x.channel x.delivery.tag s).1
        (k.setWorker i (((settlementNotes disposition
          (e.settle x.channel x.delivery.tag s).2).foldl (fun y n => y.note n) x).goto
            (.finishing disposition)))
  | finish {disposition} (here : x.phase = .finishing disposition) :
      WorkerMove i e k x (e.record (.spanEnded x.span))
        { k.setWorker i (x.goto (.done disposition)) with permits := k.permits + 1 }

theorem workerUnfinished {i : Nat} {e f : Env β} {k l : Consumer} {x : Worker}
    (move : WorkerMove i e k x f l) : x.phase.finished = false := by
  cases move <;> simp only [*, WorkerPhase.finished]

theorem workerMove {i : Nat} {e f : Env β} {k l : Consumer}
    (h : k.workerStep i e = some (f, l)) :
    ∃ x, k.workers[i]? = some x ∧ WorkerMove i e k x f l := by
  unfold workerStep at h
  split at h
  · contradiction
  rename_i x found
  refine ⟨x, found, ?_⟩
  dsimp only at h
  split at h
  case h_1 here =>
    split at h <;> cases Option.some.inj h
    · exact .refuse here (by assumption)
    · exact .handle here (by assumption)
  case h_2 ends result here =>
    split at h
    · contradiction
    · rename_i due
      cases result with
      | ok u => cases Option.some.inj h; exact .succeed here (Nat.le_of_not_lt due)
      | error failure => cases Option.some.inj h; exact .fail here (Nat.le_of_not_lt due)
  case h_3 failure here => cases Option.some.inj h; exact .schedule here
  case h_4 s disposition here => cases Option.some.inj h; exact .settle here
  case h_5 disposition here => cases Option.some.inj h; exact .finish here
  case h_6 => contradiction

inductive RetryMove (stopped : Bool) (s : Supervisor) (e : Env β) (r : RetryTask) :
    Env β → RetryTask → Prop where
  | wake {ends} (here : r.phase = .waiting ends ∨ r.phase = .pausing ends)
      (due : ends ≤ e.now ∨ stopped = true) :
      RetryMove stopped s e r e { r with phase := .sampling }
  | sample (here : r.phase = .sampling) :
      RetryMove stopped s e r e
        { r with phase := .opening { began := e.now, stopping := stopped } }
  | unopened {a x} (here : r.phase = .opening a) (none : s.channel? e.broker = .error x) :
      RetryMove stopped s e r e (r.conclude e.now s.reconnectDelay a (.error x))
  | opened {a c} (here : r.phase = .opening a) (current : s.channel? e.broker = .ok c) :
      RetryMove stopped s e r e { r with phase := .sending { a with channel := some c } c }
  | send {a c} (here : r.phase = .sending a c) :
      RetryMove stopped s e r
        (e.publish c s.topology.exchangeName s.topology.routingKey r.envelope).1
        { r with phase := .confirming a (.ofReply e.now (Instant.wake e.now defaultPublishTimeout)
            (e.publish c s.topology.exchangeName s.topology.routingKey r.envelope).2) }
  | conclude {a c o} (here : r.phase = .confirming a c) (answer : c.result? e.now = some o) :
      RetryMove stopped s e r e (r.conclude e.now s.reconnectDelay a o)

theorem retryUnfinished {stopped : Bool} {s : Supervisor} {e f : Env β} {r q : RetryTask}
    (move : RetryMove stopped s e r f q) : r.phase.finished = false := by
  cases move with
  | wake here => rcases here with here | here <;> rw [here] <;> rfl
  | sample here | unopened here | opened here | send here | conclude here => rw [here]; rfl

theorem wakeMove {stopped : Bool} {ends : Instant} {s : Supervisor} {e f : Env β}
    {r q : RetryTask} (here : r.phase = .waiting ends ∨ r.phase = .pausing ends)
    (h : r.wake stopped ends e = some (f, q)) : RetryMove stopped s e r f q := by
  unfold RetryTask.wake at h
  split at h <;> try contradiction
  rename_i due
  cases Option.some.inj h
  exact .wake here (by simpa using due)

theorem retryMove {stopped : Bool} {s : Supervisor} {e f : Env β} {r q : RetryTask}
    (h : r.step stopped s e = some (f, q)) : RetryMove stopped s e r f q := by
  unfold RetryTask.step at h
  split at h
  case h_1 ends here => exact wakeMove (.inl here) h
  case h_2 here => cases Option.some.inj h; exact .sample here
  case h_3 a here =>
    split at h <;> cases Option.some.inj h
    · exact .opened here (by assumption)
    · exact .unopened here (by assumption)
  case h_4 a c here => cases Option.some.inj h; exact .send here
  case h_5 a c here =>
    obtain ⟨o, answer, same⟩ := Option.map_eq_some_iff.mp h
    cases same
    exact .conclude here answer
  case h_6 ends here => exact wakeMove (.inr here) h
  case h_7 => contradiction

theorem retryStepSource {i : Nat} {s : Supervisor} {e f : Env β} {k l : Consumer}
    (h : k.retryStep i s e = some (f, l)) :
    ∃ r q, k.retries[i]? = some r ∧ RetryMove k.stopped s e r f q ∧
      l = { k with retries := k.retries.set i q } := by
  unfold retryStep at h
  split at h
  · contradiction
  · rename_i r found
    obtain ⟨⟨f', q⟩, made, same⟩ := Option.map_eq_some_iff.mp h
    cases same
    exact ⟨r, q, found, retryMove made, rfl⟩

inductive CloseMove (call : Nat) (e : Env β) (s : Supervisor) (k : Consumer) :
    ConsumerClosing → Env β → Supervisor → Consumer → ConsumerClosing → Prop where
  | lock (free : k.lock.isNone = true) :
      CloseMove call e s k .locking e s { k with lock := some (.call call) } .clearing
  | clear : CloseMove call e s k .clearing e s { k with consuming := false } .unlocking
  | unlock : CloseMove call e s k .unlocking e s { k with lock := none } .raising
  | raise (first : k.stopped = false) :
      CloseMove call e s k .raising e s { k with stopped := true } (.grace (e.now + closeGrace))
  | raised (again : k.stopped = true) : CloseMove call e s k .raising e s k .collecting
  | grace {ends} (due : ends ≤ e.now) : CloseMove call e s k (.grace ends) e s k .collecting
  | collect :
      CloseMove call e s k .collecting e s { k with unreaped := [] } (.joining k.unreaped)
  | joined {tasks} (finished : tasks.all k.retryFinished = true) :
      CloseMove call e s k (.joining tasks) e s k (.closing .raising)
  | closing {x y f t} (made : s.closeStep e x = some (f, t, y)) :
      CloseMove call e s k (.closing x) f t k (.closing y)

theorem closeMove {call : Nat} {e f : Env β} {s t : Supervisor} {k l : Consumer}
    {x y : ConsumerClosing} (h : k.closeStep call e s x = some (f, t, l, y)) :
    CloseMove call e s k x f t l y := by
  cases x with
  | locking =>
    simp only [closeStep] at h
    split at h <;> cases h
    exact .lock (by assumption)
  | clearing => cases h; exact .clear
  | unlocking => cases h; exact .unlock
  | raising =>
    simp only [closeStep] at h
    split at h <;> cases h
    · rename_i up answer
      obtain ⟨rfl, down⟩ := Shutdown.raiseAnswer answer
      exact .raise (by simpa using down.symm)
    · rename_i up answer
      exact .raised (by simpa using (Shutdown.raiseAnswer answer).2.symm)
  | grace ends =>
    simp only [closeStep] at h
    split at h <;> cases h
    exact .grace (by assumption)
  | collecting => cases h; exact .collect
  | joining tasks =>
    simp only [closeStep] at h
    split at h <;> cases h
    exact .joined (by assumption)
  | closing x =>
    obtain ⟨⟨f', t', y'⟩, made, same⟩ := Option.map_eq_some_iff.mp h
    cases same
    exact .closing made

inductive LoopMove (i : Nat) (s : Supervisor) (e : Env β) (k : Consumer) (l : Loop) :
    Env β → Consumer → Prop where
  | halt (here : l.phase = .checking) (stopped : k.stopped = true) :
      LoopMove i s e k l e (k.setLoop i (l.goto .locking))
  | check (here : l.phase = .checking) (running : k.stopped = false) :
      LoopMove i s e k l e (k.setLoop i (l.goto .marking))
  | mark (here : l.phase = .marking) :
      LoopMove i s e k l e (k.setLoop i { l with seen := s.announced, phase := .opening })
  | opened {c} (here : l.phase = .opening) (current : s.channel? e.broker = .ok c) :
      LoopMove i s e k l e
        (k.setLoop i { l with generation := s.session.generation, phase := .prefetching c })
  | closed (here : l.phase = .opening) (gone : s.channel? e.broker = .error .closed) :
      LoopMove i s e k l e (k.setLoop i (l.goto .locking))
  | unopened {x} (here : l.phase = .opening) (gone : s.channel? e.broker = .error x) :
      LoopMove i s e k l e (k.setLoop i (l.pause e.now k.options.unavailableBackoff none))
  | prefetched {c f} (here : l.phase = .prefetching c)
      (answer : e.prefetch c k.options.prefetchCount = (f, .ok ())) :
      LoopMove i s e k l f (k.setLoop i (l.goto (.subscribing c)))
  | unprefetched {c f x} (here : l.phase = .prefetching c)
      (answer : e.prefetch c k.options.prefetchCount = (f, .error x)) :
      LoopMove i s e k l f (k.setLoop i (l.pause f.now k.options.unavailableBackoff none))
  | subscribed {c f stream} (here : l.phase = .subscribing c)
      (answer : e.consume c s.topology.queueName k.options.consumerTag = (f, .ok stream)) :
      LoopMove i s e k l f (k.setLoop i (l.goto (.reading c stream)))
  | unsubscribed {c f x} (here : l.phase = .subscribing c)
      (answer : e.consume c s.topology.queueName k.options.consumerTag = (f, .error x)) :
      LoopMove i s e k l f (k.setLoop i (l.pause f.now k.options.unavailableBackoff none))
  | stop {c stream} (here : l.phase = .reading c stream) (stopped : k.stopped = true) :
      LoopMove i s e k l (e.dropStream stream) (k.setLoop i (l.goto .locking))
  | renew {c stream} (here : l.phase = .reading c stream) (running : k.stopped = false)
      (stale : l.seen ≠ s.announced) :
      LoopMove i s e k l (e.dropStream stream) (k.setLoop i (l.goto .checking))
  | take {c stream f d} (here : l.phase = .reading c stream) (running : k.stopped = false)
      (fresh : l.seen = s.announced) (answer : e.poll stream = (f, .item (.ok d))) :
      LoopMove i s e k l f (k.setLoop i (l.goto (.admitting c stream d)))
  | broken {c stream f x} (here : l.phase = .reading c stream) (running : k.stopped = false)
      (fresh : l.seen = s.announced) (answer : e.poll stream = (f, .item (.error x))) :
      LoopMove i s e k l f
        (k.setLoop i (l.pause f.now k.options.resubscribeDelay (some stream)))
  | ended {c stream f} (here : l.phase = .reading c stream) (running : k.stopped = false)
      (fresh : l.seen = s.announced) (answer : e.poll stream = (f, .ended)) :
      LoopMove i s e k l f
        (k.setLoop i (l.pause f.now k.options.resubscribeDelay (some stream)))
  | grant {c stream d} (here : l.phase = .admitting c stream d) (permitted : 0 < k.permits) :
      LoopMove i s e k l e { k.setLoop i (l.goto (.reading c stream)) with
        permits := k.permits - 1, workers := k.workers ++ [worker d c] }
  | leave {c stream d} (here : l.phase = .admitting c stream d) (stopped : k.stopped = true) :
      LoopMove i s e k l (e.dropStream stream) (k.setLoop i (l.goto .locking))
  | resume {ends stream} (here : l.phase = .pausing ends stream) (due : ends ≤ e.now) :
      LoopMove i s e k l (dropStream? e stream) (k.setLoop i (l.goto .checking))
  | wake {ends stream} (here : l.phase = .pausing ends stream) (stopped : k.stopped = true) :
      LoopMove i s e k l (dropStream? e stream) (k.setLoop i (l.goto .locking))
  | lock (here : l.phase = .locking) (free : k.lock.isNone = true) :
      LoopMove i s e k l e { k.setLoop i (l.goto .clearing) with lock := some (.loop i) }
  | clear (here : l.phase = .clearing) :
      LoopMove i s e k l e { k.setLoop i (l.goto .unlocking) with consuming := false }
  | unlock (here : l.phase = .unlocking) :
      LoopMove i s e k l e { k.setLoop i (l.goto .done) with lock := none }

theorem loopUnfinished {i : Nat} {s : Supervisor} {e f : Env β} {k m : Consumer} {l : Loop}
    (move : LoopMove i s e k l f m) : l.phase.finished = false := by
  cases move <;> rename_i here <;> simp only [*, LoopPhase.finished]

theorem loopMove {i : Nat} {preferStop : Bool} {s : Supervisor} {e f : Env β} {k m : Consumer}
    (h : k.loopStep i preferStop s e = some (f, m)) :
    ∃ l, k.loops[i]? = some l ∧ LoopMove i s e k l f m := by
  unfold loopStep at h
  split at h
  · contradiction
  rename_i l found
  refine ⟨l, found, ?_⟩
  dsimp only at h
  split at h
  case h_1 here =>
    cases h
    cases running : k.stopped with
    | true => exact .halt here running
    | false => exact .check here running
  case h_2 here => cases h; exact .mark here
  case h_3 here =>
    split at h <;> cases h
    · exact .opened here (by assumption)
    · exact .closed here (by assumption)
    · exact .unopened here (by assumption)
  case h_4 c here =>
    split at h <;> rename_i answer <;> cases h
    · exact .prefetched here answer
    · exact .unprefetched here answer
  case h_5 c here =>
    split at h <;> rename_i answer <;> cases h
    · exact .subscribed here answer
    · exact .unsubscribed here answer
  case h_6 c stream here =>
    split at h
    · cases h; exact .stop here (by assumption)
    rename_i running
    have running := Bool.eq_false_iff.mpr running
    split at h
    · cases h; exact .renew here running (by assumption)
    rename_i fresh
    have fresh := Decidable.not_not.mp fresh
    split at h <;> rename_i answer <;> cases h
    · exact .take here running fresh answer
    · exact .broken here running fresh answer
    · exact .ended here running fresh answer
  case h_7 c stream d here =>
    split at h
    · rename_i free
      cases h
      exact .grant here (of_decide_eq_true (Bool.and_eq_true_iff.mp free).1)
    · split at h <;> cases h
      exact .leave here (by assumption)
  case h_8 ends stream here =>
    split at h
    · rename_i due
      cases h
      exact .resume here (of_decide_eq_true (Bool.and_eq_true_iff.mp due).1)
    · split at h <;> cases h
      exact .wake here (by assumption)
  case h_9 here =>
    split at h <;> cases h
    exact .lock here (by assumption)
  case h_10 here => cases h; exact .clear here
  case h_11 here => cases h; exact .unlock here
  case h_12 => contradiction

theorem deliveryNoted (notes : List Trace.Note) (x : Worker) :
    (notes.foldl (fun y n => y.note n) x).delivery = x.delivery := by
  induction notes generalizing x with
  | nil => rfl
  | cons n rest ih => exact ih (x.note n)

theorem channelNoted (notes : List Trace.Note) (x : Worker) :
    (notes.foldl (fun y n => y.note n) x).channel = x.channel := by
  induction notes generalizing x with
  | nil => rfl
  | cons n rest ih => exact ih (x.note n)

structure LoopFrame (k l : Consumer) : Prop where
  retry : l.retry = k.retry
  options : l.options = k.options
  handler : l.handler = k.handler
  stopped : l.stopped = k.stopped
  retries : l.retries = k.retries
  unreaped : l.unreaped = k.unreaped
  handled : l.handled = k.handled
  workers : l.workers = k.workers ∨ ∃ d c, l.workers = k.workers ++ [worker d c]

theorem loopFrame {i : Nat} {s : Supervisor} {e f : Env β} {k m : Consumer} {l : Loop}
    (move : LoopMove i s e k l f m) : LoopFrame k m := by
  cases move with
  | grant => exact ⟨rfl, rfl, rfl, rfl, rfl, rfl, rfl, .inr ⟨_, _, rfl⟩⟩
  | _ => exact ⟨rfl, rfl, rfl, rfl, rfl, rfl, rfl, .inl rfl⟩

theorem startFrame {call : Nat} {s : Supervisor} {k l : Consumer} {x y : Starting}
    (h : k.startStep call s x = some (l, y)) :
    l.retry = k.retry ∧ l.stopped = k.stopped ∧ l.retries = k.retries ∧
      l.unreaped = k.unreaped ∧ l.workers = k.workers := by
  unfold startStep at h
  split at h
  all_goals
    first
      | contradiction
      | (repeat' split at h) <;> cases h <;> exact ⟨rfl, rfl, rfl, rfl, rfl⟩

theorem optionsOfStart {call : Nat} {s : Supervisor} {k l : Consumer} {x y : Starting}
    (h : k.startStep call s x = some (l, y)) : l.options = k.options := by
  unfold startStep at h
  split at h
  all_goals
    first
      | contradiction
      | (repeat' split at h) <;> cases h <;> rfl

theorem loopsOfLoop {i : Nat} {s : Supervisor} {e f : Env β} {k m : Consumer} {l : Loop}
    (move : LoopMove i s e k l f m) : ∃ l', m.loops = k.loops.set i l' := by
  cases move <;> exact ⟨_, rfl⟩

theorem loopsOfWorker {i : Nat} {e f : Env β} {k m : Consumer} {x : Worker}
    (move : WorkerMove i e k x f m) : m.loops = k.loops := by
  cases move <;> rfl

theorem loopsOfClose {call : Nat} {e f : Env β} {s t : Supervisor} {k m : Consumer}
    {x y : ConsumerClosing} (move : CloseMove call e s k x f t m y) : m.loops = k.loops := by
  cases move <;> rfl

theorem loopsOfStart {call : Nat} {s : Supervisor} {k m : Consumer} {x y : Starting}
    (made : k.startStep call s x = some (m, y)) : m.loops = k.loops ∨
      m.loops = k.loops ++ [{ seen := s.announced, generation := s.session.generation }] := by
  unfold startStep at made
  split at made
  case h_4 => cases made; exact .inr rfl
  all_goals
    left
    first
      | contradiction
      | (repeat' split at made) <;> cases made <;> rfl

end AmqpClient.Consumer
