import AmqpClient.Proofs.Consumer.Failing
import AmqpClient.Proofs.Consumer.Timetable
import AmqpClient.Proofs.FailedMessages
/-! The task that holds a copy keeps to its timetable, in every prompt run, on any broker and with
any faults from outside. -/
namespace AmqpClient.World

open Broker (Memory)
open Consumer (PublishSound RetryTask Timetable Deeds)

variable {β : Type} [Broker β]

structure Turn (outside : β → β → Prop) (i r : Nat) (w u v v' : World β) : Prop where
  before : Run (Use outside) w v
  made : ∃ preferStop, v.step (.client i (.retry r)) preferStop = some v'
  after : Run (Use outside) v' u

def retryDeeds (outside : β → β → Prop) (i r : Nat) (t : Topology) (m : Envelope)
    (w u : World β) : Deeds where
  asked now answer := ∃ v v' c, Turn outside i r w u v v' ∧ v.env.now = now ∧
    v.clients[i]? = some c ∧ c.supervisor.channel? v.env.broker = answer
  sent now ch reply := ∃ v v', Turn outside i r w u v v' ∧ v.env.now = now ∧
    v.env.publish ch t.exchangeName t.routingKey m = (v'.env, reply)

omit [Broker β] in
def stoppedAt (i : Nat) (w : World β) : Bool := (w.consumerAt i).any Consumer.stopped

omit [Broker β] in
def noticed (i : Nat) (raised : Option Instant) (w : World β) : Option Instant :=
  raised.or (if w.stoppedAt i then some w.env.now else none)

inductive Watched (outside : β → β → Prop) (i : Nat) (w : World β) :
    Option Instant → World β → Prop where
  | start : Watched outside i w (w.noticed i none) w
  | next {raised v u} (before : Watched outside i w raised v) (used : Use outside v u)
      (prompt : Prompt v u) : Watched outside i w (u.noticed i raised) u

structure Scheduled (outside : β → β → Prop) (i r : Nat) (p : Timetable) (t : Topology)
    (m : Envelope) (w : World β) (raised : Option Instant) (u : World β) : Prop where
  task : ∃ q, u.retryAt i r = some q ∧ q.envelope = m ∧
    p.Kept raised (retryDeeds outside i r t m w u) u.env.now q
  settings : ∃ d, u.clients[i]? = some d ∧ d.supervisor.topology = t ∧
    d.supervisor.reconnectDelay = p.pause
  flag : u.stoppedAt i = raised.isSome
  past : ∀ t, raised = some t → t ≤ u.env.now

variable {outside : β → β → Prop} {i r : Nat} {p : Timetable} {t : Topology} {m : Envelope}
  {w v u : World β} {raised : Option Instant}

theorem stoppedUse (used : Use outside w v) (stopped : w.stoppedAt i = true) :
    v.stoppedAt i = true := by
  obtain ⟨k, here, stopped⟩ := (Option.any_eq_true _ _).mp stopped
  obtain ⟨m, there, _, spares, -⟩ := sparesUse used here
  exact (Option.any_eq_true _ _).mpr ⟨m, there, spares.stopped stopped⟩

theorem watchedRun (watched : Watched outside i w raised u) : Run (Use outside) w u := by
  induction watched with
  | start => exact .refl w
  | next _ used _ ih => exact ih.next used

theorem deedsWithin (used : Use outside v u) :
    (retryDeeds outside i r t m w v).Within (retryDeeds outside i r t m w u) where
  asked := fun _ _ ⟨x, y, c, turn, rest⟩ =>
    ⟨x, y, c, ⟨turn.before, turn.made, turn.after.next used⟩, rest⟩
  sent := fun _ _ _ ⟨x, y, turn, rest⟩ =>
    ⟨x, y, ⟨turn.before, turn.made, turn.after.next used⟩, rest⟩

omit [Broker β] in
theorem retryTimer {q : RetryTask} {ends : Instant} (there : w.retryAt i r = some q)
    (timed : q.timer? = some ends) : ends ∈ w.timers := by
  obtain ⟨k, here, found⟩ := Option.bind_eq_some_iff.mp there
  obtain ⟨c, was, role⟩ := consumerAtIff.mp here
  refine List.mem_append_right _ (List.mem_flatMap.mpr ⟨c, List.mem_of_getElem? was, ?_⟩)
  refine List.mem_append_left _ (List.mem_append_right _ ?_)
  rw [Client.consumerOf role]
  exact List.mem_append_right _ (List.mem_filterMap.mpr ⟨q, List.mem_of_getElem? found, timed⟩)

theorem retryStuck {q : RetryTask} (quiet : w.Quiet) (there : w.retryAt i r = some q)
    (flag : w.stoppedAt i = raised.isSome) : ∃ s, q.step raised.isSome s w.env = none := by
  obtain ⟨k, here, found⟩ := Option.bind_eq_some_iff.mp there
  obtain ⟨c, was, role⟩ := consumerAtIff.mp here
  have stuck := stillOf quiet was (.retry r)
  change c.consumerStep _ _ = _ at stuck
  unfold Client.consumerStep at stuck
  rw [role] at stuck
  have stuck := Option.map_eq_none_iff.mp stuck
  unfold Consumer.retryStep at stuck
  rw [found] at stuck
  unfold stoppedAt at flag
  rw [here] at flag
  exact ⟨c.supervisor, flag ▸ Option.map_eq_none_iff.mp stuck⟩

theorem taskUse (publish : PublishSound β) (way : Run (Use outside) w v) (used : Use outside v u)
    (prompt : Prompt v u) (on : Scheduled outside i r p t m w raised v) :
    ∃ q, u.retryAt i r = some q ∧ q.envelope = m ∧
      p.Kept raised (retryDeeds outside i r t m w u) u.env.now q := by
  obtain ⟨q, there, same, kept⟩ := on.task
  have within : (retryDeeds outside i r t m w v).Within _ := deedsWithin used
  by_cases own : ∃ preferStop, v.step (.client i (.retry r)) preferStop = some u
  · obtain ⟨preferStop, made⟩ := own
    obtain ⟨c, k, q', client, role, next, move⟩ := retryOwn there made
    obtain ⟨c', client', topology, pause⟩ := on.settings
    cases client.symm.trans client'
    have flag : k.stopped = raised.isSome := by
      rw [← on.flag]
      unfold stoppedAt
      rw [consumerAtIff.mpr ⟨c, client, role⟩]
      rfl
    have turn : Turn outside i r w u v u := ⟨way, ⟨preferStop, made⟩, .refl u⟩
    refine ⟨q', next, (Consumer.envelopeKept move).trans same, ?_⟩
    rw [flag] at move
    rw [nowOfStep made]
    refine Timetable.keptMove move kept pause on.past within (fun a _ => ?_)
      (fun a ch sends => ?_) ?_
    · exact ⟨v, u, c, turn, rfl, client, rfl⟩
    · refine ⟨v, u, turn, rfl, ?_⟩
      obtain ⟨c', client', published⟩ := retrySends there sends made
      cases client.symm.trans client'
      rw [published, topology, same]
    · rintro _ ch n o ⟨x, y, -, -, published⟩
      exact publish _ _ _ _ _ n o (congrArg Prod.snd published)
  · refine ⟨q, retryKept used there fun preferStop made => own ⟨preferStop, made⟩, same, ?_⟩
    rcases Nat.eq_or_lt_of_le (laterUse used) with now | later
    · exact now ▸ Timetable.keptMore within kept
    · obtain ⟨quiet, timers⟩ := prompt later
      obtain ⟨s, stuck⟩ := retryStuck quiet there on.flag
      exact Timetable.keptTime (Timetable.keptMore within kept) stuck (Nat.le_of_lt later)
        fun ends timed early => timers ends (retryTimer there timed) early

theorem scheduledUse (publish : PublishSound β) (way : Run (Use outside) w v)
    (used : Use outside v u) (prompt : Prompt v u) (on : Scheduled outside i r p t m w raised v) :
    Scheduled outside i r p t m w (u.noticed i raised) u := by
  obtain ⟨q, there, same, kept⟩ := taskUse publish way used prompt on
  obtain ⟨c, client, topology, pause⟩ := on.settings
  obtain ⟨d, client', topology', pause'⟩ := settingsUse used client
  have settings : ∃ d, u.clients[i]? = some d ∧ d.supervisor.topology = t ∧
      d.supervisor.reconnectDelay = p.pause :=
    ⟨d, client', topology'.trans topology, pause'.trans pause⟩
  cases raised with
  | some s =>
    have flag : u.stoppedAt i = true := stoppedUse used on.flag
    exact ⟨⟨q, there, same, kept⟩, settings, flag,
      fun t found => Nat.le_trans (on.past t found) (laterUse used)⟩
  | none =>
    unfold noticed
    rw [Option.none_or]
    split
    · rename_i stopped
      refine ⟨⟨q, there, same, Timetable.keptRaised kept⟩, settings, stopped, fun t found => ?_⟩
      cases found
      exact Nat.le_refl _
    · rename_i running
      exact ⟨⟨q, there, same, kept⟩, settings, Bool.eq_false_iff.mpr running, nofun⟩

def timetable (failed : Instant) (x : Consumer.Worker) (k : Consumer) (c : Client) : Timetable where
  failed
  delay := Retry.delay (Retry.count x.delivery.headers) k.retry
  pause := c.supervisor.reconnectDelay

theorem scheduledStart {j : Nat} {failure : String} (fails : Fails outside i j r failure v w) :
    ∃ x k c q, v.workerAt i j = some x ∧ v.consumerAt i = some k ∧ v.clients[i]? = some c ∧
      w.retryAt i r = some q ∧ Scheduled outside i r (timetable v.env.now x k c)
        c.supervisor.topology q.envelope w (w.noticed i none) w := by
  obtain ⟨way, now, x, k, id, there, here, copied⟩ := failsCopy fails
  obtain ⟨c, client, -⟩ := consumerAtIff.mp here
  refine ⟨x, k, c, _, there, here, client, copied, ⟨_, copied, rfl, ?_⟩, settingsLater way client,
    ?_, ?_⟩
  · refine ⟨.none, Nat.le_of_eq now.symm, fun _ => ⟨nofun, ?_⟩, nofun⟩
    exact .waiting rfl (now ▸ Timetable.sinceBegins (timetable v.env.now x k c) _ [])
  · unfold noticed
    rw [Option.none_or]
    cases w.stoppedAt i <;> rfl
  · intro t found
    unfold noticed at found
    rw [Option.none_or] at found
    split at found <;> cases found
    exact Nat.le_refl _

theorem scheduledWatched (publish : PublishSound β)
    (start : Scheduled outside i r p t m w (w.noticed i none) w)
    (watched : Watched outside i w raised u) : Scheduled outside i r p t m w raised u := by
  induction watched with
  | start => exact start
  | next before used prompt ih => exact scheduledUse publish (watchedRun before) used prompt ih

omit [Broker β] in
theorem noticedTwice (i : Nat) (raised : Option Instant) (w : World β) :
    w.noticed i (w.noticed i raised) = w.noticed i raised := by
  unfold noticed
  cases raised with
  | some t => rfl
  | none => split <;> rfl

theorem watchedNoticed (watched : Watched outside i w raised u) : u.noticed i raised = raised := by
  cases watched with
  | start => exact noticedTwice i none w
  | next => exact noticedTwice ..

theorem watchedRunning (run : Run (fun w v => Use outside w v ∧ Prompt w v) w u)
    (running : u.stoppedAt i = false) : Watched outside i w none u := by
  have unseen {v : World β} (running : v.stoppedAt i = false) : v.noticed i none = none := by
    unfold noticed
    rw [running]
    rfl
  induction run with
  | refl => exact unseen running ▸ .start
  | @next v u _ last ih =>
    have before : v.stoppedAt i = false := by
      refine Bool.eq_false_iff.mpr fun stopped => ?_
      cases running.symm.trans (stoppedUse last.1 stopped)
    exact unseen running ▸ (ih before).next last.1 last.2

theorem watchedActs (watched : Watched outside i w none v) (run : Run Acts v u) :
    Watched outside i w (u.noticed i none) u := by
  induction run with
  | refl => exact (watchedNoticed watched).symm ▸ watched
  | @next x u before last ih =>
    have seen : u.noticed i (x.noticed i none) = u.noticed i none := by
      unfold noticed
      rw [Option.none_or, Option.none_or]
      split
      · rename_i stopped
        obtain ⟨a, preferStop, made⟩ := last
        rw [stoppedUse (.act ⟨a, preferStop, made⟩ : Use outside x u) stopped, nowOfStep made]
        rfl
      · exact Option.none_or ..
    exact seen ▸ ih.next (.act last) (promptAct last)

structure RetriedOnTime (outside : β → β → Prop) (i j r : Nat) (v w : World β)
    (raised : Option Instant) (u : World β) (x : Consumer.Worker) (k : Consumer) (c : Client)
    (q q' : RetryTask) : Prop where
  worker : v.workerAt i j = some x
  consumer : v.consumerAt i = some k
  client : v.clients[i]? = some c
  given : w.retryAt i r = some q
  now : u.retryAt i r = some q'
  envelope : q'.envelope = q.envelope
  kept : (timetable v.env.now x k c).Kept raised
    (retryDeeds outside i r c.supervisor.topology q.envelope w u) u.env.now q'
  stopped : ∀ t, raised = some t → Timetable.Stopped t (timetable v.env.now x k c) u.env.now q'

/-- Every attempt with the copy of a failed message is made when it is due or when the consumer is
stopped, through the channel of that instant and with the same envelope; and there is an end to them
once the consumer is stopped. -/
theorem retriesScheduled {j : Nat} {failure : String} (publish : PublishSound β)
    (fails : Fails outside i j r failure v w) (watched : Watched outside i w raised u) :
    ∃ x k c q q', RetriedOnTime outside i j r v w raised u x k c q q' := by
  obtain ⟨x, k, c, q, worker, consumer, client, given, start⟩ := scheduledStart fails
  obtain ⟨q', now, envelope, kept⟩ := (scheduledWatched publish start watched).task
  refine ⟨x, k, c, q, q', worker, consumer, client, given, now, envelope, kept, fun t found => ?_⟩
  subst found
  exact Timetable.keptStopped kept

def rejectedAlone : World Memory :=
  let w := (rejectedOnce {}).settle
  { w with env := w.env.withBroker (w.env.broker.killConnection "gone") }.settle

def copyUnsent : World Memory := (rejectedAlone.advance 2005).settle

def copyStopping : World Memory := (copyUnsent.advance 3000).call 0 (.closeConsumer .locking)

theorem copyStoppingRun : Run (fun w v => Use (fun _ _ => True) w v ∧ Prompt w v) (rejectedOnce {})
    copyStopping := by
  let broken := (rejectedOnce {}).settle.env.broker.killConnection "gone"
  have lost : Run (fun w v => Use (fun _ _ => True) w v ∧ Prompt w v) (rejectedOnce {})
      rejectedAlone :=
    ((actsPrompt (settleActs _)).next ⟨.broker _ (b := broken) trivial, promptSame rfl⟩).trans
      (actsPrompt (settleActs _))
  have unsent : Run (fun w v => Use (fun _ _ => True) w v ∧ Prompt w v) rejectedAlone copyUnsent :=
    (Run.single (waitsQuiet (by decide +kernel) (quietSeen (by decide +kernel))
      (by decide +kernel))).trans (actsPrompt (settleActs _))
  have asked : Use (fun _ _ => True) (copyUnsent.advance 3000) copyStopping :=
    useCall (by decide +kernel) fun _ => trivial
  exact (((lost.trans unsent).next (waitsQuiet (by decide +kernel) (quietSeen (by decide +kernel))
    (by decide +kernel))).next ⟨asked, promptSame rfl⟩)

theorem copyGivenUp : ∃ x k c q q', RetriedOnTime (fun _ _ => True) 0 0 0 ((rejecting {}).advance 5)
      (rejectedOnce {}) (some 3000) copyStopping.settle x k c q q' ∧
    q'.tries.map (fun x => x.attempt.began) = [3000, 2005] := by
  have stopped : copyStopping.settle.noticed 0 none = some 3000 := by decide +kernel
  have began : (copyStopping.settle.retryAt 0 0).any (fun q =>
    q.tries.map (fun x => x.attempt.began) == [3000, 2005]) = true := by decide +kernel
  have unstopped : copyStopping.stoppedAt 0 = false := by decide +kernel
  have watched := watchedActs (watchedRunning copyStoppingRun unstopped) (settleActs _)
  rw [stopped] at watched
  obtain ⟨x, k, c, q, q', all⟩ := retriesScheduled Broker.Memory.publishSound rejectedFails watched
  rw [all.now] at began
  exact ⟨x, k, c, q, q', all, eq_of_beq began⟩

def patient : RetryPolicy := { baseSeconds := 946080001, capSeconds := 946080001 }

def patientWaited : World Memory :=
  ((rejectedOnce patient).settle.advance (5 + Instant.longestSleep)).settle

theorem patientFails : Fails (fun _ _ => True) 0 0 0 "rejected" ((rejecting patient).advance 5)
    (rejectedOnce patient) :=
  .scheduled rfl rfl (nextStep (by decide +kernel)) (.refl _) rfl rfl rfl
    (nextStep (by decide +kernel))

theorem longDelayCutShort : Reachable (fun _ _ => True) ((rejecting patient).advance 5) ∧
    Fails (fun _ _ => True) 0 0 0 "rejected" ((rejecting patient).advance 5)
      (rejectedOnce patient) ∧
    Watched (fun _ _ => True) 0 (rejectedOnce patient) none patientWaited ∧
    ∃ x k q first, ((rejecting patient).advance 5).workerAt 0 0 = some x ∧
      ((rejecting patient).advance 5).consumerAt 0 = some k ∧
      patientWaited.retryAt 0 0 = some q ∧ q.tries = [first] ∧
      first.attempt.began < ((rejecting patient).advance 5).env.now +
        (Retry.delay (Retry.count x.delivery.headers) k.retry).milliseconds := by
  have reached : Reachable (fun _ _ => True) ((rejecting patient).advance 5) :=
    reachableTime (rejectingReached (by decide +kernel)) (by decide +kernel)
  have run : Run (fun w v => Use (fun _ _ => True) w v ∧ Prompt w v) (rejectedOnce patient)
      patientWaited :=
    ((actsPrompt (settleActs _)).next (waitsQuiet (by decide +kernel)
      (quietSeen (by decide +kernel)) (by decide +kernel))).trans (actsPrompt (settleActs _))
  refine ⟨reached, patientFails, watchedRunning run (by decide +kernel), _, _, _, _, rfl, rfl, rfl,
    rfl, ?_⟩
  decide +kernel

end AmqpClient.World
