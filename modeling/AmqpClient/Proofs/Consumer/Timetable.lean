import AmqpClient.Proofs.Consumer.Custody
import AmqpClient.Proofs.Replies
/-! When a task that holds a copy makes its attempts. It begins each when the wait before it ends, or
with the stop of its consumer if that comes first; it waits anew after each that fails, unless that
was made while the consumer was stopping or found the supervisor closed. -/
namespace AmqpClient

def Reply.concludes (began : Instant) : Reply → Instant × Outcome
  | .after n o =>
    if n ≤ defaultPublishTimeout.milliseconds then (began + n, o)
    else (began + defaultPublishTimeout.milliseconds, .error .publishTimeout)
  | .never => (began + defaultPublishTimeout.milliseconds, .error .publishTimeout)

namespace Reply

variable {began now : Instant} {o : Outcome} (x : Reply)

theorem deadline (began : Instant) : Instant.wake began defaultPublishTimeout =
    began + defaultPublishTimeout.milliseconds := by
  unfold Instant.wake Instant.afterSleep
  rw [Nat.min_eq_left (by decide)]

theorem concludesBetween : began ≤ (x.concludes began).1 ∧
    (x.concludes began).1 ≤ began + defaultPublishTimeout.milliseconds := by
  unfold concludes
  split
  · split
    · exact ⟨Nat.le_add_right .., Nat.add_le_add_left (by assumption) _⟩
    · exact ⟨Nat.le_add_right .., Nat.le_refl _⟩
  · exact ⟨Nat.le_add_right .., Nat.le_refl _⟩

theorem concludesDefault (began : Instant) :
    x.concludes began = x.concludesBy began (began + defaultPublishTimeout.milliseconds) := by
  unfold concludes concludesBy
  grind

theorem concludesResult (since : began ≤ now) (early : now ≤ (x.concludes began).1)
    (result : (Confirmation.ofReply began (Instant.wake began defaultPublishTimeout) x).result? now =
      some o) : x.concludes began = (now, o) := by
  rw [deadline] at result
  rw [concludesDefault] at early ⊢
  exact x.concludedResult since early result

theorem concludesLater (since : began ≤ now)
    (stuck : (Confirmation.ofReply began (Instant.wake began defaultPublishTimeout) x).result? now =
      none) : now < (x.concludes began).1 ∧
      (Confirmation.ofReply began (Instant.wake began defaultPublishTimeout) x).timer =
        (x.concludes began).1 := by
  rw [deadline] at stuck ⊢
  rw [concludesDefault]
  exact x.concludedLater since stuck

end Reply

namespace Consumer

structure Timetable where
  failed : Instant
  delay : Duration
  pause : Duration

structure Deeds where
  asked : Instant → Except Error ChannelId → Prop
  sent : Instant → ChannelId → Reply → Prop

structure Deeds.Within (d d' : Deeds) : Prop where
  asked : ∀ t x, d.asked t x → d'.asked t x
  sent : ∀ t c x, d.sent t c x → d'.sent t c x

def Deeds.Made (d : Deeds) (x : Tried) : Prop :=
  match x.attempt.channel with
  | none => ∃ y, d.asked x.attempt.began (.error y) ∧ x.ended = x.attempt.began ∧
      x.outcome = .error y
  | some c => d.asked x.attempt.began (.ok c) ∧ ∃ reply, d.sent x.attempt.began c reply ∧
      (x.ended, x.outcome) = reply.concludes x.attempt.began

def Tried.Last (x : Tried) : Prop :=
  x.outcome = .ok () ∨ x.attempt.stopping = true ∨
    x.attempt.channel = none ∧ x.outcome = .error .closed

theorem doneOf {phase : RetryPhase} (finished : phase.finished = true) : ∃ b, phase = .done b := by
  cases phase <;> first | exact ⟨_, rfl⟩ | cases finished

def Attempted.Sampled (raised : Option Instant) (a : Attempted) : Prop :=
  match raised with
  | none => a.stopping = false
  | some t => if a.stopping then t ≤ a.began else a.began ≤ t

namespace Timetable

def since (p : Timetable) : List Tried → Instant
  | [] => p.failed
  | x :: _ => x.ended

def due (p : Timetable) : List Tried → Instant
  | [] => Instant.wake p.failed p.delay
  | x :: _ => Instant.wake x.ended p.pause

def begins (p : Timetable) (raised : Option Instant) (tries : List Tried) : Instant :=
  match raised with
  | none => p.due tries
  | some t => min (p.due tries) (max t (p.since tries))

structure Begun (p : Timetable) (raised : Option Instant) (tries : List Tried) (a : Attempted) :
    Prop where
  began : a.began = p.begins raised tries
  sampled : a.Sampled raised

inductive Timely (p : Timetable) (raised : Option Instant) (d : Deeds) : List Tried → Prop where
  | none : Timely p raised d []
  | more {x earlier} (before : Timely p raised d earlier) (goesOn : ∀ y ∈ earlier, ¬ y.Last)
      (begun : p.Begun raised earlier x.attempt) (made : d.Made x) :
      Timely p raised d (x :: earlier)

inductive Stage (p : Timetable) (raised : Option Instant) (d : Deeds) (now : Instant)
    (tries : List Tried) : RetryPhase → Prop where
  | waiting (first : tries = []) (early : now ≤ p.begins raised tries) :
      Stage p raised d now tries (.waiting (p.due tries))
  | pausing (later : tries ≠ []) (early : now ≤ p.begins raised tries) :
      Stage p raised d now tries (.pausing (p.due tries))
  | sampling (time : now = p.begins raised tries) : Stage p raised d now tries .sampling
  | opening {a} (begun : p.Begun raised tries a) (time : a.began = now) (none : a.channel = none) :
      Stage p raised d now tries (.opening a)
  | sending {a c} (begun : p.Begun raised tries a) (time : a.began = now)
      (through : a.channel = some c) (asked : d.asked a.began (.ok c)) :
      Stage p raised d now tries (.sending a c)
  | confirming {a c reply} (begun : p.Begun raised tries a) (since : a.began ≤ now)
      (through : a.channel = some c) (asked : d.asked a.began (.ok c))
      (sent : d.sent a.began c reply) (early : now ≤ (reply.concludes a.began).1) :
      Stage p raised d now tries
        (.confirming a (.ofReply a.began (Instant.wake a.began defaultPublishTimeout) reply))

structure Kept (p : Timetable) (raised : Option Instant) (d : Deeds) (now : Instant)
    (r : RetryTask) : Prop where
  tries : p.Timely raised d r.tries
  past : p.since r.tries ≤ now
  goesOn : r.phase.finished = false →
    (∀ x ∈ r.tries, ¬ x.Last) ∧ p.Stage raised d now r.tries r.phase
  ended : ∀ b, r.phase = .done b → ∃ x earlier, r.tries = x :: earlier ∧ x.Last ∧ b = x.confirmed

variable {p : Timetable} {raised : Option Instant} {d d' : Deeds} {now t : Instant}
  {tries : List Tried} {x : Tried} {phase : RetryPhase} {r : RetryTask}

theorem sinceDue (p : Timetable) (tries : List Tried) : p.since tries ≤ p.due tries := by
  cases tries <;> exact Nat.le_add_right ..

theorem sinceBegins (p : Timetable) (raised : Option Instant) (tries : List Tried) :
    p.since tries ≤ p.begins raised tries := by
  cases raised with
  | none => exact sinceDue p tries
  | some t => exact Nat.le_min.mpr ⟨sinceDue p tries, Nat.le_max_right ..⟩

theorem beginsRaised (before : p.due tries ≤ t) : p.begins (some t) tries = p.due tries :=
  Nat.min_eq_left (Nat.le_trans before (Nat.le_max_left ..))

theorem madeAfter (made : d.Made x) : x.attempt.began ≤ x.ended ∧
    x.ended ≤ x.attempt.began + defaultPublishTimeout.milliseconds := by
  unfold Deeds.Made at made
  split at made
  · obtain ⟨y, -, ended, -⟩ := made
    rw [ended]
    exact ⟨Nat.le_refl _, Nat.le_add_right ..⟩
  · obtain ⟨-, reply, -, same⟩ := made
    have ended : x.ended = (reply.concludes x.attempt.began).1 := congrArg Prod.fst same
    rw [ended]
    exact reply.concludesBetween

theorem madeMore (within : d.Within d') (made : d.Made x) : d'.Made x := by
  unfold Deeds.Made at made ⊢
  split at made
  · obtain ⟨y, asked, rest⟩ := made
    exact ⟨y, within.asked _ _ asked, rest⟩
  · obtain ⟨asked, reply, sent, same⟩ := made
    exact ⟨within.asked _ _ asked, reply, within.sent _ _ _ sent, same⟩

theorem begunRaised {a : Attempted} (begun : p.Begun none tries a) (past : a.began ≤ t) :
    p.Begun (some t) tries a := by
  have due : p.due tries ≤ t := Nat.le_trans (Nat.le_of_eq begun.began.symm) past
  refine ⟨begun.began.trans (beginsRaised due).symm, ?_⟩
  have unaware : a.stopping = false := begun.sampled
  unfold Attempted.Sampled
  dsimp only
  rw [unaware, if_neg Bool.false_ne_true]
  exact past

theorem timelyRaised (timely : p.Timely none d tries) (past : p.since tries ≤ t) :
    p.Timely (some t) d tries := by
  induction timely with
  | none => exact .none
  | @more x earlier _ goesOn begun made ih =>
    have began : x.attempt.began ≤ t := Nat.le_trans (madeAfter made).1 past
    have since : p.since earlier ≤ x.attempt.began := begun.began ▸ sinceDue p earlier
    exact .more (ih (Nat.le_trans since began)) goesOn (begunRaised begun began) made

theorem stageRaised (stage : p.Stage none d now tries phase) :
    p.Stage (some now) d now tries phase := by
  have early (before : now ≤ p.due tries) : now ≤ p.begins (some now) tries :=
    Nat.le_min.mpr ⟨before, Nat.le_max_left ..⟩
  cases stage with
  | waiting first before => exact .waiting first (early before)
  | pausing later before => exact .pausing later (early before)
  | sampling time => exact .sampling (time.trans (beginsRaised (Nat.le_of_eq time.symm)).symm)
  | opening begun time none => exact .opening (begunRaised begun (Nat.le_of_eq time)) time none
  | sending begun time through asked =>
    exact .sending (begunRaised begun (Nat.le_of_eq time)) time through asked
  | confirming begun since through asked sent before =>
    exact .confirming (begunRaised begun since) since through asked sent before

theorem keptRaised (kept : p.Kept none d now r) : p.Kept (some now) d now r where
  tries := timelyRaised kept.tries kept.past
  past := kept.past
  goesOn going := ⟨(kept.goesOn going).1, stageRaised (kept.goesOn going).2⟩
  ended := kept.ended

theorem timelyMore (within : d.Within d') (timely : p.Timely raised d tries) :
    p.Timely raised d' tries := by
  induction timely with
  | none => exact .none
  | more _ goesOn begun made ih => exact .more ih goesOn begun (madeMore within made)

theorem stageMore (within : d.Within d') (stage : p.Stage raised d now tries phase) :
    p.Stage raised d' now tries phase := by
  cases stage with
  | waiting first early => exact .waiting first early
  | pausing later early => exact .pausing later early
  | sampling time => exact .sampling time
  | opening begun time none => exact .opening begun time none
  | sending begun time through asked =>
    exact .sending begun time through (within.asked _ _ asked)
  | confirming begun since through asked sent early =>
    exact .confirming begun since through (within.asked _ _ asked) (within.sent _ _ _ sent) early

theorem keptMore (within : d.Within d') (kept : p.Kept raised d now r) :
    p.Kept raised d' now r where
  tries := timelyMore within kept.tries
  past := kept.past
  goesOn going := ⟨(kept.goesOn going).1, stageMore within (kept.goesOn going).2⟩
  ended := kept.ended

theorem beginsNow (woken : p.due tries ≤ now ∨ raised.isSome = true)
    (stopped : ∀ t, raised = some t → t ≤ now) (past : p.since tries ≤ now) :
    p.begins raised tries ≤ now := by
  cases raised with
  | none => exact woken.resolve_right Bool.false_ne_true
  | some t =>
    exact Nat.le_trans (Nat.min_le_right ..) (Nat.max_le.mpr ⟨stopped t rfl, past⟩)

theorem keptConclude {a : Attempted} {o : Outcome} (timely : p.Timely raised d r.tries)
    (unended : ∀ x ∈ r.tries, ¬ x.Last) (begun : p.Begun raised r.tries a)
    (made : d.Made ⟨a, now, o⟩) (closed : o = .error .closed → a.channel = none) :
    p.Kept raised d now (r.conclude now p.pause a o) where
  tries := .more timely unended begun made
  past := Nat.le_refl _
  goesOn going := by
    have stage := sinceBegins p raised (⟨a, now, o⟩ :: r.tries)
    unfold RetryTask.conclude afterAttempt at going ⊢
    cases o with
    | ok u => cases going
    | error x =>
      dsimp only at going ⊢
      split at going
      · cases going
      · rename_i more
        rw [if_neg more]
        rw [Bool.or_eq_true, decide_eq_true_eq, not_or] at more
        refine ⟨fun y mem => ?_, .pausing (List.cons_ne_nil _ _) stage⟩
        cases mem with
        | head =>
          rintro (won | stopping | ⟨-, gone⟩)
          · cases won
          · exact more.1 stopping
          · exact more.2 (Except.error.inj gone)
        | tail _ old => exact unended y old
  ended b done := by
    refine ⟨_, r.tries, rfl, ?_⟩
    unfold RetryTask.conclude afterAttempt at done
    cases o with
    | ok u =>
      cases done
      exact ⟨.inl rfl, rfl⟩
    | error x =>
      dsimp only at done
      split at done
      · rename_i last
        cases done
        refine ⟨.inr ?_, rfl⟩
        rcases Bool.or_eq_true_iff.mp last with stopping | gone
        · exact .inl stopping
        · cases of_decide_eq_true gone
          exact .inr ⟨closed rfl, rfl⟩
      · cases done

def attempts (r : RetryTask) : List Attempted :=
  r.phase.attempt?.toList ++ r.tries.map Tried.attempt

structure Stopped (t : Instant) (p : Timetable) (now : Instant) (r : RetryTask) : Prop where
  once : (attempts r).countP Attempted.stopping ≤ 1
  before : ∀ a ∈ attempts r, a.stopping = false → a.began ≤ t
  ends : max t p.failed + 2 * defaultPublishTimeout.milliseconds < now → r.phase.finished = true

theorem unstoppedNone (unended : ∀ x ∈ tries, ¬ x.Last) :
    (tries.map Tried.attempt).countP Attempted.stopping = 0 := by
  refine List.countP_eq_zero.mpr fun a mem => ?_
  obtain ⟨x, inside, rfl⟩ := List.mem_map.mp mem
  exact fun stopping => unended x inside (.inr (.inl stopping))

theorem sampledBefore {a : Attempted} (sampled : a.Sampled (some t)) (running : a.stopping = false) :
    a.began ≤ t := by
  unfold Attempted.Sampled at sampled
  dsimp only at sampled
  rw [running, if_neg Bool.false_ne_true] at sampled
  exact sampled

theorem timelyBefore (timely : p.Timely (some t) d tries) :
    ∀ x ∈ tries, x.attempt.stopping = false → x.attempt.began ≤ t := by
  induction timely with
  | none => exact fun x mem => nomatch mem
  | more _ _ begun _ ih =>
    intro x mem
    cases mem with
    | head => exact sampledBefore begun.sampled
    | tail _ old => exact ih x old

theorem beginsStopped (timely : p.Timely (some t) d tries) (unended : ∀ x ∈ tries, ¬ x.Last) :
    p.begins (some t) tries ≤ max t p.failed + defaultPublishTimeout.milliseconds := by
  suffices since : p.since tries ≤ max t p.failed + defaultPublishTimeout.milliseconds by
    refine Nat.le_trans (Nat.min_le_right ..) (Nat.max_le.mpr ⟨?_, since⟩)
    exact Nat.le_trans (Nat.le_max_left ..) (Nat.le_add_right ..)
  cases timely with
  | none => exact Nat.le_trans (Nat.le_max_right ..) (Nat.le_add_right ..)
  | @more x earlier _ _ begun made =>
    have running : x.attempt.stopping = false :=
      Bool.eq_false_iff.mpr fun stopping => unended x List.mem_cons_self (.inr (.inl stopping))
    refine Nat.le_trans (madeAfter made).2 (Nat.add_le_add_right ?_ _)
    exact Nat.le_trans (sampledBefore begun.sampled running) (Nat.le_max_left ..)

theorem stageStopped (timely : p.Timely (some t) d tries) (unended : ∀ x ∈ tries, ¬ x.Last)
    (stage : p.Stage (some t) d now tries phase) :
    now ≤ max t p.failed + 2 * defaultPublishTimeout.milliseconds := by
  have begins := beginsStopped timely unended
  have soon (early : now ≤ p.begins (some t) tries) :
      now ≤ max t p.failed + 2 * defaultPublishTimeout.milliseconds := by
    rw [Nat.two_mul, ← Nat.add_assoc]
    exact Nat.le_trans early (Nat.le_trans begins (Nat.le_add_right ..))
  cases stage with
  | waiting _ early | pausing _ early => exact soon early
  | sampling time => exact soon (Nat.le_of_eq time)
  | opening begun time | sending begun time =>
    exact soon (Nat.le_of_eq (time.symm.trans begun.began))
  | @confirming a c reply begun _ _ _ _ early =>
    rw [Nat.two_mul, ← Nat.add_assoc]
    refine Nat.le_trans early (Nat.le_trans reply.concludesBetween.2 (Nat.add_le_add_right ?_ _))
    exact Nat.le_trans (Nat.le_of_eq begun.began) begins

theorem keptStopped (kept : p.Kept (some t) d now r) : Stopped t p now r where
  once := by
    unfold attempts
    rw [List.countP_append]
    cases finished : r.phase.finished with
    | false =>
      rw [unstoppedNone (kept.goesOn finished).1]
      refine Nat.le_trans List.countP_le_length ?_
      cases r.phase.attempt? <;> exact Nat.le_of_ble_eq_true rfl
    | true =>
      obtain ⟨b, phase⟩ := doneOf finished
      obtain ⟨x, earlier, tries, -⟩ := kept.ended b phase
      have timely := kept.tries
      rw [phase, tries] at *
      cases timely with
      | more _ goesOn =>
        rw [List.map_cons, List.countP_cons, unstoppedNone goesOn]
        split <;> exact Nat.le_of_ble_eq_true rfl
  before a mem running := by
    rcases List.mem_append.mp mem with tried | ended
    · cases finished : r.phase.finished with
      | false =>
        obtain ⟨-, stage⟩ := kept.goesOn finished
        generalize r.phase = phase at stage tried
        cases stage with
        | waiting | pausing | sampling => cases tried
        | opening begun | sending begun | confirming begun =>
          cases List.mem_singleton.mp tried
          exact sampledBefore begun.sampled running
      | true =>
        obtain ⟨b, phase⟩ := doneOf finished
        rw [phase] at tried
        cases tried
    · obtain ⟨x, inside, rfl⟩ := List.mem_map.mp ended
      exact timelyBefore kept.tries x inside running
  ends late := by
    refine Bool.of_not_eq_false fun going => ?_
    obtain ⟨unended, stage⟩ := kept.goesOn going
    exact Nat.not_lt_of_le (stageStopped kept.tries unended stage) late

variable {β : Type} [Broker β] {e f : Env β} {s : Supervisor} {q : RetryTask}

theorem keptTime (kept : p.Kept raised d e.now r) (stuck : r.step raised.isSome s e = none)
    (later : e.now ≤ t) (timer : ∀ ends, r.timer? = some ends → e.now < ends → t ≤ ends) :
    p.Kept raised d t r where
  tries := kept.tries
  past := Nat.le_trans kept.past later
  goesOn going := by
    obtain ⟨unended, stage⟩ := kept.goesOn going
    refine ⟨unended, ?_⟩
    have unstopped {ends : Instant} (asleep : r.wake raised.isSome ends e = none) :
        raised = none ∧ e.now < ends := by
      unfold RetryTask.wake at asleep
      split at asleep
      · cases asleep
      · rename_i early
        rw [Bool.or_eq_true, decide_eq_true_eq, not_or] at early
        exact ⟨Option.not_isSome_iff_eq_none.mp early.2, Nat.lt_of_not_le early.1⟩
    unfold RetryTask.step at stuck
    unfold RetryTask.timer? at timer
    generalize r.phase = phase at stage stuck timer going
    cases stage with
    | waiting first =>
      obtain ⟨rfl, early⟩ := unstopped stuck
      exact .waiting first (timer _ rfl early)
    | pausing more =>
      obtain ⟨rfl, early⟩ := unstopped stuck
      exact .pausing more (timer _ rfl early)
    | sampling | sending => cases stuck
    | opening =>
      dsimp only at stuck
      split at stuck <;> cases stuck
    | @confirming a c reply begun since through asked sent early =>
      obtain ⟨unanswered, ends⟩ := reply.concludesLater since (Option.map_eq_none_iff.mp stuck)
      have last := timer _ rfl (ends.symm ▸ unanswered)
      exact .confirming begun (Nat.le_trans since later) through asked sent (ends ▸ last)
  ended := kept.ended

theorem keptMove (move : RetryMove raised.isSome s e r f q) (kept : p.Kept raised d e.now r)
    (pause : s.reconnectDelay = p.pause) (stopped : ∀ t, raised = some t → t ≤ e.now)
    (within : d.Within d')
    (asked : ∀ a, r.phase = .opening a → d'.asked e.now (s.channel? e.broker))
    (sent : ∀ a c, r.phase = .sending a c → d'.sent e.now c
      (e.publish c s.topology.exchangeName s.topology.routingKey r.envelope).2)
    (sound : ∀ t c n o, d'.sent t c (.after n o) → o ≠ .error .closed) :
    p.Kept raised d' e.now q := by
  have kept := keptMore within kept
  obtain ⟨unended, stage⟩ := kept.goesOn (retryUnfinished move)
  have going {phase : RetryPhase} (running : phase.finished = false)
      (stage : p.Stage raised d' e.now r.tries phase) :
      p.Kept raised d' e.now { r with phase } := by
    refine ⟨kept.tries, kept.past, fun _ => ⟨unended, stage⟩, fun b done => ?_⟩
    have done : phase = .done b := done
    rw [done] at running
    cases running
  cases move with
  | wake here due =>
    refine going rfl (.sampling ?_)
    rcases here with here | here <;> rw [here] at stage <;> cases stage
    all_goals exact Nat.le_antisymm (by assumption) (beginsNow due stopped kept.past)
  | sample here =>
    rw [here] at stage
    cases stage with
    | sampling time =>
      refine going rfl (.opening ⟨time, ?_⟩ rfl rfl)
      cases raised with
      | none => rfl
      | some t => exact stopped t rfl
  | @unopened a x here gone =>
    rw [here] at stage
    cases stage with
    | opening begun time none =>
      rw [pause]
      refine keptConclude kept.tries unended begun ?_ fun _ => none
      unfold Deeds.Made
      dsimp only
      rw [none, time]
      exact ⟨x, gone ▸ asked a here, rfl, rfl⟩
  | @opened a c here current =>
    rw [here] at stage
    cases stage with
    | opening begun time none =>
      refine going rfl (.sending ⟨begun.began, begun.sampled⟩ time rfl ?_)
      exact time ▸ current ▸ asked a here
  | @send a c here =>
    rw [here] at stage
    cases stage with
    | sending begun time through asked =>
      refine going rfl ?_
      have stage := Stage.confirming begun (Nat.le_of_eq time) through asked (time ▸ sent a c here)
        (time ▸ (Reply.concludesBetween _).1)
      rw [time] at stage
      exact stage
  | @conclude a c o here answer =>
    rw [here] at stage
    cases stage with
    | confirming begun since through asked sent early =>
      rename_i ch reply
      have concludes := reply.concludesResult since early answer
      rw [pause]
      refine keptConclude kept.tries unended begun ?_ fun gone => ?_
      · unfold Deeds.Made
        dsimp only
        rw [through]
        exact ⟨asked, reply, sent, concludes.symm⟩
      · subst gone
        unfold Reply.concludes at concludes
        cases reply with
        | after n o =>
          dsimp only at concludes
          split at concludes
          · exact absurd (congrArg Prod.snd concludes) (sound _ _ _ _ sent)
          · cases congrArg Prod.snd concludes
        | never => cases congrArg Prod.snd concludes

end Timetable

end Consumer

end AmqpClient
