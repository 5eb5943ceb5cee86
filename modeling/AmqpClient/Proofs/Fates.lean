import AmqpClient.Proofs.Traffic
/-! What becomes of all messages that clients publish to one started consumer. -/
namespace AmqpClient

open Broker (Memory Store)

theorem Confirmation.timerNext {now : Instant} {c : Confirmation} (waits : c.result? now = none) :
    now < c.timer ∧ c.result? c.timer ≠ none := by
  unfold result? at waits
  unfold result? timer
  cases here : c.answered with
  | none =>
    rw [here] at waits
    dsimp only at waits ⊢
    split at waits
    · cases waits
    · rename_i early
      rw [if_pos (Nat.le_refl _)]
      exact ⟨Nat.lt_of_not_le early, Option.some_ne_none _⟩
  | some answer =>
    obtain ⟨t, o⟩ := answer
    rw [here] at waits
    dsimp only at waits ⊢
    split at waits
    · cases waits
    · rename_i later
      split at waits
      · cases waits
      · rename_i early
        refine ⟨Nat.lt_min.mpr ⟨Nat.lt_of_not_le later, Nat.lt_of_not_le early⟩, ?_⟩
        split
        · exact Option.some_ne_none o
        · rename_i unanswered
          have elapsed : c.deadline ≤ min t c.deadline := by
            rcases Nat.le_total t c.deadline with first | second
            · exact absurd (Nat.le_of_eq (Nat.min_eq_left first).symm) unanswered
            · exact Nat.le_of_eq (Nat.min_eq_right second).symm
          rw [if_pos elapsed]
          exact Option.some_ne_none _

namespace World

variable {x : Desk} {w v : World Memory} {past since : List Entry} {unread : List Delivery}
  {c : Client} {k : Consumer}

inductive Passing : World Memory → World Memory → Prop where
  | act {w v : World Memory} (made : Acts w v) : Passing w v
  | time (w : World Memory) {t : Instant} (later : w.env.now ≤ t) : Passing w (w.advance t)

theorem callStirs {b : Client} {e : Env Memory} {j : Nat} {p : Publication} {t : Instant}
    (here : b.calls[j]? = some (.publish p)) (timed : p.timer? = some t)
    (stuck : b.step (.call j) false e = none) :
    e.now < t ∧ b.step (.call j) false { e with now := t } ≠ none := by
  unfold Publication.timer? at timed
  split at timed
  · rename_i d phase
    cases timed
    have step (f : Env Memory) : b.step (.call j) false f =
        (d.result? f.now).map fun o => (f, b.setCall j (.publish { p with phase := .done o })) := by
      change b.callStep j f = _
      unfold Client.callStep
      rw [here]
      dsimp only
      unfold Publication.step
      rw [phase]
      dsimp only
      rw [Option.map_map]
      rfl
    rw [step] at stuck
    obtain ⟨later, answer⟩ := Confirmation.timerNext (Option.map_eq_none_iff.mp stuck)
    refine ⟨later, fun none => answer ?_⟩
    rw [step] at none
    exact Option.map_eq_none_iff.mp none
  · cases timed

theorem retryStirs {s : Supervisor} {e : Env Memory} {j : Nat} {r : Consumer.RetryTask}
    {t : Instant} (here : k.retries[j]? = some r) (idle : r.Idle e.now) (timed : r.timer? = some t) :
    e.now < t ∧ k.retryStep j s { e with now := t } ≠ none := by
  unfold Consumer.RetryTask.Idle at idle
  unfold Consumer.RetryTask.timer? at timed
  cases phase : r.phase with
  | waiting ends =>
    simp only [phase] at idle timed
    cases timed
    refine ⟨idle, ?_⟩
    unfold Consumer.retryStep Consumer.RetryTask.step
    rw [here]
    dsimp only
    rw [phase]
    dsimp only
    unfold Consumer.RetryTask.wake
    rw [if_pos (by rw [decide_eq_true (Nat.le_refl _), Bool.true_or])]
    exact Option.some_ne_none _
  | done confirmed =>
    rw [phase] at timed
    cases timed
  | _ => simp only [phase] at idle

theorem timerStirs (serves : w.Serves x past since unread c k) (quiet : w.Quiet) {t : Instant}
    (mem : t ∈ w.timers) : w.env.now < t ∧ ¬ (w.advance t).Quiet := by
  obtain ⟨b, there, timed⟩ := timerOfClient serves.orderly.openings mem
  obtain ⟨i, found⟩ := List.getElem?_of_mem there
  have calm := serves.orderly.calm b there
  have stir {a : Activity} (late : w.env.now < t ∧ b.step a false { w.env with now := t } ≠ none) :
      w.env.now < t ∧ ¬ (w.advance t).Quiet :=
    ⟨late.1, fun quiet => late.2 (stillOf quiet found a)⟩
  unfold Client.timers at timed
  rcases List.mem_append.mp timed with timed | supervised
  · rcases List.mem_append.mp timed with called | consumed
    · obtain ⟨y, mine, timed⟩ := List.mem_filterMap.mp called
      obtain ⟨j, here⟩ := List.getElem?_of_mem mine
      by_cases own : i = x.client
      · subst own
        cases serves.found.symm.trans found
        obtain ⟨o, rfl⟩ := serves.mans.calls y mine
        cases timed
      · obtain ⟨p, rfl, -⟩ := (serves.orderly.others i b found own).calls y mine
        exact stir (callStirs here timed (stillOf quiet found (.call j)))
    · by_cases own : i = x.client
      · subst own
        cases serves.found.symm.trans found
        have rest := servesResting serves quiet
        rw [Client.consumerOf serves.role] at consumed
        rcases List.mem_append.mp consumed with early | copied
        -- a loop at its stream and a worker that has ended wait for no time
        · rcases List.mem_append.mp early with looped | worked
          · obtain ⟨l, mine, timed⟩ := List.mem_filterMap.mp looped
            obtain ⟨m, alone, steady⟩ := serves.serving.loop
            rw [alone] at mine
            cases List.mem_singleton.mp mine
            unfold Consumer.Loop.Steady at steady
            unfold Consumer.Loop.timer? at timed
            split at timed
            · simp only [*] at steady
            · cases timed
          · obtain ⟨y, mine, timed⟩ := List.mem_filterMap.mp worked
            have finished := rest.workers y mine
            unfold Consumer.WorkerPhase.finished at finished
            unfold Consumer.Worker.timer? at timed
            split at timed
            · simp only [*] at finished
              cases finished
            · cases timed
        · obtain ⟨r, mine, timed⟩ := List.mem_filterMap.mp copied
          obtain ⟨j, here⟩ := List.getElem?_of_mem mine
          obtain ⟨later, goes⟩ := retryStirs (s := c.supervisor) here (rest.retries r mine) timed
          refine stir (a := .retry j) ⟨later, fun none => goes ?_⟩
          change c.consumerStep _ _ = _ at none
          unfold Client.consumerStep at none
          rw [serves.role] at none
          exact Option.map_eq_none_iff.mp none
      · rw [(serves.orderly.others i b found own).role] at consumed
        cases consumed
  · unfold Supervisor.timer? at supervised
    rw [calm.listening] at supervised
    cases supervised

theorem actOf (busy : ¬ w.Quiet) : ∃ v, Acts w v := by
  unfold Quiet at busy
  simp only [Classical.not_forall] at busy
  obtain ⟨a, preferStop, made⟩ := busy
  obtain ⟨v, made⟩ := Option.ne_none_iff_exists'.mp made
  exact ⟨v, a, preferStop, made⟩

theorem comesToRest (exact_ : x.Exact) (serves : w.Serves x past since unread c k) :
    ∃ u, Run (fun w v => Passing w v ∧ Prompt w v) w u ∧ u.Quiet ∧ u.timers = [] := by
  -- on what is left to do, which every step makes less
  generalize left : w.load x unread k = n
  induction n using Nat.strongRecOn generalizing w since unread c k with
  | ind n ih =>
    have act {v : World Memory} {since' unread' c' k'} (kept : v.Serves x past since' unread' c' k')
        (same : v.load x unread' k' = n) (busy : ¬ v.Quiet) :
        ∃ u, Run (fun w v => Passing w v ∧ Prompt w v) v u ∧ u.Quiet ∧ u.timers = [] := by
      obtain ⟨u, made⟩ := actOf busy
      obtain ⟨_, _, _, _, after, less⟩ := servesAct exact_ kept made
      obtain ⟨z, run, rest⟩ := ih _ (same ▸ less) after rfl
      exact ⟨z, (Run.single ⟨.act made, promptAct made⟩).trans run, rest⟩
    by_cases quiet : w.Quiet
    · cases timed : w.timers.min? with
      | none => exact ⟨w, .refl w, quiet, List.min?_eq_none_iff.mp timed⟩
      | some t =>
        have mem := List.min?_mem timed
        obtain ⟨later, busy⟩ := timerStirs serves quiet mem
        have later := Nat.le_of_lt later
        have prompt : Prompt w (w.advance t) :=
          fun _ => ⟨quiet, fun s there _ => (List.min?_eq_some_iff.mp timed).2 s there⟩
        obtain ⟨u, run, rest⟩ := act (servesTime serves later prompt) left busy
        exact ⟨u, (Run.single ⟨.time w later, prompt⟩).trans run, rest⟩
    · exact act serves left quiet

structure Ready (x : Desk) (c : Client) (k : Consumer) (w : World Memory) : Prop where
  orderly : w.Orderly x
  found : w.clients[x.client]? = some c
  mans : c.Mans x w.env.broker
  role : c.role = .consumer k
  policy : k.retry = x.policy
  handler : ∀ seen d, k.handler seen d = ⟨0, x.outcome d.body (Retry.count d.headers)⟩
  running : k.stopped = false
  loop : ∃ l, k.loops = [l] ∧ l.Steady x c.supervisor.announced ∧ l.hand = []
  permitted : 0 < k.permits
  workers : k.workers = []
  retries : k.retries = []
  feeds : w.env.broker.store.Feeds x.channel x.stream x.binding k.subscribed []
  accepting : w.env.broker.failing = false ∧ w.env.broker.stalled = false

theorem servesReady (ready : w.Ready x c k) : w.Serves x w.env.journal [] [] c k := by
  obtain ⟨l, alone, steady, empty⟩ := ready.loop
  have hand : k.hand = [] := (Desk.handOf alone).trans empty
  have tags : k.tags [] = [] := by
    unfold Consumer.tags Consumer.received
    rw [hand, ready.workers]
    rfl
  have books : x.Books w.env [] [] k := {
    feeds := ready.feeds
    accepting := ready.accepting
    distinct := by rw [tags]; exact List.nodup_nil
    numbered := by rw [tags]; exact fun n mem => by cases mem
    settled := fun a mem => by cases mem
    past := fun a mem => by cases mem
    balance := fun a => by
      unfold Consumer.pending
      rw [hand, ready.workers, ready.retries]
      rfl }
  exact {
    orderly := ready.orderly
    found := ready.found
    mans := ready.mans
    role := ready.role
    journal := rfl
    books := books
    serving := {
      policy := ready.policy
      handler := ready.handler
      running := ready.running
      loop := ⟨l, alone, steady⟩
      permitted := Nat.lt_add_right _ ready.permitted
      workers := fun y mem => by rw [ready.workers] at mem; cases mem
      retries := fun r mem => by rw [ready.retries] at mem; cases mem } }

theorem servesRun (exact_ : x.Exact) (serves : w.Serves x past since unread c k)
    (run : Run (fun w v => Traffic w v ∧ Prompt w v) w v) :
    ∃ since unread c k, v.Serves x past since unread c k := by
  induction run with
  | refl => exact ⟨since, unread, c, k, serves⟩
  | next _ last ih =>
    obtain ⟨_, _, _, _, before⟩ := ih
    exact servesTraffic exact_ before last.1 last.2

/-- What was done with the messages is their fate, each time all that is due has been done; and
there comes a time when all has been done. -/
theorem messageFates (exact_ : x.Exact) (ready : w.Ready x c k)
    (run : Run (fun w v => Traffic w v ∧ Prompt w v) w v) :
    (∃ d l since, v.clients[x.client]? = some d ∧ d.role = .consumer l ∧
      v.env.journal = since ++ w.env.journal ∧
      (v.Quiet → (x.events l.received since).Perm
        (((x.posted since).flatMap x.fate).filter fun a => a.time ≤ v.env.now)) ∧
      (v.Quiet → v.timers = [] →
        (x.events l.received since).Perm ((x.posted since).flatMap x.fate))) ∧
    ∃ u, Run (fun w v => Passing w v ∧ Prompt w v) v u ∧ u.Quiet ∧ u.timers = [] := by
  obtain ⟨since, unread, d, l, serves⟩ := servesRun exact_ (servesReady ready) run
  refine ⟨⟨d, l, since, serves.found, serves.role, serves.journal, fun quiet => ?_,
    fun quiet elapsed => ?_⟩, comesToRest exact_ serves⟩
  · exact Desk.doneByNow serves.books (servesResting serves quiet)
  · refine Desk.allDone serves.books (servesResting serves quiet) ?_
    refine List.eq_nil_iff_forall_not_mem.mpr fun t mem => ?_
    have timed := retryTimers serves mem
    rw [elapsed] at timed
    cases timed

def shopMade : World Memory :=
  let t := (Topology.new "orders").underKey "order"
  let start : World Memory := { env := { broker := {}, wallClock := fun _ => 0 } }
  let picky : Handler := fun _ d => ⟨0, if d.body = [] then .error "rejected" else .ok ()⟩
  ((start.make "reader" (.consumer (t.withQueue "orders") { maxRetries := 1 } {} picky)).make
    "writer" (.producer t {})).settle

def shop : World Memory := (shopMade.call 0 (.start .locking)).settle

def shopDesk : Desk where
  client := 0
  channel := 0
  stream := 0
  queue := "orders"
  exchange := "orders"
  key := "order"
  policy := { maxRetries := 1 }
  outcome body _ := if body = [] then .error "rejected" else .ok ()

def reader : Client := shop.clients.get ⟨0, by decide +kernel⟩

def writer : Client := shop.clients.get ⟨1, by decide +kernel⟩

theorem shopOrderly : shop.Orderly shopDesk where
  openings o mem := by
    have opened : shop.openings = [⟨_, _, .opened 0⟩, ⟨_, _, .opened 1⟩] := rfl
    rw [opened] at mem
    rcases List.mem_cons.mp mem with rfl | mem
    · trivial
    · cases List.mem_singleton.mp mem
      trivial
  calm c mem := by
    have clients : shop.clients = [reader, writer] := rfl
    have waiting : (shop.clients.all fun c => c.supervisor.watchers.all fun y =>
      !(Broker.signal shop.env.broker y.signal).fired) = true := by decide +kernel
    have unfired := List.all_eq_true.mp (List.all_eq_true.mp waiting c mem)
    have quiet : ∀ y ∈ c.supervisor.watchers, y.phase = .watching →
        ¬ shop.env.broker.store.fired y.signal := by
      intro y there _ fired
      have silent := unfired y there
      change (Broker.signal shop.env.broker y.signal).fired = true at fired
      rw [fired] at silent
      cases silent
    rw [clients] at mem
    rcases List.mem_cons.mp mem with rfl | mem
    · exact ⟨rfl, rfl, rfl, quiet⟩
    · cases List.mem_singleton.mp mem
      exact ⟨rfl, rfl, rfl, quiet⟩
  others i c found other := by
    have clients : shop.clients = [reader, writer] := rfl
    rw [clients] at found
    cases i with
    | zero => exact absurd rfl other
    | succ i =>
      cases i with
      | zero =>
        cases found
        exact ⟨rfl, by decide +kernel, fun y mem => by cases mem⟩
      | succ => cases found

theorem shopReady : ∃ k, shop.Ready shopDesk reader k := by
  refine ⟨reader.consumer?.get (by decide +kernel), ?_⟩
  exact {
    orderly := shopOrderly
    found := rfl
    mans := ⟨rfl, rfl, rfl, rfl, fun y mem => ⟨.ok (), List.mem_singleton.mp mem⟩⟩
    role := rfl
    policy := rfl
    handler := fun seen d => rfl
    running := rfl
    loop := ⟨_, rfl, ⟨⟨rfl, rfl⟩, rfl⟩, rfl⟩
    permitted := by decide +kernel
    workers := rfl
    retries := rfl
    feeds := {
      channel := rfl
      stream := fun _ => ⟨_, rfl, rfl, by decide, rfl⟩
      waits := fun gone => by cases gone
      alone := fun j y d found live => by
        have one : shop.env.broker.store.streams.length = 1 := rfl
        have inside := (List.getElem?_eq_some_iff.mp found).1
        exact ⟨rfl, Nat.lt_one_iff.mp (one ▸ inside)⟩
      bound := by decide +kernel
      only := fun y mem _ => List.mem_singleton.mp mem }
    accepting := ⟨rfl, rfl⟩ }

def order (body : Bytes) : Publication := { message := { body }, timeout := .ofSeconds 5 }

def shopAsked : World Memory :=
  ((shop.call 1 (.publish (order []))).call 1 (.publish (order [1]))).settle

def shopOver : World Memory := (shopAsked.advance 2000).settle

theorem shopRun : Run (fun w v => Traffic w v ∧ Prompt w v) shop shopOver := by
  have acts {w v : World Memory} (run : Run Acts w v) :
      Run (fun w v => Traffic w v ∧ Prompt w v) w v :=
    run.map fun _ _ made => ⟨.act made, promptAct made⟩
  have first : Traffic shop (shop.call 1 (.publish (order []))) :=
    .publish shop (c := writer) rfl rfl rfl
  have second : Traffic (shop.call 1 (.publish (order [])))
      ((shop.call 1 (.publish (order []))).call 1 (.publish (order [1]))) :=
    .publish _ (c := { writer with calls := writer.calls ++ [.publish (order [])] }) rfl rfl rfl
  have asked := ((Run.single ⟨first, promptSame rfl⟩).next ⟨second, promptSame rfl⟩).trans
    (acts (settleActs _))
  have quiet : shopAsked.Quiet := quietSeen (by decide +kernel)
  have timers : ∀ t ∈ shopAsked.timers, 2000 ≤ t := by decide +kernel
  have waited : Prompt shopAsked (shopAsked.advance 2000) :=
    fun _ => ⟨quiet, fun t mem _ => timers t mem⟩
  exact (asked.next ⟨.time shopAsked (Nat.zero_le _), waited⟩).trans (acts (settleActs _))

theorem ordersFulfilled : shopOver.Quiet ∧ shopOver.timers = [] ∧ ∃ d l since,
    shopOver.clients[0]? = some d ∧ d.role = .consumer l ∧
      shopOver.env.journal = since ++ shop.env.journal ∧
      (shopDesk.posted since).map Posted.body = [[1], []] ∧
      (shopDesk.events l.received since).Perm ((shopDesk.posted since).flatMap shopDesk.fate) := by
  have quiet : shopOver.Quiet := quietSeen (by decide +kernel)
  have elapsed : shopOver.timers = [] := by decide +kernel
  obtain ⟨k, ready⟩ := shopReady
  obtain ⟨⟨d, l, since, found, role, journal, -, all⟩, -⟩ :=
    messageFates ⟨by decide, by decide⟩ ready shopRun
  have known : shopOver.env.journal = shopOver.env.journal.take 15 ++ shop.env.journal := rfl
  have same : since = shopOver.env.journal.take 15 :=
    List.append_cancel_right (journal.symm.trans known)
  refine ⟨quiet, elapsed, d, l, since, found, role, journal, ?_, all quiet elapsed⟩
  rw [same]
  rfl

end World

end AmqpClient
