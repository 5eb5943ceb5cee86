import AmqpClient.Proofs.Departures
import AmqpClient.Proofs.Lifecycles
import AmqpClient.Proofs.Settlements
/-! Closing a consumer publishes the copies that wait. Each is handed to the broker once and as it is,
at the instant at which the call begins; a hundred milliseconds later the call has returned and the
link is closed. From then on the consumer publishes nothing, and closing it again changes nothing. -/
namespace AmqpClient

open Broker (Memory Store Commanded)

variable {x : Departure} {e : Env Memory} {w v u : World Memory} {c d : Client} {k m : Consumer}
  {notes new : List Entry} {y : Consumer.ConsumerClosing} {i : Nat}

namespace Departure

theorem stageStuck {j : Nat} {s : Supervisor} {left : List Nat}
    (stage : x.Stage e.now e.broker.store s.session left y)
    (finished : x.told < e.now → ∀ r ∈ k.retries, r.phase.finished = true)
    (stuck : k.closeStep j e s y = none) :
    y = .closing (.done (.ok ())) ∨ (y = .grace x.ends ∧ e.now < x.ends) := by
  have goes {a : Closing} (going : s.closeStep e a ≠ none) : k.closeStep j e s (.closing a) ≠ none :=
    fun none => going (Option.map_eq_none_iff.mp none)
  have release {r : Release} : s.closeStep e (.releasing r) ≠ none := by
    unfold Supervisor.closeStep
    dsimp only
    split <;> exact Option.some_ne_none _
  cases stage with
  | grace =>
    unfold Consumer.closeStep at stuck
    dsimp only at stuck
    split at stuck
    · cases stuck
    · rename_i early
      exact .inr ⟨rfl, Nat.lt_of_not_le early⟩
  | collecting => cases stuck
  | joining due =>
    have later : x.told < e.now := by
      rw [due]
      exact Nat.lt_add_of_pos_right (by decide)
    simp only [Consumer.closeStep, Client.retriesFinished (finished later), if_true] at stuck
    cases stuck
  | raising | taking => exact absurd stuck (goes (Option.some_ne_none _))
  | releasing | half | both => exact absurd stuck (goes release)
  | done => exact .inl rfl

theorem stageDone {now : Instant} {store : Store} {s : Session} {left : List Nat} {o : Outcome}
    (stage : x.Stage now store s left (.closing (.done o))) :
    o = .ok () ∧ x.ends ≤ now ∧ s.state = .closed ∧ left = [] ∧
      ∀ r, ¬ store.openAt r (x.link.id r) := by
  cases stage with
  | done late closed reaped shut => exact ⟨rfl, late, closed, reaped, shut⟩

theorem stageDue {now : Instant} {store : Store} {s : Session} {left : List Nat}
    (stage : x.Stage now store s left y) (going : ∀ o, y ≠ .closing (.done o)) : now ≤ x.ends := by
  cases stage with
  | grace early => exact early
  | done => exact absurd rfl (going _)
  | _ => exact Nat.le_of_eq ‹now = x.ends›

structure Proceeds (x : Departure) (notes : List Entry) (w : World Memory) : Prop where
  exercised : w.Exercised
  undisturbed : w.Undisturbed
  client : ∃ c k, w.clients[x.client]? = some c ∧ x.Leads w.env c k ∧
    ∃ sent, published notes = sent.map x.copy ∧ (sent ++ k.unsent).Perm x.copies
  noted : ∀ c o, w.clients[x.client]? = some c →
    c.calls[x.call]? = some (.closeConsumer (.closing (.done o))) → x.returned ∈ notes

theorem exercisedAct (exercised : w.Exercised) (made : World.Acts w v) : v.Exercised :=
  World.exercisedRun exercised (.single (.act made))

theorem proceedsOwn {a : Activity} {preferStop : Bool} (proceeds : x.Proceeds notes w)
    (made : w.step (.client x.client a) preferStop = some v)
    (wrote : v.env.journal = new ++ w.env.journal) : x.Proceeds (new ++ notes) v := by
  obtain ⟨c, k, found, leads, sent, before, books⟩ := proceeds.client
  have act : World.Acts w v := ⟨_, _, made⟩
  have place : x.client < w.clients.length := (List.getElem?_eq_some_iff.mp found).1
  have exercised := exercisedAct proceeds.exercised act
  have undisturbed := (World.undisturbedAct proceeds.undisturbed act).1
  obtain ⟨f, d, mid, stepped, rfl, middle, publishes⟩ := World.clientWrites found made wrote
  have move := Client.clientMove stepped
  have now := Client.nowOfStep stepped
  obtain ⟨m, after, mid', more, middle', copies, rest⟩ := leadsMove leads
    (Client.covered Env.steadyCovers move)
    (Client.hushed move (proceeds.undisturbed.clients c (List.mem_of_getElem? found))) now move
  cases List.append_cancel_right (middle.symm.trans middle')
  have same := World.brokerRecordEnd x.client a d f
  have ended : x.Leads (World.recordEnd x.client a d f) d m := by
    refine leadsOther after (World.nowRecordEnd ..) ?_ ?_ fun r n _ => by rw [same]
    · exact Env.steadyLinks (by rw [same]) (by rw [same]) (by rw [same]; exact Store.sameLinksRefl _)
    · exact hushedLinks (by rw [same]; exact Store.sameLinksRefl _)
  refine ⟨exercised, undisturbed, ⟨d, m, List.getElem?_set_self place, ended, more ++ sent, ?_, ?_⟩,
    fun b o there here => ?_⟩
  · rw [publishedAppend, publishes, copies, before, List.map_append]
  · rw [List.append_assoc]
    exact (List.perm_append_comm_assoc ..).trans ((rest.append_left _).trans books)
  · cases (List.getElem?_set_self place).symm.trans there
    obtain ⟨z, calling, stage⟩ := leads.stage
    by_cases mine : a = .call x.call
    -- the call returns at this step, which is when the grace is over
    · subst mine
      obtain ⟨q, calling', going⟩ := Client.callGoing stepped
      cases calling.symm.trans calling'
      have early : w.env.now ≤ x.ends :=
        stageDue stage (by rintro o rfl; cases going)
      obtain ⟨z', here', stage'⟩ := after.stage
      cases here.symm.trans here'
      obtain ⟨rfl, late, -⟩ := stageDone stage'
      have due : f.now = x.ends := Nat.le_antisymm (now ▸ early) late
      have record : (World.recordEnd x.client (.call x.call) d f).journal =
          (x.returned :: mid) ++ w.env.journal := by
        unfold World.recordEnd Departure.returned
        dsimp only
        rw [here, ← due, List.cons_append, ← middle]
        rfl
      cases List.append_cancel_right (wrote.symm.trans record)
      exact List.mem_append_left _ List.mem_cons_self
    · have kept := Client.callKept stepped calling mine
      cases here.symm.trans kept
      exact List.mem_append_right _ (proceeds.noted c o found calling)

theorem proceedsOther (proceeds : x.Proceeds notes w) (made : World.Acts w v)
    (apart : ∀ a preferStop, w.step (.client x.client a) preferStop ≠ some v) :
    x.Proceeds notes v := by
  obtain ⟨c, k, found, leads, books⟩ := proceeds.client
  obtain ⟨undisturbed, hushed⟩ := World.undisturbedAct proceeds.undisturbed made
  obtain ⟨there, spared⟩ := World.othersSpare proceeds.undisturbed.owned found made apart
  have now : v.env.now = w.env.now := by
    obtain ⟨a, preferStop, made⟩ := made
    exact World.nowOfStep made
  refine ⟨exercisedAct proceeds.exercised made, undisturbed, ⟨c, k, there,
    leadsOther leads now (World.actCovered Env.steadyCovers made) hushed spared, books⟩,
    fun b o same here => ?_⟩
  cases there.symm.trans same
  exact proceeds.noted c o found here

theorem leadsStill (leads : x.Leads w.env c k) (exercised : w.Exercised)
    (found : w.clients[x.client]? = some c) (quiet : w.Quiet) :
    c.Retired k ∧ ∀ r ∈ k.retries, r.phase.finished = true := by
  have still := World.stillOf quiet found
  have reached := World.exercisedReachable exercised
  refine ⟨Client.retiredStill (World.lockedReachable reached found leads.role)
    (World.flaggedReachable reached found leads.role) leads.role leads.hastened.stopped still,
    fun r mem => ?_⟩
  rcases Nat.eq_or_lt_of_le leads.begun with now | later
  · obtain ⟨n, there⟩ := List.getElem?_of_mem mem
    have stuck := still (.retry n)
    simp only [Client.step, Client.consumerStep, leads.role, Option.map_eq_none_iff] at stuck
    exact Consumer.hastenedStuck leads.hastened now.symm there stuck
  · exact (leads.hasted later).2 r mem

theorem proceedsTime {t : Instant} (proceeds : x.Proceeds notes w) (later : w.env.now ≤ t)
    (prompt : World.Prompt w (w.advance t)) : x.Proceeds notes (w.advance t) := by
  obtain ⟨c, k, found, leads, books⟩ := proceeds.client
  refine ⟨World.exercisedRun proceeds.exercised (.single (.time w later)),
    ⟨⟨proceeds.undisturbed.owned.level, proceeds.undisturbed.owned.owns⟩,
      proceeds.undisturbed.openings, proceeds.undisturbed.clients⟩,
    ⟨c, k, found, ?_, books⟩, proceeds.noted⟩
  rcases Nat.eq_or_lt_of_le later with rfl | later
  · exact leads
  obtain ⟨quiet, timers⟩ := prompt later
  have still := World.stillOf quiet found
  obtain ⟨y, here, stage⟩ := leads.stage
  have stuck := still (.call x.call)
  simp only [Client.step, Client.callStep, here, leads.role, Option.map_eq_none_iff] at stuck
  refine {
    role := leads.role
    topology := leads.topology
    lulled := leads.lulled
    hastened := leads.hastened
    begun := Nat.le_trans leads.begun (Nat.le_of_lt later)
    hasted := fun _ => leadsStill leads proceeds.exercised found quiet
    calls := leads.calls
    stage := ⟨y, here, ?_⟩
    inside := leads.inside
    accepting := leads.accepting }
  rcases stageStuck stage (fun after => (leads.hasted after).2) stuck with rfl | ⟨rfl, early⟩
  · obtain ⟨-, late, closed, reaped, shut⟩ := stageDone stage
    exact .done (Nat.le_trans late (Nat.le_of_lt later)) closed reaped shut
  · have timed : x.ends ∈ w.timers := by
      refine List.mem_append_right _ (List.mem_flatMap.mpr ⟨c, List.mem_of_getElem? found, ?_⟩)
      refine List.mem_append_left _ (List.mem_append_left _ (List.mem_filterMap.mpr ?_))
      exact ⟨_, List.mem_of_getElem? here, rfl⟩
    cases stage with
    | grace _ connected link sound => exact .grace (timers _ timed early) connected link sound

end Departure

namespace World

variable {l : Link}

structure AtRest (i : Nat) (c : Client) (k : Consumer) (w : World Memory) : Prop where
  quiet : w.Quiet
  found : w.clients[i]? = some c
  role : c.role = .consumer k
  held : c.held = true
  unclosed : c.Unclosed
  connected : c.supervisor.isConnected w.env.broker = true
  workers : ∀ x ∈ k.workers, x.phase.finished = true
  retries : ∀ r ∈ k.retries, r.phase.rests = true ∨ r.phase.finished = true
  accepting : w.env.broker.failing = false ∧ w.env.broker.stalled = false

def departure (i : Nat) (c : Client) (k : Consumer) (l : Link) (w : World Memory) : Departure where
  client := i
  call := c.calls.length
  told := w.env.now
  link := l
  topology := c.supervisor.topology
  copies := k.unsent

theorem restLink (rest : w.AtRest i c k) :
    ∃ l, c.supervisor.session.link? = some l ∧ c.supervisor.session.state = .connected ∧
      ∀ r, w.env.broker.store.openAt r (l.id r) := by
  have connected := rest.connected
  unfold Supervisor.isConnected Session.healthy at connected
  obtain ⟨both, channel⟩ := Bool.and_eq_true_iff.mp connected
  obtain ⟨state, connection⟩ := Bool.and_eq_true_iff.mp both
  obtain ⟨n, holds, first⟩ := (Option.any_eq_true _ _).mp connection
  obtain ⟨h, has, second⟩ := (Option.any_eq_true _ _).mp channel
  refine ⟨⟨n, h⟩, ?_, eq_of_beq state, fun r => ?_⟩
  · unfold Session.link?
    rw [holds, has]
  · cases r with
    | connection => exact first
    | channel => exact second

theorem restFree (exercised : w.Exercised) (rest : w.AtRest i c k) : k.lock = none :=
  Client.unlockedStill (lockedReachable (exercisedReachable exercised) rest.found rest.role)
    rest.role (stillOf rest.quiet rest.found)

theorem restRunning (exercised : w.Exercised) (rest : w.AtRest i c k) : k.stopped = false :=
  (runsReachable (exercisedReachable exercised) rest.found k rest.role rest.unclosed).stopped

theorem restCalled (exercised : w.Exercised) (rest : w.AtRest i c k) :
    (w.call i (.closeConsumer .locking)).Exercised :=
  exercisedRun exercised (.single (.call w rest.found rest.held (by rw [rest.role]; trivial)))

theorem restHastened (exercised : w.Exercised) (rest : w.AtRest i c k) :
    { k with lock := none, consuming := false, stopped := true }.Hastened w.env.now l.channel where
  stopped := rfl
  loops p mem := by
    obtain ⟨n, there⟩ := List.getElem?_of_mem mem
    have stuck := stillOf rest.quiet rest.found (.loop n)
    simp only [Client.step, Client.consumerStep, rest.role, Option.map_eq_none_iff] at stuck
    exact (Consumer.windsStuck (k := k) there (restFree exercised rest) stuck).1
  workers := rest.workers
  retries r mem := by
    rcases rest.retries r mem with rests | finished
    · cases here : r.phase with
      | waiting ends => exact .waiting ends
      | pausing ends => exact .pausing ends
      | _ => rw [here] at rests; cases rests
    · cases here : r.phase with
      | done confirmed => exact .done confirmed
      | _ => rw [here] at finished; cases finished

theorem restCalls (exercised : w.Exercised) (rest : w.AtRest i c k) :
    ∀ y ∈ c.calls, ∃ o, y = .start (.done o) := by
  intro y mem
  obtain ⟨z, rfl⟩ := rest.unclosed y mem
  obtain ⟨n, here⟩ := List.getElem?_of_mem mem
  have stuck := stillOf rest.quiet rest.found (.call n)
  simp only [Client.step, Client.callStep, here, rest.role, Option.map_eq_none_iff] at stuck
  rcases Consumer.startStuck stuck with ⟨o, rfl⟩ | ⟨-, taken⟩
  · exact ⟨o, rfl⟩
  · exact absurd (restFree exercised rest) taken

theorem proceedsRaised (rest : w.AtRest i c k) (exercised : w.Exercised)
    (link : c.supervisor.session.link? = some l)
    (connected : c.supervisor.session.state = .connected)
    (sound : ∀ r, w.env.broker.store.openAt r (l.id r))
    (v : World Memory) (same : v = w.asked i (.grace (w.env.now + Consumer.closeGrace))
      { k with lock := none, consuming := false, stopped := true } c) (after : v.Exercised) :
    (w.departure i c k l).Proceeds [] v := by
  subst same
  have undisturbed := undisturbedQuiet (ownedExercised exercised) rest.quiet
  have still := stillOf rest.quiet rest.found
  have place : i < w.clients.length := (List.getElem?_eq_some_iff.mp rest.found).1
  have coherent := Supervisor.coherentReachable (exercisedReachable exercised) rest.found
  refine ⟨after, ⟨ownedExercised after, undisturbed.openings, fun b mem => ?_⟩,
    ⟨_, { k with lock := none, consuming := false, stopped := true },
      List.getElem?_set_self place, ?_, [], rfl, .refl _⟩, fun b o there here => ?_⟩
  · rcases List.mem_or_eq_of_mem_set mem with old | rfl
    · exact undisturbed.clients b old
    · exact undisturbed.clients c (List.mem_of_getElem? rest.found)
  · exact {
      role := rfl
      topology := rfl
      lulled := Supervisor.lulledStill coherent connected
        (Option.map_eq_none_iff.mp (still .recovery))
        fun n => Option.map_eq_none_iff.mp (still (.watcher n))
      hastened := restHastened exercised rest
      begun := Nat.le_refl _
      hasted := fun later => absurd later (Nat.lt_irrefl _)
      calls := fun n y here => by
        unfold Client.asked at here
        dsimp only at here
        rw [List.getElem?_append] at here
        split at here
        · exact .inr (restCalls exercised rest y (List.mem_of_getElem? here))
        · rename_i beyond
          refine .inl (Nat.le_antisymm (Nat.le_of_not_lt fun further => ?_) (Nat.le_of_not_lt beyond))
          rw [List.getElem?_eq_none (Nat.sub_pos_of_lt further)] at here
          cases here
      stage := ⟨_, Client.askedLast, .grace (Nat.le_add_right _ _) connected link sound⟩
      inside := fun r => Store.insideOfOpen (sound r)
      accepting := rest.accepting }
  · cases (List.getElem?_set_self place).symm.trans there
    cases Client.askedLast.symm.trans here

theorem proceedsRun (exercised : w.Exercised) (rest : w.AtRest i c k)
    (link : c.supervisor.session.link? = some l)
    (connected : c.supervisor.session.state = .connected)
    (sound : ∀ r, w.env.broker.store.openAt r (l.id r))
    (run : Noted (fun w v => Passing w v ∧ Prompt w v) i (w.call i (.closeConsumer .locking))
      notes v) :
    (notes = [] ∧ ∃ y m, Consumer.Entering c.calls.length k y m ∧ v = w.asked i y m c) ∨
      (w.departure i c k l).Proceeds notes v := by
  have free := restFree exercised rest
  induction run with
  | start => exact .inl ⟨rfl, _, _, .locking, callAsked rest.found rest.role⟩
  | @own _ new v u _ _ before made wrote ih =>
    rcases ih with ⟨rfl, y, m, entering, rfl⟩ | proceeds
    · have after : u.Exercised := by
        have old := runOfNoted (fun _ _ made => ⟨.act made, promptAct made⟩) before
        exact exercisedRun (restCalled exercised rest)
          ((old.map fun _ _ h => passingUse h.1).next (.act ⟨_, _, made⟩))
      rcases askedStep rest.quiet rest.found rest.role free (restRunning exercised rest) entering made
        with ⟨z, n, further, rfl⟩ | raised
      · cases List.self_eq_append_left.mp wrote
        exact .inl ⟨rfl, z, n, further, rfl⟩
      · have same := raised
        subst raised
        cases List.self_eq_append_left.mp wrote
        exact .inr (proceedsRaised rest exercised link connected sound _ same after)
    · exact .inr (Departure.proceedsOwn proceeds made wrote)
  | other _ last apart ih =>
    obtain ⟨passing, prompt⟩ := last
    rcases ih with ⟨rfl, y, m, entering, rfl⟩ | proceeds
    · have same := Consumer.enteringUnguarded entering
      cases passing with
      | act made =>
        obtain ⟨a, preferStop, made⟩ := made
        cases askedAlone rest.quiet rest.found rest.role free same made
        exact absurd made (apart _ _)
      | @time t later =>
        rcases Nat.eq_or_lt_of_le later with rfl | later
        · exact .inl ⟨rfl, y, m, entering, rfl⟩
        · exact absurd (prompt later).1 (askedBusy rest.found free entering)
    · cases passing with
      | act made => exact .inr (Departure.proceedsOther proceeds made apart)
      | time later => exact .inr (Departure.proceedsTime proceeds later prompt)

end World

namespace Departure

def Ended (x : Departure) (v : World Memory) (o : Outcome) : Prop :=
  ∃ c, v.clients[x.client]? = some c ∧
    c.calls[x.call]? = some (.closeConsumer (.closing (.done o)))

theorem goneEnded {o : Outcome} (proceeds : x.Proceeds notes v) (ended : x.Ended v o) :
    o = .ok () ∧ x.ends ≤ v.env.now ∧ x.returned ∈ notes ∧
      (∀ r, ¬ v.env.broker.store.openAt r (x.link.id r)) ∧
      ∃ c k, v.clients[x.client]? = some c ∧ c.role = .consumer k ∧ c.Gone k := by
  obtain ⟨c, there, here⟩ := ended
  obtain ⟨b, k, found, leads, -⟩ := proceeds.client
  cases there.symm.trans found
  obtain ⟨y, calling, stage⟩ := leads.stage
  cases here.symm.trans calling
  obtain ⟨rfl, late, closed, reaped, shut⟩ := stageDone stage
  have later : x.told < v.env.now :=
    Nat.lt_of_lt_of_le (Nat.lt_add_of_pos_right (by decide)) late
  obtain ⟨retired, retries⟩ := leads.hasted later
  have reached := World.exercisedReachable proceeds.exercised
  obtain ⟨coherent, closings⟩ := Client.closingsReachable reached found
  refine ⟨rfl, late, proceeds.noted c _ found here, shut, c, k, found, leads.role, retired,
    leads.hastened.workers, retries, reaped, fun z mem => ?_, coherent, closed, closings.halted closed⟩
  obtain ⟨n, place⟩ := List.getElem?_of_mem mem
  rcases leads.calls n z place with rfl | ⟨o, rfl⟩
  · cases here.symm.trans place
    rfl
  · trivial

def Silent (x : Departure) (notes : List Entry) (v : World Memory) : Prop :=
  published notes = [] ∧ ∃ c k, v.clients[x.client]? = some c ∧ c.role = .consumer k ∧
    ∀ n y, c.calls[n]? = some (.closeConsumer y) →
      (∀ o, y = .closing (.done o) → o = .ok ()) ∧
      (v.Quiet → y = .closing (.done (.ok ()))) ∧
      ∀ preferStop u, v.step (.client x.client (.call n)) preferStop = some u →
        World.Idles x.client n c k v u

structure Closes (x : Departure) (notes : List Entry) (v : World Memory) : Prop where
  once : ∃ left, (published notes ++ left).Perm (x.copies.map x.copy)
  all : v.Quiet ∨ x.told < v.env.now → (published notes).Perm (x.copies.map x.copy)
  returns : x.ends < v.env.now ∨ (x.ends ≤ v.env.now ∧ v.Quiet) → x.Ended v (.ok ())
  ended : ∀ o, x.Ended v o → o = .ok () ∧ x.ends ≤ v.env.now ∧ x.returned ∈ notes ∧
    ∀ r, ¬ v.env.broker.store.openAt r (x.link.id r)
  after : ∀ o more u, x.Ended v o → World.Noted (World.Use Commanded) x.client v more u →
    x.Silent more u

theorem closesEntering {l : Link} (exercised : w.Exercised) (rest : w.AtRest i c k)
    (entering : Consumer.Entering c.calls.length k y m) :
    (w.departure i c k l).Closes [] (w.asked i y m c) := by
  have free := World.restFree exercised rest
  have place : i < w.clients.length := (List.getElem?_eq_some_iff.mp rest.found).1
  have busy := World.askedBusy rest.found free entering
  have going {o : Outcome} (ended : (w.departure i c k l).Ended (w.asked i y m c) o) : False := by
    obtain ⟨b, there, here⟩ := ended
    cases (List.getElem?_set_self place).symm.trans there
    cases Client.askedLast.symm.trans here
    cases entering
  refine ⟨⟨_, .refl _⟩, fun later => ?_, fun later => ?_, fun o ended => (going ended).elim,
    fun o _ _ ended => (going ended).elim⟩
  · rcases later with quiet | later
    · exact (busy quiet).elim
    · exact absurd later (Nat.lt_irrefl _)
  · rcases later with later | ⟨-, quiet⟩
    · exact absurd later (Nat.not_lt.mpr (Nat.le_add_right _ _))
    · exact (busy quiet).elim

theorem closesProceeds (proceeds : x.Proceeds notes v) : x.Closes notes v := by
  obtain ⟨c, k, found, leads, sent, books, all⟩ := proceeds.client
  have copied : (published notes ++ k.unsent.map x.copy).Perm (x.copies.map x.copy) := by
    rw [books, ← List.map_append]
    exact all.map _
  obtain ⟨y, here, stage⟩ := leads.stage
  refine ⟨⟨_, copied⟩, fun later => ?_, fun later => ?_, fun o ended => ?_,
    fun o more u ended run => ?_⟩
  · have finished : ∀ r ∈ k.retries, r.phase.finished = true := by
      rcases later with quiet | later
      · exact (leadsStill leads proceeds.exercised found quiet).2
      · exact (leads.hasted later).2
    have none : k.unsent = [] := by
      refine List.flatMap_eq_nil_iff.mpr fun r mem => ?_
      have ended := finished r mem
      unfold Consumer.RetryTask.due
      cases phase : r.phase with
      | done confirmed => rfl
      | _ => rw [phase] at ended; cases ended
    rw [none, List.map_nil, List.append_nil] at copied
    exact copied
  · suffices ended : y = .closing (.done (.ok ())) from ⟨c, found, ended ▸ here⟩
    rcases later with later | ⟨late, quiet⟩
    · refine Classical.byContradiction fun other => ?_
      refine absurd later (Nat.not_lt.mpr (stageDue stage fun o same => other ?_))
      rw [same] at stage ⊢
      rw [(stageDone stage).1]
    · have stuck := World.stillOf quiet found (.call x.call)
      simp only [Client.step, Client.callStep, here, leads.role, Option.map_eq_none_iff] at stuck
      refine (stageStuck stage (fun after => (leads.hasted after).2) stuck).resolve_right ?_
      exact fun early => absurd late (Nat.not_le.mpr early.2)
  · obtain ⟨well, late, noted, shut, -⟩ := goneEnded proceeds ended
    exact ⟨well, late, noted, shut⟩
  · obtain ⟨-, -, -, -, b, l, there, role, gone⟩ := goneEnded proceeds ended
    obtain ⟨none, d, m, place, same, still⟩ := World.goneRun there role gone run
    have reached := World.exercisedReachable (World.exercisedRun proceeds.exercised
      (World.runOfNoted (fun _ _ made => .act made) run))
    refine ⟨none, d, m, place, same, fun n z calling => ⟨fun o same => ?_, fun quiet => ?_,
      fun _ _ made => World.goneIdles place same still calling made⟩⟩
    · subst same
      exact still.vain _ (List.mem_of_getElem? calling)
    · exact Client.goneReturned still same (World.lockedReachable reached place same) calling
        (World.stillOf quiet place)

end Departure

namespace World

/-- Closing a sound consumer at rest publishes the copies that wait, each once and at once; the call
returns when the grace is over, and that is the last of the consumer. -/
theorem pendingPublishedAtClose (exercised : w.Exercised) (rest : w.AtRest i c k)
    (run : Noted (fun w v => Passing w v ∧ Prompt w v) i (w.call i (.closeConsumer .locking))
      notes v) :
    ∃ l, c.supervisor.session.link? = some l ∧ (w.departure i c k l).Closes notes v := by
  obtain ⟨l, link, connected, sound⟩ := restLink rest
  refine ⟨l, link, ?_⟩
  rcases proceedsRun exercised rest link connected sound run with
    ⟨rfl, y, m, entering, rfl⟩ | proceeds
  · exact Departure.closesEntering exercised rest entering
  · exact Departure.closesProceeds proceeds

def pendingPair : World Memory :=
  let refusing := (failedOnce.command (.failPublishes true)).settle
  let refused := (refusing.advance 2000).settle
  let accepting := (refused.command (.failPublishes false)).settle
  (accepting.command (.deliver "orders" "order" [2] [])).settle

def pendingPairClosed : World Memory :=
  ((pendingPair.call 0 (.closeConsumer .locking)).settle.advance 2100).settle

def pendingReader : Client := pendingPair.clients.get ⟨0, by decide +kernel⟩

def pendingConsumer : Consumer := pendingReader.consumer?.get (by decide +kernel)

theorem pendingPairExercised : pendingPair.Exercised := by
  have refusing := exercisedCommand failedOnceExercised (.failPublishes true)
  have refused := exercisedTime refusing (t := 2000) (by decide +kernel)
  exact exercisedCommand (exercisedCommand refused (.failPublishes false)) _

theorem pendingPairRests : pendingPair.AtRest 0 pendingReader pendingConsumer where
  quiet := quietSeen (by decide +kernel)
  found := rfl
  role := rfl
  held := rfl
  unclosed x mem := by
    have calls : pendingReader.calls = [.start (.done (.ok ()))] := rfl
    rw [calls] at mem
    exact ⟨_, List.mem_singleton.mp mem⟩
  connected := by decide +kernel
  workers := List.all_eq_true.mp (by decide +kernel)
  retries r mem := by
    have rests : (pendingConsumer.retries.all fun r => r.phase.rests) = true := by decide +kernel
    exact .inl (List.all_eq_true.mp rests r mem)
  accepting := ⟨rfl, rfl⟩

theorem pendingPairPublished : ∃ l notes,
    pendingPair.Exercised ∧ pendingPair.AtRest 0 pendingReader pendingConsumer ∧
    pendingConsumer.retries.map Consumer.RetryTask.phase = [.pausing 7000, .waiting 4000] ∧
    Noted (fun w v => Passing w v ∧ Prompt w v) 0 (pendingPair.call 0 (.closeConsumer .locking))
      notes pendingPairClosed ∧
    (pendingPair.departure 0 pendingReader pendingConsumer l).Closes notes pendingPairClosed ∧
    (published notes).Perm (pendingConsumer.unsent.map
      (pendingPair.departure 0 pendingReader pendingConsumer l).copy) ∧
    (pendingPair.departure 0 pendingReader pendingConsumer l).Ended pendingPairClosed (.ok ()) := by
  have acts {w v : World Memory} (run : Run Acts w v) :
      Run (fun w v => Passing w v ∧ Prompt w v) w v :=
    run.map fun _ _ made => ⟨.act made, promptAct made⟩
  have quiet : (pendingPair.call 0 (.closeConsumer .locking)).settle.Quiet :=
    quietSeen (by decide +kernel)
  have timers : ∀ t ∈ (pendingPair.call 0 (.closeConsumer .locking)).settle.timers, 2100 ≤ t := by
    decide +kernel
  have waited : Prompt (pendingPair.call 0 (.closeConsumer .locking)).settle
      ((pendingPair.call 0 (.closeConsumer .locking)).settle.advance 2100) :=
    fun _ => ⟨quiet, fun t mem _ => timers t mem⟩
  have run : Run (fun w v => Passing w v ∧ Prompt w v)
      (pendingPair.call 0 (.closeConsumer .locking)) pendingPairClosed :=
    ((acts (settleActs _)).next ⟨.time _ (by decide +kernel), waited⟩).trans (acts (settleActs _))
  have rests : pendingPairClosed.Quiet := quietSeen (by decide +kernel)
  have late : pendingPair.env.now + Consumer.closeGrace ≤ pendingPairClosed.env.now := by
    decide +kernel
  obtain ⟨notes, noted⟩ := notedOfRun (i := 0) run
  obtain ⟨l, -, closes⟩ := pendingPublishedAtClose pendingPairExercised pendingPairRests noted
  exact ⟨l, notes, pendingPairExercised, pendingPairRests, rfl, noted, closes,
    closes.all (.inl rests), closes.returns (.inr ⟨late, rests⟩)⟩

end World

end AmqpClient
