import AmqpClient.Proofs.Consumer.Rest
import AmqpClient.Proofs.Ownership
/-! Worlds in which clients publish, one client consumes, and nothing goes wrong. -/
namespace AmqpClient

open Broker (Memory Store)

structure Supervisor.Calm (m : Memory) (s : Supervisor) : Prop where
  listening : s.recovery = .listening
  events : s.events = []
  running : s.stopped = false
  quiet : ∀ y ∈ s.watchers, y.phase = .watching → ¬ m.store.fired y.signal

def Opening.Over (o : Opening) : Prop :=
  match o.phase with
  | .failed _ => True
  | .opened _ => True
  | _ => False

structure Client.Aside (x : Desk) (c : Client) : Prop where
  role : c.consumer? = none
  session : c.supervisor.session.channel ≠ some x.channel
  calls : ∀ y ∈ c.calls, ∃ p, y = .publish p ∧ p.phase ≠ .sending x.channel

structure Client.Mans (x : Desk) (m : Memory) (c : Client) : Prop where
  channel : c.supervisor.channel? m = .ok x.channel
  queue : c.supervisor.topology.queueName = x.queue
  exchange : c.supervisor.topology.exchangeName = x.exchange
  key : c.supervisor.topology.routingKey = x.key
  calls : ∀ y ∈ c.calls, ∃ o, y = .start (.done o)

namespace World

inductive Traffic : World Memory → World Memory → Prop where
  | act {w v} (made : Acts w v) : Traffic w v
  | time (w) {t} (later : w.env.now ≤ t) : Traffic w (w.advance t)
  | publish (w) {i c p} (found : w.clients[i]? = some c) (held : c.held = true)
      (opens : Call.Opens c.role (.publish p)) : Traffic w (w.call i (.publish p))
  | letGo (w) (i : Nat) : Traffic w (w.letGo i)

structure Orderly (x : Desk) (w : World Memory) : Prop where
  openings : ∀ o ∈ w.openings, o.Over
  calm : ∀ c ∈ w.clients, c.supervisor.Calm w.env.broker
  others : ∀ i c, w.clients[i]? = some c → i ≠ x.client → c.Aside x

structure Serves (x : Desk) (past since : List Entry) (unread : List Delivery) (c : Client)
    (k : Consumer) (w : World Memory) : Prop where
  orderly : w.Orderly x
  found : w.clients[x.client]? = some c
  mans : c.Mans x w.env.broker
  role : c.role = .consumer k
  journal : w.env.journal = since ++ past
  books : x.Books w.env since unread k
  serving : k.Serving x w.env.now c.supervisor.announced

variable {w v : World Memory}

theorem openingStill (elapsed : ∀ o ∈ w.openings, o.Over) (i : Nat) : w.openingStep i = none := by
  refine Option.eq_none_iff_forall_ne_some.mpr fun v made => ?_
  obtain ⟨o, found, move⟩ := openingMove made
  have elapsed := elapsed o (List.mem_of_getElem? found)
  unfold Opening.Over at elapsed
  cases move <;> simp only [*] at elapsed

theorem timerOfClient {t : Instant} (elapsed : ∀ o ∈ w.openings, o.Over) (mem : t ∈ w.timers) :
    ∃ c ∈ w.clients, t ∈ c.timers := by
  rcases List.mem_append.mp mem with opening | client
  · obtain ⟨o, there, timed⟩ := List.mem_filterMap.mp opening
    have elapsed := elapsed o there
    unfold Opening.Over at elapsed
    split at timed
    · simp only [*] at elapsed
    · cases timed
  · exact List.mem_flatMap.mp client

end World

section

variable {m n : Memory} {s t : Supervisor} {e f : Env Memory}

theorem Supervisor.calmRecovery (calm : s.Calm e.broker) (alive preferStop : Bool) :
    s.recoveryStep alive preferStop e = none := by
  unfold recoveryStep
  rw [calm.listening]
  dsimp only
  rw [calm.events]
  dsimp only
  rw [calm.running]
  rfl

theorem Supervisor.calmWatcher (calm : s.Calm e.broker) (i : Nat) (preferStop : Bool) :
    s.watcherStep i preferStop e = none := by
  refine Option.eq_none_iff_forall_ne_some.mpr fun (f, t) made => ?_
  cases (watcherMove made).2 with
  | report found here fired => exact calm.quiet _ (List.mem_of_getElem? found) here fired
  | quit found here stopped => cases calm.running.symm.trans stopped

theorem Supervisor.calmSame (same : Store.SameLinks m.store n.store) (calm : s.Calm m) :
    s.Calm n where
  listening := calm.listening
  events := calm.events
  running := calm.running
  quiet y mem watching fired := calm.quiet y mem watching ((Store.sameFired same y.signal).mp fired)

end

namespace Client

variable {x : Desk} {e f : Env Memory} {c d : Client} {k : Consumer} {since : List Entry}
  {unread : List Delivery}

theorem mansMove (exact_ : x.Exact) (mans : c.Mans x e.broker) (calm : c.supervisor.Calm e.broker)
    (role : c.role = .consumer k) (books : x.Books e since unread k)
    (serving : k.Serving x e.now c.supervisor.announced) (move : Move e c f d) :
    ∃ new left l, d.supervisor = c.supervisor ∧ d.calls = c.calls ∧ d.role = .consumer l ∧
      Store.SameLinks e.broker.store f.broker.store ∧ f.journal = new ++ e.journal ∧
      x.Books f (new ++ since) left l ∧ l.Serving x e.now c.supervisor.announced ∧
      l.load x left < k.load x unread := by
  cases move with
  | recovery made => cases (Supervisor.calmRecovery calm _ _).symm.trans made
  | watcher made => cases (Supervisor.calmWatcher calm _ _).symm.trans made
  | loop mine made =>
    cases role.symm.trans mine
    obtain ⟨j, found, move⟩ := Consumer.loopMove made
    obtain ⟨new, left, journal, kept⟩ :=
      Desk.booksLoop books serving mans.channel mans.queue found move
    exact ⟨new, left, _, rfl, rfl, rfl, sameLoop move, journal, kept⟩
  | worker mine made =>
    cases role.symm.trans mine
    obtain ⟨y, found, move⟩ := Consumer.workerMove made
    obtain ⟨new, journal, kept⟩ := Desk.booksWorker exact_ books serving found move
    exact ⟨new, unread, _, rfl, rfl, rfl, sameWorker move, journal, kept⟩
  | retry mine made =>
    cases role.symm.trans mine
    obtain ⟨r, q, found, move, rfl⟩ := Consumer.retryStepSource made
    obtain ⟨new, left, journal, kept⟩ :=
      Desk.booksRetry books serving found mans.channel mans.exchange mans.key move
    exact ⟨new, left, _, rfl, rfl, rfl, sameRetry move, journal, kept⟩
  | publish here made =>
    obtain ⟨o, same⟩ := mans.calls _ (List.mem_of_getElem? here)
    cases same
  | close here made =>
    obtain ⟨o, same⟩ := mans.calls _ (List.mem_of_getElem? here)
    cases same
  | start mine here made =>
    obtain ⟨o, same⟩ := mans.calls _ (List.mem_of_getElem? here)
    cases same
    cases made
  | closeConsumer mine here made =>
    obtain ⟨o, same⟩ := mans.calls _ (List.mem_of_getElem? here)
    cases same

theorem asideMove (aside : c.Aside x) (calm : c.supervisor.Calm e.broker)
    (books : x.Books e since unread k) (move : Move e c f d) :
    ∃ new left, d.supervisor = c.supervisor ∧ d.Aside x ∧
      Store.SameLinks e.broker.store f.broker.store ∧ f.journal = new ++ e.journal ∧
      x.Books f (new ++ since) left k ∧ x.backlog left + d.load x < x.backlog unread + c.load x := by
  have none {l : Consumer} (role : c.role = .consumer l) : False := by
    cases (consumerOf role).symm.trans aside.role
  cases move with
  | recovery made => cases (Supervisor.calmRecovery calm _ _).symm.trans made
  | watcher made => cases (Supervisor.calmWatcher calm _ _).symm.trans made
  | loop role made => exact (none role).elim
  | worker role made => exact (none role).elim
  | retry role made => exact (none role).elim
  | @publish _ _ q _ here made =>
    obtain ⟨p, same, other⟩ := aside.calls _ (List.mem_of_getElem? here)
    cases same
    obtain ⟨new, left, journal, kept, less⟩ := Desk.booksPublication books other made
    refine ⟨new, left, rfl, ⟨aside.role, aside.session, fun y mem => ?_⟩, samePublication made,
      journal, kept, ?_⟩
    · rcases memSet here mem with rfl | ⟨j, -, old⟩
      · exact ⟨_, rfl, Desk.publicationApart aside.session made⟩
      · exact aside.calls y (List.mem_of_getElem? old)
    · have changed := totalSet (f := Call.load x) (y := .publish q) here
      unfold Client.load setCall
      dsimp only [Call.load] at changed ⊢
      omega
  | close here made =>
    obtain ⟨p, same, -⟩ := aside.calls _ (List.mem_of_getElem? here)
    cases same
  | start role here made => exact (none role).elim
  | closeConsumer role here made => exact (none role).elim

end Client

namespace World

variable {x : Desk} {w v : World Memory} {past since : List Entry} {unread : List Delivery}
  {c : Client} {k : Consumer}

def load (x : Desk) (unread : List Delivery) (k : Consumer) (w : World Memory) : Nat :=
  k.load x unread + total (Client.load x) w.clients

theorem channelSame {m n : Memory} {s : Supervisor} (same : Store.SameLinks m.store n.store) :
    s.channel? n = s.channel? m := by
  have connections : Broker.connectionOpen n = Broker.connectionOpen m := by
    funext i
    change n.store.connectionOpen i = m.store.connectionOpen i
    unfold Store.connectionOpen
    rw [same.connections]
  have channels : Broker.channelOpen n = Broker.channelOpen m := by
    funext i
    change n.store.channelOpen i = m.store.channelOpen i
    unfold Store.channelOpen
    rw [same.channels]
  unfold Supervisor.channel? Session.channel? Session.healthy
  rw [connections, channels]

theorem booksRecordEnd {e : Env Memory} {i : Nat} {a : Activity} {d : Client}
    (books : x.Books e since unread k) : ∃ new, (recordEnd i a d e).journal = new ++ e.journal ∧
      x.Books (recordEnd i a d e) (new ++ since) unread k := by
  unfold recordEnd
  split
  · split
    · rename_i o _
      refine ⟨[⟨e.now, .ended i _ o⟩], rfl, ?_⟩
      refine Desk.booksStep books rfl books.feeds books.accepting books.distinct books.numbered
        ⟨[], (List.append_nil _).symm⟩ ?_ ?_ fun a => ?_
      · intro a mem c tag s o fact
        cases List.mem_singleton.mp mem
        cases fact
      · intro a mem
        cases List.mem_singleton.mp mem
        rfl
      · exact Nat.zero_add _
    · exact ⟨[], rfl, books⟩
  · exact ⟨[], rfl, books⟩

theorem orderlySet {i : Nat} {b d : Client} {f : Env Memory} (orderly : w.Orderly x)
    (found : w.clients[i]? = some b)
    (same : Store.SameLinks w.env.broker.store f.broker.store)
    (supervisor : d.supervisor = b.supervisor) (aside : i ≠ x.client → d.Aside x) :
    Orderly x { w with env := f, clients := w.clients.set i d } where
  openings := orderly.openings
  calm a mem := by
    rcases memSet found mem with rfl | ⟨j, -, old⟩
    · rw [supervisor]
      exact Supervisor.calmSame same (orderly.calm b (List.mem_of_getElem? found))
    · exact Supervisor.calmSame same (orderly.calm a (List.mem_of_getElem? old))
  others j a there other := by
    by_cases here : i = j
    · subst here
      dsimp only at there
      rw [List.getElem?_set_self (List.getElem?_eq_some_iff.mp found).1] at there
      cases there
      exact aside other
    · exact orderly.others j a ((List.getElem?_set_ne here).symm.trans there) other

theorem mansSame {m n : Memory} {d : Client} (same : Store.SameLinks m.store n.store)
    (supervisor : d.supervisor = c.supervisor) (calls : d.calls = c.calls) (mans : c.Mans x m) :
    d.Mans x n where
  channel := by rw [channelSame same, supervisor]; exact mans.channel
  queue := by rw [supervisor]; exact mans.queue
  exchange := by rw [supervisor]; exact mans.exchange
  key := by rw [supervisor]; exact mans.key
  calls := by rw [calls]; exact mans.calls

theorem servesAct (exact_ : x.Exact) (serves : w.Serves x past since unread c k) (made : Acts w v) :
    ∃ since left d l, v.Serves x past since left d l ∧ v.load x left l < w.load x unread k := by
  obtain ⟨a, preferStop, made⟩ := made
  cases a with
  | opening i => cases (openingStill serves.orderly.openings i).symm.trans made
  | client i a =>
    have now := nowOfStep made
    obtain ⟨b, f, d, found, stepped, rfl⟩ := clientStepSource made
    have move := Client.clientMove stepped
    have calm := serves.orderly.calm b (List.mem_of_getElem? found)
    have broker := brokerRecordEnd i a d f
    by_cases here : i = x.client
    · subst here
      cases serves.found.symm.trans found
      obtain ⟨new, left, l, supervisor, calls, role, same, journal, kept, goes, less⟩ :=
        Client.mansMove exact_ serves.mans calm serves.role serves.books serves.serving move
      obtain ⟨more, noted, kept⟩ := booksRecordEnd (i := x.client) (a := a) (d := d) kept
      have same : Store.SameLinks w.env.broker.store
          (recordEnd x.client a d f).broker.store := broker ▸ same
      refine ⟨more ++ (new ++ since), left, d, l, ?_, ?_⟩
      case refine_2 =>
        have idle : d.load x = c.load x := congrArg (total (Call.load x)) calls
        have changed := totalSet (f := Client.load x) (y := d) found
        unfold load
        dsimp only
        omega
      exact {
        orderly := orderlySet serves.orderly found same supervisor fun other => absurd rfl other
        found := List.getElem?_set_self (List.getElem?_eq_some_iff.mp found).1
        mans := mansSame same supervisor calls serves.mans
        role := role
        journal := by
          dsimp only
          rw [noted, journal, serves.journal, List.append_assoc, List.append_assoc]
        books := kept
        serving := by rw [supervisor, now]; exact goes }
    · obtain ⟨new, left, supervisor, aside, same, journal, kept, less⟩ :=
        Client.asideMove (serves.orderly.others i b found here) calm serves.books move
      obtain ⟨more, noted, kept⟩ := booksRecordEnd (i := i) (a := a) (d := d) kept
      have same : Store.SameLinks w.env.broker.store (recordEnd i a d f).broker.store :=
        broker ▸ same
      refine ⟨more ++ (new ++ since), left, c, k, ?_, ?_⟩
      case refine_2 =>
        have changed := totalSet (f := Client.load x) (y := d) found
        unfold load Consumer.load
        dsimp only
        omega
      exact {
        orderly := orderlySet serves.orderly found same supervisor fun _ => aside
        found := (List.getElem?_set_ne here).trans serves.found
        mans := mansSame same rfl rfl serves.mans
        role := serves.role
        journal := by
          dsimp only
          rw [noted, journal, serves.journal, List.append_assoc, List.append_assoc]
        books := kept
        serving := by rw [now]; exact serves.serving }

theorem servesResting (serves : w.Serves x past since unread c k) (quiet : w.Quiet) :
    k.Resting w.env.now unread := by
  have still (a : Activity) : c.step a false w.env = none := by
    have stuck := quiet (.client x.client a) false
    unfold step clientStep at stuck
    dsimp only at stuck
    rw [serves.found] at stuck
    exact Option.map_eq_none_iff.mp stuck
  have task (g : Supervisor → Env Memory → Consumer → Option (Env Memory × Consumer))
      (stuck : c.consumerStep g w.env = none) : g c.supervisor w.env k = none := by
    unfold Client.consumerStep at stuck
    rw [serves.role] at stuck
    exact Option.map_eq_none_iff.mp stuck
  exact Desk.restingOf serves.books serves.serving (fun i => task _ (still (.loop i)))
    (fun i => task (fun _ e k => k.workerStep i e) (still (.worker i)))
    (fun i => task _ (still (.retry i)))

theorem retryTimers (serves : w.Serves x past since unread c k) {t : Instant}
    (mem : t ∈ k.retries.filterMap Consumer.RetryTask.timer?) : t ∈ w.timers := by
  refine List.mem_append_right _ (List.mem_flatMap.mpr
    ⟨c, List.mem_of_getElem? serves.found, ?_⟩)
  refine List.mem_append_left _ (List.mem_append_right _ ?_)
  rw [Client.consumerOf serves.role]
  exact List.mem_append_right _ mem

theorem servesTime (serves : w.Serves x past since unread c k) {t : Instant}
    (later : w.env.now ≤ t) (prompt : Prompt w (w.advance t)) :
    (w.advance t).Serves x past since unread c k := by
  rcases Nat.eq_or_lt_of_le later with rfl | later
  · exact serves
  -- time passes only over a world at rest, and not past a copy that is due
  obtain ⟨quiet, timers⟩ := prompt later
  have rest := servesResting serves quiet
  exact {
    orderly := ⟨serves.orderly.openings, serves.orderly.calm, serves.orderly.others⟩
    found := serves.found
    mans := serves.mans
    role := serves.role
    journal := serves.journal
    books := Desk.booksLater serves.books rest (Nat.le_of_lt later)
    serving := Desk.servingLater serves.serving rest fun ends mem =>
      timers ends (retryTimers serves mem) }

theorem servesModify {i : Nat} {g : Client → Client} (serves : w.Serves x past since unread c k)
    (supervisor : ∀ b, (g b).supervisor = b.supervisor) (role : ∀ b, (g b).role = b.role)
    (own : i = x.client → (g c).calls = c.calls)
    (calls : ∀ b, w.clients[i]? = some b → i ≠ x.client → ∀ y ∈ (g b).calls,
      y ∈ b.calls ∨ ∃ p, y = .publish p ∧ p.phase ≠ .sending x.channel) :
    ∃ c, Serves x past since unread c k { w with clients := w.clients.modify i g } := by
  have spot (j : Nat) (b : Client) (there : (w.clients.modify i g)[j]? = some b) :
      ∃ a, w.clients[j]? = some a ∧ (b = a ∨ i = j ∧ b = g a) := by
    rw [List.getElem?_modify] at there
    obtain ⟨a, old, same⟩ := Option.map_eq_some_iff.mp there
    refine ⟨a, old, ?_⟩
    split at same
    · exact .inr ⟨by assumption, same.symm⟩
    · exact .inl same.symm
  have orderly : Orderly x { w with clients := w.clients.modify i g } := {
    openings := serves.orderly.openings
    calm := fun b mem => by
      obtain ⟨j, there⟩ := List.getElem?_of_mem mem
      obtain ⟨a, old, rfl | ⟨-, rfl⟩⟩ := spot j b there
      · exact serves.orderly.calm b (List.mem_of_getElem? old)
      · rw [supervisor]
        exact serves.orderly.calm a (List.mem_of_getElem? old)
    others := fun j b there other => by
      obtain ⟨a, old, rfl | ⟨rfl, rfl⟩⟩ := spot j b there
      · exact serves.orderly.others j b old other
      · have aside := serves.orderly.others i a old other
        refine ⟨?_, by rw [supervisor]; exact aside.session, fun y mem => ?_⟩
        · unfold Client.consumer?
          rw [role]
          exact aside.role
        · rcases calls a old other y mem with had | new
          · exact aside.calls y had
          · exact new }
  have mine : ∃ d, (w.clients.modify i g)[x.client]? = some d ∧ d.supervisor = c.supervisor ∧
      d.role = c.role ∧ d.calls = c.calls := by
    rw [List.getElem?_modify, serves.found]
    split
    · rename_i here
      exact ⟨g c, rfl, supervisor c, role c, own here⟩
    · exact ⟨c, rfl, rfl, rfl, rfl⟩
  obtain ⟨d, found, sameSupervisor, sameRole, sameCalls⟩ := mine
  exact ⟨d, {
    orderly := orderly
    found := found
    mans := mansSame (Store.sameLinksRefl _) sameSupervisor sameCalls serves.mans
    role := sameRole.trans serves.role
    journal := serves.journal
    books := serves.books
    serving := by rw [sameSupervisor]; exact serves.serving }⟩

theorem servesTraffic (exact_ : x.Exact) (serves : w.Serves x past since unread c k)
    (traffic : Traffic w v) (prompt : Prompt w v) :
    ∃ since unread c k, v.Serves x past since unread c k := by
  cases traffic with
  | act made =>
    obtain ⟨since, unread, c, k, kept, -⟩ := servesAct exact_ serves made
    exact ⟨since, unread, c, k, kept⟩
  | time later => exact ⟨since, unread, c, k, servesTime serves later prompt⟩
  | @publish i b p found held opens =>
    have sound : p.phase ≠ .sending x.channel := by
      intro sending
      unfold Call.Opens at opens
      split at opens <;> simp_all
    have other : i ≠ x.client := by
      intro here
      cases serves.found.symm.trans (here ▸ found)
      rw [serves.role] at opens
      exact opens
    obtain ⟨c, kept⟩ := servesModify (i := i)
      (g := fun c => { c with calls := c.calls ++ [.publish p] }) serves (fun b => rfl)
      (fun b => rfl) (fun here => absurd here other) fun b _ _ y mem => by
        rcases List.mem_append.mp mem with had | new
        · exact .inl had
        · exact .inr ⟨p, List.mem_singleton.mp new, sound⟩
    exact ⟨since, unread, c, k, kept⟩
  | letGo i =>
    obtain ⟨c, kept⟩ := servesModify (i := i) (g := fun c => { c with held := false }) serves
      (fun b => rfl) (fun b => rfl) (fun _ => rfl) (fun b _ _ y mem => .inl mem)
    exact ⟨since, unread, c, k, kept⟩

end World

end AmqpClient
