import AmqpClient.Proofs.Closings
/-! How a call that closes a supervisor comes back. From the step at which it takes the session's
pair it closes both and returns the first error of the two; a call that comes after the session was
closed changes nothing and returns without an error. -/
namespace AmqpClient

open scoped List

variable {β : Type} {e f g : Env β}

def firstError (p q : Outcome) : Outcome :=
  match p with
  | .error x => .error x
  | .ok () => q

def Session.link? (s : Session) : Option Link :=
  match s.connection, s.channel with
  | some n, some m => some ⟨n, m⟩
  | _, _ => none

def Env.Since (e f : Env β) (part : List Fact) : Prop :=
  ∃ since, f.facts = since ++ e.facts ∧ part <+ since

inductive Answer (e f : Env β) : Option Link → Outcome → Prop where
  | nothing : Answer e f none (.ok ())
  | closed {l p q}
      (since : e.Since f [.closedConnection l.connection q, .closedChannel l.channel p]) :
      Answer e f (some l) (firstError p q)

inductive Follows (e f : Env β) : Option Link → Closing → Prop where
  | idle : Follows e f none (.releasing .nothing)
  | taken {l} (since : e.Since f []) : Follows e f (some l) (.releasing (.ofLink l))
  | half {l p} (since : e.Since f [.closedChannel l.channel p]) :
      Follows e f (some l)
        (.releasing ⟨none, some l.connection, Release.keepFirst p none⟩)
  | both {l p q}
      (since : e.Since f [.closedConnection l.connection q, .closedChannel l.channel p]) :
      Follows e f (some l)
        (.releasing ⟨none, none, Release.keepFirst q (Release.keepFirst p none)⟩)
  | returned {o r} (answer : Answer e f o r) : Follows e f o (.done r)

def Closing.outcome? : Closing → Option Outcome
  | .done o => some o
  | _ => none

def Closing.Empty : Closing → Prop
  | .releasing r => r = .nothing
  | .done o => o = .ok ()
  | _ => True

namespace Env

theorem sinceGrows {part : List Fact} (since : e.Since f part) (grows : f.Grows g) :
    e.Since g part := by
  obtain ⟨old, same, inside⟩ := since
  obtain ⟨new, more⟩ := grows
  refine ⟨new.map Entry.fact ++ old, ?_, inside.trans (List.sublist_append_right _ _)⟩
  rw [List.append_assoc, ← same]
  unfold facts
  rw [← more, List.map_append]

theorem sinceNote {part : List Fact} {t : Instant} {x : Fact} (since : e.Since f part)
    (noted : g.journal = ⟨t, x⟩ :: f.journal) : e.Since g (x :: part) := by
  obtain ⟨old, same, inside⟩ := since
  exact ⟨x :: old, by rw [factsNote noted, same]; rfl, inside.cons_cons x⟩

end Env

theorem Session.vacateClosed {s : Session} (connection : s.connection = none)
    (channel : s.channel = none) (closed : s.state = .closed) : s.vacate .closed = s := by
  obtain ⟨n, m, state, generation⟩ := s
  cases connection
  cases channel
  cases closed
  rfl

theorem answerGrows {o : Option Link} {r : Outcome} (answer : Answer e f o r) (grows : f.Grows g) :
    Answer e g o r := by
  cases answer with
  | nothing => exact .nothing
  | closed since => exact .closed (Env.sinceGrows since grows)

theorem followsGrows {o : Option Link} {a : Closing} (follows : Follows e f o a)
    (grows : f.Grows g) : Follows e g o a := by
  cases follows with
  | idle => exact .idle
  | taken since => exact .taken (Env.sinceGrows since grows)
  | half since => exact .half (Env.sinceGrows since grows)
  | both since => exact .both (Env.sinceGrows since grows)
  | returned answer => exact .returned (answerGrows answer grows)

theorem answerOf {o : Option Link} {r : Outcome} (follows : Follows e f o (.done r)) :
    Answer e f o r := by
  cases follows with
  | returned answer => exact answer

theorem outcomeFirst (p q : Outcome) {c : Option ChannelId} {n : Option ConnectionId} :
    Release.outcome ⟨c, n, Release.keepFirst q (Release.keepFirst p none)⟩ = firstError p q := by
  cases p <;> cases q <;> rfl

variable [Broker β] {outside : β → β → Prop}

namespace Supervisor

variable {s t : Supervisor} {a b : Closing}

theorem followsMove {o : Option Link} (follows : Follows e f o a)
    (move : ClosingMove f s a g t b) : Follows e g o b := by
  cases move with
  | raise | take => cases follows
  | release move =>
    cases follows with
    | idle =>
      cases move with
      | channel held | connection _ held => cases held
    | taken since =>
      cases move with
      | channel held => cases held; exact .half (Env.sinceNote since rfl)
      | connection first => cases first
    | half since =>
      cases move with
      | channel held => cases held
      | connection first held => cases held; exact .both (Env.sinceNote since rfl)
    | both since =>
      cases move with
      | channel held | connection _ held => cases held
  | released empty =>
    cases follows with
    | idle => exact .returned .nothing
    | taken | half => cases empty
    | both since => rw [outcomeFirst]; exact .returned (.closed since)

omit [Broker β] in
theorem sessionWhole (coherent : s.Coherent) (connected : s.session.state = .connected) :
    ∃ l, s.session.link? = some l ∧ s.session.held = .ofLink l := by
  have whole := beq_iff_eq.mpr connected
  obtain ⟨n, connection⟩ := Option.isSome_iff_exists.mp (coherent.connection.trans whole)
  obtain ⟨m, channel⟩ := Option.isSome_iff_exists.mp (coherent.channel.trans whole)
  refine ⟨⟨n, m⟩, ?_, ?_⟩
  · unfold Session.link?
    rw [connection, channel]
  · unfold Session.held
    rw [connection, channel]
    rfl

omit [Broker β] in
theorem followsTake (coherent : s.Coherent) :
    Follows e e s.session.link? (.releasing s.session.held) := by
  by_cases connected : s.session.state = .connected
  · obtain ⟨l, link, held⟩ := sessionWhole coherent connected
    rw [link, held]
    exact .taken ⟨[], rfl, .slnil⟩
  · have link : s.session.link? = none := by
      unfold Session.link?
      rw [(sessionEmpty coherent connected).1]
    rw [link, heldSession coherent connected]
    exact .idle

theorem emptyMove (coherent : s.Coherent) (closed : s.session.state = .closed)
    (stopped : s.stopped = true) (empty : a.Empty) (move : ClosingMove e s a f t b) :
    f = e ∧ t = s ∧ b.Empty := by
  have lost : s.session.state ≠ .connected := by rw [closed]; nofun
  cases move with
  | raise =>
    refine ⟨rfl, ?_, trivial⟩
    rw [← stopped]
  | take =>
    obtain ⟨connection, channel⟩ := sessionEmpty coherent lost
    rw [Session.vacateClosed connection channel closed]
    exact ⟨rfl, rfl, heldSession coherent lost⟩
  | release move =>
    cases empty
    cases move with
    | channel held | connection first held => cases held
  | released =>
    cases empty
    exact ⟨rfl, rfl, rfl⟩

inductive ClosingChange (e : Env β) (s : Supervisor) (a : Closing) : Env β → Closing → Prop where
  | same {h : Env β} (grows : e.Grows h) : ClosingChange e s a h a
  | step {k h : Env β} {u : Supervisor} {c : Closing} (move : ClosingMove e s a k u c)
      (grows : k.Grows h) : ClosingChange e s a h c

end Supervisor

namespace Client

def OwedBy (j : Nat) (c : Client) : Prop := ∀ k x, c.calls[k]? = some x → x.pending = true → k = j

variable {c d : Client} {j : Nat} {x : Call} {a : Closing}

theorem closingSame {i : Nat} {y z : Call} (here : c.calls[j]? = some x)
    (inside : x.closing? = some a) (there : c.calls[i]? = some y) (other : y.closing? = none) :
    (c.calls.set i z)[j]? = some x := by
  refine (List.getElem?_set_ne fun same => ?_).trans here
  subst same
  cases here.symm.trans there
  rw [other] at inside
  cases inside

theorem closingStepSource {preferStop : Bool} (here : c.calls[j]? = some x)
    (inside : x.closing? = some a) (made : c.step (.call j) preferStop e = some (f, d)) :
    ∃ t y b, Supervisor.ClosingMove e c.supervisor a f t b ∧ y.closing? = some b ∧
      d = { c with supervisor := t, calls := c.calls.set j y } := by
  change c.callStep j e = some (f, d) at made
  cases x with
  | close x =>
    cases inside
    unfold callStep at made
    rw [here] at made
    obtain ⟨⟨f', t, b⟩, stepped, same⟩ := Option.map_eq_some_iff.mp made
    cases same
    exact ⟨t, _, b, Supervisor.closingMove stepped, rfl, rfl⟩
  | closeConsumer x =>
    cases x with
    | closing x =>
      cases inside
      cases role : c.role with
      | consumer k =>
        simp only [callStep, here, role] at made
        obtain ⟨⟨f', t, l, z⟩, stepped, same⟩ := Option.map_eq_some_iff.mp made
        cases same
        cases Consumer.closeMove stepped with
        | closing moved =>
          refine ⟨t, .closeConsumer (.closing _), _, Supervisor.closingMove moved, rfl, ?_⟩
          rw [← role]
          rfl
      | _ => simp [callStep, here, role] at made
    | _ => cases inside
  | _ => cases inside

theorem closingChange (change : Change e c f d) (here : c.calls[j]? = some x)
    (inside : x.closing? = some a) : ∃ y b, d.calls[j]? = some y ∧ y.closing? = some b ∧
      Supervisor.ClosingChange e c.supervisor a f b := by
  have old (calls : d.calls[j]? = some x) (grows : e.Grows f) : ∃ y b, d.calls[j]? = some y ∧
      y.closing? = some b ∧ Supervisor.ClosingChange e c.supervisor a f b :=
    ⟨x, a, calls, inside, .same grows⟩
  have count : j < c.calls.length := (List.getElem?_eq_some_iff.mp here).1
  cases change with
  | same grows => exact old here grows
  | letGo => exact old here (Env.growsRefl e)
  | call => exact old ((List.getElem?_append_left count).trans here) (Env.growsRefl e)
  | step made grows =>
    have move := clientMove made
    have more := Env.growsTrans (growsOfMove move) grows
    cases move with
    | recovery | watcher | loop | worker | retry => exact old here more
    | publish there | start _ there => exact old (closingSame here inside there rfl) more
    | @close i z b _ t there stepped =>
      by_cases same : i = j
      · subst same
        cases here.symm.trans there
        cases inside
        exact ⟨_, b, List.getElem?_set_self count, rfl,
          .step (Supervisor.closingMove stepped) grows⟩
      · exact old ((List.getElem?_set_ne same).trans here) more
    | @closeConsumer i z y k l h t role there stepped =>
      by_cases same : i = j
      · subst same
        cases here.symm.trans there
        cases Consumer.closeMove stepped with
        | closing moved =>
          cases inside
          exact ⟨_, _, List.getElem?_set_self count, rfl, .step (Supervisor.closingMove moved) grows⟩
        | _ => cases inside
      · exact old ((List.getElem?_set_ne same).trans here) more

theorem owesBack (coherent : c.supervisor.Coherent) (closed : c.supervisor.session.state = .closed)
    (change : Change e c f d) {y : Call} (there : d.calls[j]? = some y)
    (owes : y.pending = true) : ∃ x, c.calls[j]? = some x ∧ x.pending = true := by
  have replaced {i : Nat} {x z : Call} (here : c.calls[i]? = some x)
      (there : (c.calls.set i z)[j]? = some y) (back : z.pending = true → x.pending = true) :
      ∃ x, c.calls[j]? = some x ∧ x.pending = true := by
    by_cases same : i = j
    · subst same
      rw [List.getElem?_set_self (List.getElem?_eq_some_iff.mp here).1] at there
      cases there
      exact ⟨x, here, back owes⟩
    · exact ⟨y, (List.getElem?_set_ne same).symm.trans there, owes⟩
  have closing {a b : Closing} {t : Supervisor} {g : Env β}
      (move : Supervisor.ClosingMove e c.supervisor a g t b) (full : b.held.pending = true) :
      a.held.pending = true := by
    cases move with
    | raise | released => cases full
    | take =>
      rw [Supervisor.heldSession coherent (by rw [closed]; nofun)] at full
      cases full
    | release move => exact Release.pendingMove move
  cases change with
  | same | letGo => exact ⟨y, there, owes⟩
  | @call x held opens =>
    rw [List.getElem?_append] at there
    split at there
    · exact ⟨y, there, owes⟩
    · obtain ⟨_, same⟩ := List.getElem?_eq_some_iff.mp there
      have new : x = y := by simpa using same
      subst new
      unfold Call.pending at owes
      rw [World.heldOpens opens] at owes
      cases owes
  | step made grows =>
    cases clientMove made with
    | recovery | watcher | loop | worker | retry => exact ⟨y, there, owes⟩
    | publish here | start _ here => exact replaced here there nofun
    | close here stepped => exact replaced here there (closing (Supervisor.closingMove stepped))
    | closeConsumer _ here stepped =>
      refine replaced here there ?_
      cases Consumer.closeMove stepped with
      | closing moved => exact closing (Supervisor.closingMove moved)
      | _ => nofun

end Client

namespace World

variable {w v u : World β} {i j : Nat} {c : Client} {x : Call} {a : Closing}

theorem closingUse (h : Use outside w v) (found : w.clients[i]? = some c)
    (here : c.calls[j]? = some x) (inside : x.closing? = some a) :
    ∃ d y b, v.clients[i]? = some d ∧ d.calls[j]? = some y ∧ y.closing? = some b ∧
      Supervisor.Change w.env c.supervisor v.env d.supervisor ∧
      Supervisor.ClosingChange w.env c.supervisor a v.env b := by
  obtain ⟨d, still⟩ := useKeeps h found
  have change := useSame h found still
  obtain ⟨y, b, there, within, moved⟩ := Client.closingChange change here inside
  exact ⟨d, y, b, still, there, within, Supervisor.changeOf change, moved⟩

theorem followsRun {o : Option Link} (run : Run (Use outside) v u) (found : v.clients[i]? = some c)
    (here : c.calls[j]? = some x) (inside : x.closing? = some a)
    (follows : Follows w.env v.env o a) :
    ∃ d y b, u.clients[i]? = some d ∧ d.calls[j]? = some y ∧ y.closing? = some b ∧
      Follows w.env u.env o b := by
  induction run with
  | refl => exact ⟨c, x, a, found, here, inside, follows⟩
  | next _ last ih =>
    obtain ⟨d, y, b, there, call, within, so⟩ := ih
    obtain ⟨d, y, b, there, call, within, -, change⟩ := closingUse last there call within
    refine ⟨d, y, b, there, call, within, ?_⟩
    cases change with
    | same grows => exact followsGrows so grows
    | step move grows => exact followsGrows (Supervisor.followsMove so move) grows

omit [Broker β] in
theorem endOfClosing {y : Call} (there : c.calls[j]? = some y) (within : y.closing? = some a)
    (e : Env β) : recordEnd i (.call j) c e = match a.outcome? with
      | some o => e.record (.ended i j o)
      | none => e := by
  have result : y.result? = a.outcome?.map .returned := by
    unfold Call.closing? at within
    split at within <;> cases within <;> cases a <;> rfl
  unfold recordEnd
  simp only [there, Option.bind_some, result]
  cases a <;> rfl

theorem closingStep (found : w.clients[i]? = some c) (here : c.calls[j]? = some x)
    (inside : x.closing? = some a) {preferStop : Bool}
    (made : w.step (.client i (.call j)) preferStop = some v) :
    ∃ e t y b, Supervisor.ClosingMove w.env c.supervisor a e t b ∧ y.closing? = some b ∧
      v = { w with
        clients := w.clients.set i { c with supervisor := t, calls := c.calls.set j y }
        env := match b.outcome? with
          | some o => e.record (.ended i j o)
          | none => e } := by
  obtain ⟨c', e, d, there, stepped, rfl⟩ := clientStepSource made
  cases found.symm.trans there
  obtain ⟨t, y, b, move, within, rfl⟩ := Client.closingStepSource here inside stepped
  have count : j < c.calls.length := (List.getElem?_eq_some_iff.mp here).1
  exact ⟨e, t, y, b, move, within, by rw [endOfClosing (List.getElem?_set_self count) within]⟩

theorem takenAnswered (reached : Reachable outside w) (found : w.clients[i]? = some c)
    (here : c.calls[j]? = some x) (inside : x.closing? = some .taking) {preferStop : Bool}
    (made : w.step (.client i (.call j)) preferStop = some v) (run : Run (Use outside) v u) :
    ∃ d y b, u.clients[i]? = some d ∧ d.calls[j]? = some y ∧ y.closing? = some b ∧
      Follows w.env u.env c.supervisor.session.link? b := by
  have coherent := Supervisor.coherentReachable reached found
  obtain ⟨e, t, y, b, move, within, rfl⟩ := closingStep found here inside made
  cases move
  refine followsRun run (c := { c with
    supervisor := { c.supervisor with session := c.supervisor.session.vacate .closed }
    calls := c.calls.set j y }) (x := y) (List.getElem?_set_self ?_) (List.getElem?_set_self ?_)
    within (Supervisor.followsTake coherent)
  · exact (List.getElem?_eq_some_iff.mp found).1
  · exact (List.getElem?_eq_some_iff.mp here).1

theorem owedRun (reached : Reachable outside w) (run : Run (Use outside) w u)
    (found : w.clients[i]? = some c) (closed : c.supervisor.session.state = .closed)
    (owed : c.OwedBy j) : ∃ d, u.clients[i]? = some d ∧
      d.supervisor.session.state = .closed ∧ d.OwedBy j := by
  induction run with
  | refl => exact ⟨c, found, closed, owed⟩
  | next before last ih =>
    obtain ⟨b, there, closed, owed⟩ := ih
    have coherent := Supervisor.coherentReachable (reachableRun reached before) there
    obtain ⟨d, still⟩ := useKeeps last there
    have change := useSame last there still
    refine ⟨d, still, ?_, fun m y call owes => ?_⟩
    · exact Session.closedChange
        (Supervisor.sessionChange coherent (Supervisor.changeOf change)) closed
    · obtain ⟨x, earlier, pending⟩ := Client.owesBack coherent closed change call owes
      exact owed m x earlier pending

theorem takenOver (reached : Reachable outside w) (found : w.clients[i]? = some c)
    (opened : c.supervisor.session.state ≠ .closed) (here : c.calls[j]? = some x)
    (inside : x.closing? = some .taking) {preferStop : Bool}
    (made : w.step (.client i (.call j)) preferStop = some v) (run : Run (Use outside) v u)
    {d : Client} {y : Call} {o : Outcome} (there : u.clients[i]? = some d)
    (call : d.calls[j]? = some y) (done : y.closing? = some (.done o)) :
    d.supervisor.session.state = .closed ∧ ∀ z ∈ d.calls, z.pending = false := by
  have next : Reachable outside v := reachableNext reached (.act ⟨_, _, made⟩)
  obtain ⟨e, t, z, b, move, within, rfl⟩ := closingStep found here inside made
  cases move
  have place : i < w.clients.length := (List.getElem?_eq_some_iff.mp found).1
  have closings := (Client.closingsReachable reached found).2
  obtain ⟨d', there', closed, owed⟩ := owedRun next run (List.getElem?_set_self place) rfl
    (j := j) fun m y earlier owes => Classical.byContradiction fun other => by
      have old : c.calls[m]? = some y := (List.getElem?_set_ne (Ne.symm other)).symm.trans earlier
      exact opened (closings.taken y (List.mem_of_getElem? old) (Call.pendingStage owes))
  cases there.symm.trans there'
  refine ⟨closed, fun z mem => Bool.eq_false_iff.mpr fun owes => ?_⟩
  obtain ⟨m, place⟩ := List.getElem?_of_mem mem
  cases owed m z place owes
  cases call.symm.trans place
  obtain ⟨r, releasing, -⟩ := Call.releasingOf owes
  rw [done] at releasing
  cases releasing

theorem emptyRun (reached : Reachable outside w) (run : Run (Use outside) w u)
    (found : w.clients[i]? = some c) (closed : c.supervisor.session.state = .closed)
    (here : c.calls[j]? = some x) (inside : x.closing? = some a) (empty : a.Empty) :
    ∃ d y b, u.clients[i]? = some d ∧ d.supervisor.session.state = .closed ∧
      d.calls[j]? = some y ∧ y.closing? = some b ∧ b.Empty := by
  induction run with
  | refl => exact ⟨c, x, a, found, closed, here, inside, empty⟩
  | next before last ih =>
    obtain ⟨d, y, b, there, closed, call, within, empty⟩ := ih
    obtain ⟨coherent, closings⟩ := Client.closingsReachable (reachableRun reached before) there
    obtain ⟨d', y', b', there', call', within', change, moved⟩ := closingUse last there call within
    have still := Session.closedChange (Supervisor.sessionChange coherent change) closed
    refine ⟨d', y', b', there', still, call', within', ?_⟩
    cases moved with
    | same => exact empty
    | step move => exact (Supervisor.emptyMove coherent closed (closings.halted closed) empty move).2.2

structure Passes (i j : Nat) (c : Client) (w v : World β) : Prop where
  openings : v.openings = w.openings
  clients : ∃ y, v.clients = w.clients.set i { c with calls := c.calls.set j y }
  env : v.env = w.env ∨ v.env = w.env.record (.ended i j (.ok ()))

theorem emptyPasses (reached : Reachable outside w) (found : w.clients[i]? = some c)
    (closed : c.supervisor.session.state = .closed) (here : c.calls[j]? = some x)
    (inside : x.closing? = some a) (empty : a.Empty) {preferStop : Bool}
    (made : w.step (.client i (.call j)) preferStop = some v) : Passes i j c w v := by
  obtain ⟨coherent, closings⟩ := Client.closingsReachable reached found
  obtain ⟨e, t, y, b, move, -, rfl⟩ := closingStep found here inside made
  obtain ⟨rfl, rfl, none⟩ := Supervisor.emptyMove coherent closed (closings.halted closed) empty move
  refine ⟨rfl, ⟨y, rfl⟩, ?_⟩
  cases b with
  | done o => cases none; exact .inr rfl
  | _ => exact .inl rfl

end World

end AmqpClient
