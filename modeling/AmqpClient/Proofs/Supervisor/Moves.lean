import AmqpClient.Supervisor
/-! All that the tasks of a supervisor can do in one step, said once. -/
namespace AmqpClient

variable {β : Type} [Broker β]

namespace Release

inductive Move (e : Env β) (r : Release) : Env β → Release → Prop where
  | channel {c} (held : r.channel = some c) :
      Move e r (e.closeChannel c).1
        { r with channel := none, failure := keepFirst (e.closeChannel c).2 r.failure }
  | connection {c} (first : r.channel = none) (held : r.connection = some c) :
      Move e r (e.closeConnection c).1
        { r with connection := none, failure := keepFirst (e.closeConnection c).2 r.failure }

theorem stepMove {e f : Env β} {r q : Release} (h : r.step e = some (f, q)) : Move e r f q := by
  unfold step at h
  split at h
  · rename_i held; cases h; exact .channel held
  · rename_i first held; cases h; exact .connection first held
  · contradiction

end Release

namespace Establish

inductive Move (client : String) (t : Topology) (e : Env β) :
    Establish → Env β → Establish → Prop where
  | start : Move client t e .start (e.beginDial client).1
      (.dialing (e.beginDial client).2 (Instant.afterSleep e.now (Broker.dialTime
        (e.beginDial client).1.broker client)))
  | dialed {number ends f l} (due : ends ≤ e.now) (answer : e.dial client number = (f, .ok l)) :
      Move client t e (.dialing number ends) f (.installing l t.plan)
  | refused {number ends f x} (due : ends ≤ e.now)
      (answer : e.dial client number = (f, .error x)) :
      Move client t e (.dialing number ends) f (.failed x)
  | installed {l} : Move client t e (.installing l []) e (.watchingConnection l)
  | declared {l d rest f} (answer : e.declare l.channel d = (f, .ok ())) :
      Move client t e (.installing l (d :: rest)) f (.installing l rest)
  | undeclared {l d rest f x} (answer : e.declare l.channel d = (f, .error x)) :
      Move client t e (.installing l (d :: rest)) f (.discarding (Release.ofLink l) x)
  | discard {r q x f} (move : Release.Move e r f q) :
      Move client t e (.discarding r x) f (.discarding q x)
  | discarded {r x} (empty : r.step e = none) : Move client t e (.discarding r x) e (.failed x)
  | watchConnection {l} : Move client t e (.watchingConnection l)
      (e.watchConnection l.connection).1 (.watchingChannel l (e.watchConnection l.connection).2)
  | watchChannel {l s} : Move client t e (.watchingChannel l s)
      (e.watchChannel l.channel).1 (.ready l s (e.watchChannel l.channel).2)

theorem stepMove {client : String} {t : Topology} {e f : Env β} {x y : Establish}
    (h : x.step client t e = some (f, y)) : Move client t e x f y := by
  cases x with
  | start => cases h; exact .start
  | dialing number ends =>
    simp only [step] at h
    split at h
    · contradiction
    · rename_i due
      split at h
      · rename_i answer; cases h; exact .dialed (Nat.le_of_not_lt due) answer
      · rename_i answer; cases h; exact .refused (Nat.le_of_not_lt due) answer
  | installing l rest =>
    cases rest with
    | nil => cases h; exact .installed
    | cons d rest =>
      simp only [step] at h
      split at h
      · rename_i answer; cases h; exact .declared answer
      · rename_i answer; cases h; exact .undeclared answer
  | discarding r x =>
    simp only [step] at h
    split at h
    · rename_i made; cases h; exact .discard (Release.stepMove made)
    · rename_i empty; cases h; exact .discarded empty
  | failed => cases h
  | watchingConnection l => cases h; exact .watchConnection
  | watchingChannel l s => cases h; exact .watchChannel
  | ready => cases h

end Establish

namespace Supervisor

inductive RecoveryMove (alive : Bool) (e : Env β) (s : Supervisor) : Env β → Supervisor → Prop where
  | quit (here : s.recovery = .listening) (stopped : s.stopped = true) :
      RecoveryMove alive e s e { s with recovery := .ended }
  | handle {x rest} (here : s.recovery = .listening) (next : s.events = x :: rest)
      (asked : alive = true) : RecoveryMove alive e s e ({ s with events := rest }.handle x)
  | leave {x rest} (here : s.recovery = .listening) (next : s.events = x :: rest)
      (unasked : alive = false) :
      RecoveryMove alive e s e { s with events := rest, recovery := .ended }
  | release {r q f} (here : s.recovery = .releasing r) (move : Release.Move e r f q) :
      RecoveryMove alive e s f { s with recovery := .releasing q }
  | released {r} (here : s.recovery = .releasing r) (empty : r.step e = none) :
      RecoveryMove alive e s e (s.pause e)
  | dial {ends} (here : s.recovery = .pausing ends) (due : ends ≤ e.now) :
      RecoveryMove alive e s e { s with recovery := .establishing .start }
  | giveUp {ends} (here : s.recovery = .pausing ends) (stopped : s.stopped = true) :
      RecoveryMove alive e s e { s with recovery := .listening }
  | adopt {l c h} (here : s.recovery = .establishing (.ready l c h)) :
      RecoveryMove alive e s e (s.adopt l c h)
  | failed {x} (here : s.recovery = .establishing (.failed x)) : RecoveryMove alive e s e (s.pause e)
  | establish {x y f} (here : s.recovery = .establishing x)
      (move : Establish.Move s.client s.topology e x f y) :
      RecoveryMove alive e s f { s with recovery := .establishing y }
  | abandon {r q f} (here : s.recovery = .abandoning r) (move : Release.Move e r f q) :
      RecoveryMove alive e s f { s with recovery := .abandoning q }
  | abandoned {r} (here : s.recovery = .abandoning r) (empty : r.step e = none) :
      RecoveryMove alive e s e { s with recovery := .listening }
  | arm {g c h} (here : s.recovery = .arming g c h) :
      RecoveryMove alive e s e
        { s with watchers := s.watchers ++ watchersFor g c h, recovery := .announcing g }
  | announce {g} (here : s.recovery = .announcing g) :
      RecoveryMove alive e s e { s with announced := g, recovery := .listening }

theorem recoveryMove {alive preferStop : Bool} {e f : Env β} {s t : Supervisor}
    (h : s.recoveryStep alive preferStop e = some (f, t)) : RecoveryMove alive e s f t := by
  unfold recoveryStep at h
  split at h
  case h_1 => contradiction
  case h_2 here =>
    split at h
    · rename_i x rest next
      by_cases quits : (s.stopped && preferStop) = true
      · rw [if_pos quits] at h; cases h
        exact .quit here ((Bool.and_eq_true_iff.mp quits).1)
      · rw [if_neg quits] at h
        cases asked : alive with
        | true => rw [asked, if_pos rfl] at h; cases h; exact .handle here next rfl
        | false => rw [asked, if_neg (by decide)] at h; cases h; exact .leave here next rfl
    · by_cases stopped : s.stopped = true
      · rw [if_pos stopped] at h; cases h; exact .quit here stopped
      · rw [if_neg stopped] at h; cases h
  case h_3 r here =>
    split at h
    · rename_i made; cases h; exact .release here (Release.stepMove made)
    · rename_i empty; cases h; exact .released here empty
  case h_4 ends here =>
    split at h
    · rename_i due
      cases h
      exact .dial here (of_decide_eq_true ((Bool.and_eq_true_iff.mp due).1))
    · split at h
      · cases h; exact .giveUp here (by assumption)
      · contradiction
  case h_5 here => cases h; exact .adopt here
  case h_6 here => cases h; exact .failed here
  case h_7 here =>
    obtain ⟨⟨f', y⟩, made, same⟩ := Option.map_eq_some_iff.mp h
    cases same
    exact .establish here (Establish.stepMove made)
  case h_8 r here =>
    split at h
    · rename_i made; cases h; exact .abandon here (Release.stepMove made)
    · rename_i empty; cases h; exact .abandoned here empty
  case h_9 here => cases h; exact .arm here
  case h_10 here => cases h; exact .announce here

inductive WatcherMove (i : Nat) (e : Env β) (s : Supervisor) : Supervisor → Prop where
  | report {w} (found : s.watchers[i]? = some w) (here : w.phase = .watching)
      (fired : (Broker.signal e.broker w.signal).fired = true) :
      WatcherMove i e s { s.setWatcher i w .reported with
        events := s.events ++
          [⟨w.generation, w.resource, reason (Broker.signal e.broker w.signal)⟩] }
  | quit {w} (found : s.watchers[i]? = some w) (here : w.phase = .watching)
      (stopped : s.stopped = true) : WatcherMove i e s (s.setWatcher i w .stopped)

theorem watcherMove {i : Nat} {preferStop : Bool} {e f : Env β} {s t : Supervisor}
    (h : s.watcherStep i preferStop e = some (f, t)) : f = e ∧ WatcherMove i e s t := by
  unfold watcherStep at h
  split at h
  · contradiction
  rename_i w found
  by_cases here : w.phase = .watching
  · rw [if_neg (by simpa using here)] at h
    dsimp only at h
    split at h
    · rename_i fired; cases h; exact ⟨rfl, .report found here (Bool.and_eq_true_iff.mp fired).1⟩
    · split at h
      · cases h; exact ⟨rfl, .quit found here (by assumption)⟩
      · contradiction
  · rw [if_pos here] at h; cases h

inductive ClosingMove (e : Env β) (s : Supervisor) :
    Closing → Env β → Supervisor → Closing → Prop where
  | raise : ClosingMove e s .raising e { s with stopped := true } .taking
  | take : ClosingMove e s .taking e { s with session := s.session.vacate .closed }
      (.releasing s.session.held)
  | release {r q f} (move : Release.Move e r f q) : ClosingMove e s (.releasing r) f s (.releasing q)
  | released {r} (empty : r.step e = none) : ClosingMove e s (.releasing r) e s (.done r.outcome)

theorem closingMove {e f : Env β} {s t : Supervisor} {x y : Closing}
    (h : s.closeStep e x = some (f, t, y)) : ClosingMove e s x f t y := by
  cases x with
  | raising => cases h; exact .raise
  | taking => cases h; exact .take
  | releasing r =>
    simp only [closeStep] at h
    split at h
    · rename_i made; cases h; exact .release (Release.stepMove made)
    · rename_i empty; cases h; exact .released empty
  | done => cases h

theorem openOfRecovery {alive : Bool} {e f : Env β} {s t : Supervisor}
    (move : RecoveryMove alive e s f t) (closed : t.session.state = .closed) :
    s.session.state = .closed := by
  cases move with
  | handle =>
    unfold handle at closed
    split at closed
    · cases closed
    · exact closed
  | adopt =>
    unfold adopt at closed
    split at closed
    · assumption
    · cases closed
  | _ => exact closed

theorem closedOfChannel {b : β} {s : Supervisor} (h : s.channel? b = .error .closed) :
    s.session.state = .closed := by
  unfold channel? Session.channel? at h
  split at h
  · assumption
  · split at h
    · split at h <;> cases h
    · cases h

theorem closedOfRecovery {alive : Bool} {e f : Env β} {s t : Supervisor}
    (move : RecoveryMove alive e s f t) (closed : s.session.state = .closed) :
    t.session.state = .closed := by
  cases move with
  | handle =>
    unfold handle
    split
    · rename_i current
      rw [closed] at current
      cases current.2
    · exact closed
  | adopt =>
    unfold adopt
    rw [if_pos closed]
    exact closed
  | _ => exact closed

theorem stoppedOfRecovery {alive : Bool} {e f : Env β} {s t : Supervisor}
    (move : RecoveryMove alive e s f t) : t.stopped = s.stopped := by
  cases move with
  | handle => unfold handle; split <;> rfl
  | adopt => unfold adopt; split <;> rfl
  | _ => rfl

theorem topologyOfRecovery {alive : Bool} {e f : Env β} {s t : Supervisor}
    (move : RecoveryMove alive e s f t) : t.topology = s.topology := by
  cases move with
  | handle => unfold handle; split <;> rfl
  | adopt => unfold adopt; split <;> rfl
  | _ => rfl

theorem topologyOfWatcher {i : Nat} {e : Env β} {s t : Supervisor}
    (move : WatcherMove i e s t) : t.topology = s.topology := by
  cases move <;> rfl

theorem delayOfRecovery {alive : Bool} {e f : Env β} {s t : Supervisor}
    (move : RecoveryMove alive e s f t) : t.reconnectDelay = s.reconnectDelay := by
  cases move with
  | handle => unfold handle; split <;> rfl
  | adopt => unfold adopt; split <;> rfl
  | _ => rfl

theorem delayOfWatcher {i : Nat} {e : Env β} {s t : Supervisor}
    (move : WatcherMove i e s t) : t.reconnectDelay = s.reconnectDelay := by
  cases move <;> rfl

theorem stoppedOfWatcher {i : Nat} {e : Env β} {s t : Supervisor}
    (move : WatcherMove i e s t) : t.stopped = s.stopped := by
  cases move <;> rfl

theorem sessionOfWatcher {i : Nat} {e : Env β} {s t : Supervisor}
    (move : WatcherMove i e s t) : t.session = s.session := by
  cases move <;> rfl

theorem recoveryOfClosing {e f : Env β} {s t : Supervisor} {x y : Closing}
    (move : ClosingMove e s x f t y) : t.recovery = s.recovery := by
  cases move <;> rfl

end Supervisor

end AmqpClient
