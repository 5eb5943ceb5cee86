import AmqpClient.Supervisor
/-! The life of a supervisor as a machine of three phases that goes by the clock. It is connected, or
the next dial is due at an instant, or it is closed; nothing else happens to it between two requests
than the dials that come due. -/
namespace AmqpClient

def Declaration.name : Declaration → String
  | .exchange e => e.name
  | .queue q => q.name
  | .bind b => b.queue

structure Account where
  dials : Nat := 0
  declared : List Declaration := []
  failing : Nat := 0
  refused : List String := []
  deriving DecidableEq, Repr

namespace Account

def install : List Declaration → Account → Account × Bool
  | [], a => (a, true)
  | d :: rest, a =>
    if a.refused.contains d.name then (a, false)
    else install rest { a with declared := a.declared ++ [d] }

def dial (plan : List Declaration) (a : Account) : Account × Bool :=
  let a := { a with dials := a.dials + 1 }
  if 0 < a.failing then ({ a with failing := a.failing - 1 }, false) else a.install plan

theorem installAccepted {plan : List Declaration} {a : Account}
    (accepted : ∀ d ∈ plan, a.refused.contains d.name = false) :
    a.install plan = ({ a with declared := a.declared ++ plan }, true) := by
  induction plan generalizing a with
  | nil => simp only [install, List.append_nil]
  | cons d rest ih =>
    have first := accepted d List.mem_cons_self
    have others := ih (a := { a with declared := a.declared ++ [d] })
      fun x mem => accepted x (List.mem_cons_of_mem d mem)
    simp only [install, first, Bool.false_eq_true, if_false, others, List.append_assoc,
      List.singleton_append]

end Account

inductive Lifecycle.Phase where
  | connected
  | reconnecting (due : Nat)
  | closed
  deriving DecidableEq, Repr

def Lifecycle.Phase.state : Phase → SessionState
  | .connected => .connected
  | .reconnecting _ => .reconnecting
  | .closed => .closed

structure Lifecycle where
  plan : List Declaration
  pace : Nat
  now : Nat
  phase : Lifecycle.Phase
  generation : Nat
  account : Account
  deriving DecidableEq, Repr

inductive Request where
  | killConnection (reason : String)
  | killChannel (reason : String)
  | failDials (count : Nat)
  | failDeclare (name : String)
  | advance (milliseconds : Nat)
  | close

namespace Lifecycle

def start (plan : List Declaration) (pace now : Nat) : Lifecycle where
  plan
  pace
  now
  phase := .connected
  generation := 0
  account := { dials := 1, declared := plan }

def retry (m : Lifecycle) : Lifecycle := { m with phase := .reconnecting (m.now + m.pace) }

def conclude (r : Account × Bool) (m : Lifecycle) : Lifecycle :=
  let m := { m with account := r.1 }
  if r.2 then { m with phase := .connected, generation := m.generation + 1 } else m.retry

def dial (m : Lifecycle) : Lifecycle := m.conclude (m.account.dial m.plan)

def tick (m : Lifecycle) : Lifecycle :=
  let m := { m with now := m.now + 1 }
  if m.phase = .reconnecting m.now then m.dial else m

def wait : Nat → Lifecycle → Lifecycle
  | 0, m => m
  | n + 1, m => wait n m.tick

def lose (m : Lifecycle) : Lifecycle := if m.phase = .connected then m.retry else m

def openConnections (m : Lifecycle) : Nat := if m.phase = .connected then 1 else 0

def respond (m : Lifecycle) : Request → Lifecycle
  | .killConnection _ => m.lose
  | .killChannel _ => m.lose
  | .failDials n => { m with account := { m.account with failing := n } }
  | .failDeclare name => { m with account := { m.account with refused := m.account.refused ++ [name] } }
  | .advance n => m.wait n
  | .close => { m with phase := .closed }

variable {m : Lifecycle} {n : Nat}

theorem waitAdd (n k : Nat) (m : Lifecycle) : (m.wait n).wait k = m.wait (n + k) := by
  induction n generalizing m with
  | zero => rw [Nat.zero_add]; rfl
  | succ n ih => rw [Nat.succ_add]; exact ih m.tick

theorem waitIdle (early : ∀ due, m.phase = .reconnecting due → due ≤ m.now ∨ m.now + n < due) :
    m.wait n = { m with now := m.now + n } := by
  induction n generalizing m with
  | zero => rfl
  | succ n ih =>
    have idle : m.tick = { m with now := m.now + 1 } := by
      refine if_neg fun due => ?_
      have later := early (m.now + 1) due
      omega
    rw [wait, idle, ih]
    · simp only [Nat.add_assoc, Nat.add_comm 1 n]
    · intro due here
      have later := early due here
      change due ≤ m.now + 1 ∨ m.now + 1 + n < due
      omega

theorem waitDue (due : m.phase = .reconnecting (m.now + n)) (later : 0 < n) :
    m.wait n = { m with now := m.now + n }.dial := by
  obtain ⟨k, rfl⟩ := Nat.exists_eq_add_of_lt later
  have before : m.wait k = { m with now := m.now + k } := by
    refine waitIdle fun other here => .inr ?_
    cases due.symm.trans here
    omega
  rw [Nat.zero_add] at due ⊢
  rw [← waitAdd k 1 m, before]
  exact if_pos due

theorem dialPhase (p : Phase) (m : Lifecycle) : { m with phase := p }.dial = m.dial := by
  unfold dial conclude
  dsimp only
  split <;> rfl

theorem lostWaits (reason : String) (connected : m.phase = .connected) (early : n < m.pace) :
    ((m.respond (.killConnection reason)).respond (.advance n)).phase =
      .reconnecting (m.now + m.pace) := by
  have lost : m.respond (.killConnection reason) = m.retry := if_pos connected
  have idle : m.retry.wait n = { m.retry with now := m.now + n } := by
    refine waitIdle fun due here => .inr ?_
    cases here
    exact Nat.add_lt_add_left early m.now
  rw [lost]
  exact congrArg phase idle

theorem closedForGood (closed : m.phase = .closed) (rs : List Request) :
    (rs.foldl respond m).phase = .closed ∧ (rs.foldl respond m).openConnections = 0 ∧
      (rs.foldl respond m).account.dials = m.account.dials ∧
      (rs.foldl respond m).account.declared = m.account.declared := by
  induction rs generalizing m with
  | nil => exact ⟨closed, if_neg (by rw [List.foldl_nil, closed]; nofun), rfl, rfl⟩
  | cons r rest ih =>
    have lost : m.lose = m := if_neg (by rw [closed]; nofun)
    cases r with
    | killConnection | killChannel =>
      simp only [List.foldl_cons, respond, lost]
      exact ih closed
    | failDials | failDeclare => exact ih (m := { m with account := _ }) closed
    | advance n =>
      have idle : m.wait n = { m with now := m.now + n } :=
        waitIdle fun due here => by rw [closed] at here; cases here
      simp only [List.foldl_cons, respond, idle]
      exact ih (m := { m with now := m.now + n }) closed
    | close => exact ih (m := { m with phase := .closed }) rfl

end Lifecycle

end AmqpClient
