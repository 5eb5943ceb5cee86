import AmqpClient.Broker.Memory
import AmqpClient.Supervisor
/-! Connections, channels and the signals that watch them. Every operation touches the endpoint it
names and no other, and a signal that has fired stays fired. -/
namespace AmqpClient.Broker

namespace Store

def ends (r : Resource) (s : Store) : List Endpoint :=
  match r with
  | .connection => s.connections
  | .channel => s.channels

def openAt (r : Resource) (n : Nat) (s : Store) : Prop := isOpen (s.ends r) n = true

def firedIn (signals : List Signal) (i : SignalId) : Prop :=
  ((signals[i]?).getD .waiting).fired = true

def fired (i : SignalId) (s : Store) : Prop := firedIn s.signals i

def Armed (r : Resource) (n : Nat) (i : SignalId) (s : Store) : Prop :=
  ∃ e, (s.ends r)[n]? = some e ∧ e.isOpen = true ∧ e.watcher = some i ∧ i < s.signals.length

def Bare (r : Resource) (n : Nat) (s : Store) : Prop :=
  ∃ e, (s.ends r)[n]? = some e ∧ e.watcher = none

def Watched (n : Nat) (c h : SignalId) (s : Store) : Prop :=
  s.fired c ∨ s.fired h ∨ (s.Armed .connection n c ∧ s.Armed .channel n h)

structure Keeps (touched : Resource → Nat → Prop) (s t : Store) : Prop where
  ends : ∀ r n, n < (s.ends r).length → ¬ touched r n → (t.ends r)[n]? = (s.ends r)[n]?
  signals : s.signals.length ≤ t.signals.length
  fired : ∀ i, s.fired i → t.fired i

structure SameLinks (s t : Store) : Prop where
  connections : t.connections = s.connections
  channels : t.channels = s.channels
  signals : t.signals = s.signals

variable {s t u : Store} {touched : Resource → Nat → Prop}

theorem sameLinksRefl (s : Store) : SameLinks s s := ⟨rfl, rfl, rfl⟩

theorem sameLinksTrans (first : SameLinks s t) (second : SameLinks t u) : SameLinks s u :=
  ⟨second.connections.trans first.connections, second.channels.trans first.channels,
    second.signals.trans first.signals⟩

theorem sameEnds (same : SameLinks s t) (r : Resource) : t.ends r = s.ends r := by
  cases r
  · exact same.connections
  · exact same.channels

theorem sameFired (same : SameLinks s t) (i : SignalId) : t.fired i ↔ s.fired i := by
  unfold fired
  rw [same.signals]

theorem keepsOfSame (same : SameLinks s t) : Keeps touched s t :=
  ⟨fun r n _ _ => by rw [sameEnds same], Nat.le_of_eq (by rw [same.signals]),
    fun i => (sameFired same i).mpr⟩

theorem keepsSame (same : SameLinks s t) : Keeps (fun _ _ => False) s t := keepsOfSame same

theorem keptOpen {r : Resource} {n : Nat} (keeps : Keeps touched s t)
    (inside : n < (s.ends r).length) (untouched : ¬ touched r n) :
    t.openAt r n ↔ s.openAt r n := by
  unfold openAt isOpen
  rw [keeps.ends r n inside untouched]

theorem keptArmed {r : Resource} {n : Nat} {i : SignalId} (keeps : Keeps touched s t)
    (untouched : ¬ touched r n) (armed : s.Armed r n i) : t.Armed r n i := by
  obtain ⟨e, found, rest, watcher, old⟩ := armed
  have inside : n < (s.ends r).length := (List.getElem?_eq_some_iff.mp found).1
  exact ⟨e, (keeps.ends r n inside untouched).trans found, rest, watcher,
    Nat.lt_of_lt_of_le old keeps.signals⟩

theorem keptBare {r : Resource} {n : Nat} (keeps : Keeps touched s t)
    (untouched : ¬ touched r n) (bare : s.Bare r n) : t.Bare r n := by
  obtain ⟨e, found, watcher⟩ := bare
  have inside : n < (s.ends r).length := (List.getElem?_eq_some_iff.mp found).1
  exact ⟨e, (keeps.ends r n inside untouched).trans found, watcher⟩

theorem keptWatched {n : Nat} {c h : SignalId} (keeps : Keeps touched s t)
    (untouched : ∀ r, ¬ touched r n) (watched : s.Watched n c h) : t.Watched n c h := by
  rcases watched with old | old | ⟨connection, channel⟩
  · exact .inl (keeps.fired c old)
  · exact .inr (.inl (keeps.fired h old))
  · exact .inr (.inr ⟨keptArmed keeps (untouched _) connection,
      keptArmed keeps (untouched _) channel⟩)

theorem openOfEndpoint {r : Resource} {n : Nat} {e : Endpoint} (found : (s.ends r)[n]? = some e)
    (stands : e.isOpen = true) : s.openAt r n := by
  unfold openAt isOpen
  rw [found]
  exact stands

theorem openOfArmed {r : Resource} {n : Nat} {i : SignalId} (armed : s.Armed r n i) :
    s.openAt r n := by
  obtain ⟨e, found, stands, -⟩ := armed
  exact openOfEndpoint found stands

theorem insideOfOpen {r : Resource} {n : Nat} (h : s.openAt r n) : n < (s.ends r).length := by
  unfold openAt isOpen at h
  cases found : (s.ends r)[n]? with
  | none => rw [found] at h; cases h
  | some e => exact (List.getElem?_eq_some_iff.mp found).1

theorem firedOfClosed {n : Nat} {c h : SignalId} (watched : s.Watched n c h)
    (closed : ¬ (s.openAt .connection n ∧ s.openAt .channel n)) : s.fired c ∨ s.fired h := by
  rcases watched with fired | fired | ⟨connection, channel⟩
  · exact .inl fired
  · exact .inr fired
  · exact absurd ⟨openOfArmed connection, openOfArmed channel⟩ closed

theorem sameDispatch (order : List ChannelId) (queue : String) (d : Delivery) (s : Store) :
    SameLinks s (s.dispatch order queue d) := by
  unfold dispatch
  split <;> exact ⟨rfl, rfl, rfl⟩

theorem sameDeliver (order : List ChannelId) (queue : String) (make : Nat → Delivery) (s : Store) :
    SameLinks s (s.deliver order queue make).1 := by
  have arrived : SameLinks s (s.arrive make).1 := ⟨rfl, rfl, rfl⟩
  exact sameLinksTrans arrived (sameDispatch order queue _ (s.arrive make).1)

theorem sameRoute (order : List ChannelId) (exchange key : String) (m : Envelope) (s : Store) :
    SameLinks s (s.route order exchange key m) := by
  unfold route
  generalize s.matching exchange key = bindings
  induction bindings generalizing s with
  | nil => exact sameLinksRefl s
  | cons b rest ih => exact sameLinksTrans (sameDeliver ..) (ih _)

section Signals

variable {signals : List Signal} {i : SignalId} {x : Signal}

theorem fireLength : (fire signals i x).length = signals.length := List.length_modify ..

theorem fireGet (j : SignalId) : (fire signals i x)[j]? =
    (signals[j]?).map fun old => if i = j then (if old.fired then old else x) else old := by
  unfold fire
  rw [List.getElem?_modify]
  cases signals[j]? with
  | none => rfl
  | some old => by_cases here : i = j <;> simp only [here, if_true, if_false] <;> rfl

theorem fireMono {j : SignalId} (old : firedIn signals j) : firedIn (fire signals i x) j := by
  unfold firedIn at old ⊢
  rw [fireGet]
  cases found : signals[j]? with
  | none => rw [found] at old; cases old
  | some y =>
    rw [found] at old
    have fired : y.fired = true := old
    simp only [Option.map_some, Option.getD_some, fired, if_true, ite_self]

theorem fireHits (inside : i < signals.length) (hits : x.fired = true) :
    firedIn (fire signals i x) i := by
  unfold firedIn
  rw [fireGet, List.getElem?_eq_getElem inside]
  simp only [Option.map_some, Option.getD_some, if_true]
  split
  · assumption
  · exact hits

end Signals

structure Signalled (signals new : List Signal) : Prop where
  length : signals.length ≤ new.length
  fired : ∀ j, firedIn signals j → firedIn new j

theorem signalledRefl (signals : List Signal) : Signalled signals signals :=
  ⟨Nat.le_refl _, fun _ h => h⟩

theorem signalledNotify (signals : List Signal) (e : Endpoint) (n : Notice) :
    Signalled signals (notify signals e n).1 := by
  have told (x : Signal) : Signalled signals (tell signals e x).1 := by
    unfold tell
    cases e.watcher with
    | none => exact signalledRefl signals
    | some i => exact ⟨Nat.le_of_eq fireLength.symm, fun j => fireMono⟩
  cases n with
  | silent => exact signalledRefl signals
  | report r => exact told _
  | drop => exact told _

theorem signalledAppend (signals more : List Signal) : Signalled signals (signals ++ more) := by
  refine ⟨by rw [List.length_append]; exact Nat.le_add_right _ _, ?_⟩
  intro j old
  unfold firedIn at *
  rw [List.getElem?_append]
  split
  · exact old
  · rename_i beyond
    rw [List.getElem?_eq_none (Nat.le_of_not_lt beyond)] at old
    cases old

theorem signalledWatch (signals : List Signal) (e : Endpoint) :
    Signalled signals (watch signals e).1 := by
  have told := signalledNotify signals e .drop
  have grown := signalledAppend (notify signals e .drop).1 [.waiting]
  exact ⟨Nat.le_trans told.length grown.length, fun j old => grown.fired j (told.fired j old)⟩

def Only (r : Resource) (n : Nat) : Resource → Nat → Prop := fun q m => q = r ∧ m = n

theorem keepsOpenLink (s : Store) : Keeps touched s s.openLink.1 := by
  refine ⟨?_, Nat.le_refl _, fun _ h => h⟩
  intro r n inside _
  cases r <;> exact List.getElem?_append_left inside

theorem keepsWatchConnection (n : ConnectionId) (s : Store) :
    Keeps (Only .connection n) s (s.watchConnection n).1 := by
  unfold watchConnection
  split
  · have grown := signalledAppend s.signals [.dropped]
    exact ⟨fun r m _ _ => by cases r <;> rfl, grown.length, grown.fired⟩
  · rename_i e found
    have told := signalledWatch s.signals e
    refine ⟨?_, told.length, told.fired⟩
    intro r m _ untouched
    cases r with
    | connection => exact List.getElem?_set_ne fun same => untouched ⟨rfl, same.symm⟩
    | channel => rfl

theorem keepsWatchChannel (n : ChannelId) (s : Store) :
    Keeps (Only .channel n) s (s.watchChannel n).1 := by
  unfold watchChannel
  split
  · have grown := signalledAppend s.signals [.dropped]
    exact ⟨fun r m _ _ => by cases r <;> rfl, grown.length, grown.fired⟩
  · rename_i e found
    have told := signalledWatch s.signals e
    refine ⟨?_, told.length, told.fired⟩
    intro r m _ untouched
    cases r with
    | connection => rfl
    | channel => exact List.getElem?_set_ne fun same => untouched ⟨rfl, same.symm⟩

theorem keepsShutConnection (n : ConnectionId) (x : Notice) (s : Store) :
    Keeps (Only .connection n) s (s.shutConnection n x) := by
  unfold shutConnection
  split
  · exact keepsOfSame (sameLinksRefl s)
  · rename_i e found
    have told := signalledNotify s.signals { e with isOpen := false } x
    refine ⟨?_, told.length, told.fired⟩
    intro r m _ untouched
    cases r with
    | connection => exact List.getElem?_set_ne fun same => untouched ⟨rfl, same.symm⟩
    | channel => rfl

theorem keepsShutChannel (n : ChannelId) (x : Notice) (s : Store) :
    Keeps (Only .channel n) s (s.shutChannel n x) := by
  unfold shutChannel
  split
  · exact keepsOfSame (sameLinksRefl s)
  · rename_i e found
    have told := signalledNotify s.signals { e with isOpen := false } x
    refine ⟨?_, told.length, told.fired⟩
    intro r m _ untouched
    cases r with
    | connection => rfl
    | channel => exact List.getElem?_set_ne fun same => untouched ⟨rfl, same.symm⟩

theorem armedWatch {signals : List Signal} {ends : List Endpoint} {n : Nat} {e : Endpoint}
    (found : ends[n]? = some e) (isOpen : e.isOpen = true) :
    ∃ f, (ends.set n (watch signals e).2)[n]? = some f ∧ f.isOpen = true ∧
      f.watcher = some ((watch signals e).1.length - 1) ∧
      (watch signals e).1.length - 1 < (watch signals e).1.length := by
  have inside : n < ends.length := (List.getElem?_eq_some_iff.mp found).1
  refine ⟨(watch signals e).2, List.getElem?_set_self inside, ?_, ?_, ?_⟩
  · unfold watch notify tell
    exact isOpen
  · unfold watch
    rw [List.length_append]
    rfl
  · unfold watch
    rw [List.length_append]
    exact Nat.lt_succ_self _

theorem openEndpoint {r : Resource} {n : Nat} (h : s.openAt r n) :
    ∃ e, (s.ends r)[n]? = some e ∧ e.isOpen = true := by
  unfold openAt isOpen at h
  cases found : (s.ends r)[n]? with
  | none => rw [found] at h; cases h
  | some e => rw [found] at h; exact ⟨e, rfl, h⟩

theorem armedWatchConnection {n : ConnectionId} (isOpen : s.openAt .connection n) :
    (s.watchConnection n).1.Armed .connection n (s.watchConnection n).2 := by
  obtain ⟨e, found, isOpen⟩ := openEndpoint isOpen
  have found : s.connections[n]? = some e := found
  have armed := @armedWatch s.signals _ _ _ found isOpen
  unfold watchConnection
  rw [found]
  exact armed

theorem armedWatchChannel {n : ChannelId} (isOpen : s.openAt .channel n) :
    (s.watchChannel n).1.Armed .channel n (s.watchChannel n).2 := by
  obtain ⟨e, found, isOpen⟩ := openEndpoint isOpen
  have found : s.channels[n]? = some e := found
  have armed := @armedWatch s.signals _ _ _ found isOpen
  unfold watchChannel
  rw [found]
  exact armed

theorem unfiredWatch {signals : List Signal} {e : Endpoint} :
    ¬ firedIn (watch signals e).1 ((watch signals e).1.length - 1) := by
  have grown : (watch signals e).1 = (notify signals e .drop).1 ++ [.waiting] := rfl
  have last : (watch signals e).1.length - 1 = (notify signals e .drop).1.length := by
    rw [grown, List.length_append]; rfl
  unfold firedIn
  rw [last, grown, List.getElem?_append_right (Nat.le_refl _), Nat.sub_self]
  exact Bool.false_ne_true

theorem firedNotify {signals : List Signal} {e : Endpoint} {i : SignalId} {reason : String}
    (watcher : e.watcher = some i) (inside : i < signals.length) :
    firedIn (notify signals e (.report reason)).1 i := by
  unfold notify tell
  simp only [watcher, Option.map_some, Option.getD_some]
  exact fireHits inside rfl

theorem firedShutConnection {n : ConnectionId} {i : SignalId} {reason : String}
    (armed : s.Armed .connection n i) : (s.shutConnection n (.report reason)).fired i := by
  obtain ⟨e, found, -, watcher, inside⟩ := armed
  have found : s.connections[n]? = some e := found
  unfold shutConnection
  rw [found]
  exact firedNotify (e := { e with isOpen := false }) watcher inside

theorem firedShutChannel {n : ChannelId} {i : SignalId} {reason : String}
    (armed : s.Armed .channel n i) : (s.shutChannel n (.report reason)).fired i := by
  obtain ⟨e, found, -, watcher, inside⟩ := armed
  have found : s.channels[n]? = some e := found
  unfold shutChannel
  rw [found]
  exact firedNotify (e := { e with isOpen := false }) watcher inside

theorem shutNotify (signals : List Signal) (e : Endpoint) (x : Notice) :
    (notify signals e x).2.isOpen = e.isOpen := by
  cases x <;> rfl

theorem shutSet {ends : List Endpoint} {n : Nat} {e : Endpoint} (shut : e.isOpen = false) :
    ¬ isOpen (ends.set n e) n = true := by
  unfold isOpen
  intro still
  by_cases inside : n < ends.length
  · rw [List.getElem?_set_self inside] at still
    exact Bool.false_ne_true (shut.symm.trans still)
  · rw [List.getElem?_eq_none (by rw [List.length_set]; exact Nat.le_of_not_lt inside)] at still
    cases still

theorem closedShutConnection (n : ConnectionId) (x : Notice) (s : Store) :
    ¬ (s.shutConnection n x).openAt .connection n := by
  unfold shutConnection
  split
  · rename_i none
    intro still
    obtain ⟨e, found, -⟩ := openEndpoint still
    exact nomatch none.symm.trans found
  · rename_i e found
    exact shutSet (shutNotify s.signals { e with isOpen := false } x)

theorem closedShutChannel (n : ChannelId) (x : Notice) (s : Store) :
    ¬ (s.shutChannel n x).openAt .channel n := by
  unfold shutChannel
  split
  · rename_i none
    intro still
    obtain ⟨e, found, -⟩ := openEndpoint still
    exact nomatch none.symm.trans found
  · rename_i e found
    exact shutSet (shutNotify s.signals { e with isOpen := false } x)

theorem bareNotify {signals : List Signal} {e : Endpoint} {x : Notice} (bare : e.watcher = none) :
    (notify signals e x).2.watcher = none := by
  cases x with
  | silent => exact bare
  | report => rfl
  | drop => rfl

theorem bareShutConnection {r : Resource} {k n : Nat} {x : Notice} (bare : s.Bare r k) :
    (s.shutConnection n x).Bare r k := by
  by_cases same : Only .connection n r k
  · obtain ⟨rfl, rfl⟩ := same
    obtain ⟨e, found, none⟩ := bare
    have found : s.connections[k]? = some e := found
    have inside : k < s.connections.length := (List.getElem?_eq_some_iff.mp found).1
    unfold shutConnection
    rw [found]
    exact ⟨_, List.getElem?_set_self inside, bareNotify (e := { e with isOpen := false }) none⟩
  · exact keptBare (keepsShutConnection n x s) same bare

theorem bareShutChannel {r : Resource} {k n : Nat} {x : Notice} (bare : s.Bare r k) :
    (s.shutChannel n x).Bare r k := by
  by_cases same : Only .channel n r k
  · obtain ⟨rfl, rfl⟩ := same
    obtain ⟨e, found, none⟩ := bare
    have found : s.channels[k]? = some e := found
    have inside : k < s.channels.length := (List.getElem?_eq_some_iff.mp found).1
    unfold shutChannel
    rw [found]
    exact ⟨_, List.getElem?_set_self inside, bareNotify (e := { e with isOpen := false }) none⟩
  · exact keptBare (keepsShutChannel n x s) same bare

theorem unfiredBare {signals : List Signal} {e : Endpoint} (bare : e.watcher = none) (i : SignalId) :
    firedIn (watch signals e).1 i ↔ firedIn signals i := by
  have quiet : (notify signals e .drop).1 = signals := by
    simp only [notify, tell, bare, Option.map_none, Option.getD_none]
  have grown : (watch signals e).1 = signals ++ [.waiting] := by
    unfold watch
    dsimp only
    rw [quiet]
  unfold firedIn
  rw [grown, List.getElem?_append]
  split
  · exact Iff.rfl
  · rename_i beyond
    rw [List.getElem?_eq_none (Nat.le_of_not_lt beyond)]
    cases i - signals.length <;> exact Iff.rfl

theorem firedWatchConnection {n : ConnectionId} {i : SignalId} (bare : s.Bare .connection n)
    (fired : (s.watchConnection n).1.fired i) : s.fired i := by
  obtain ⟨e, found, none⟩ := bare
  have found : s.connections[n]? = some e := found
  unfold watchConnection at fired
  rw [found] at fired
  exact (unfiredBare none i).mp fired

theorem firedWatchChannel {n : ChannelId} {i : SignalId} (bare : s.Bare .channel n)
    (fired : (s.watchChannel n).1.fired i) : s.fired i := by
  obtain ⟨e, found, none⟩ := bare
  have found : s.channels[n]? = some e := found
  unfold watchChannel at fired
  rw [found] at fired
  exact (unfiredBare none i).mp fired

theorem firedShutConnectionSilent {n : ConnectionId} {i : SignalId} :
    (s.shutConnection n .silent).fired i ↔ s.fired i := by
  unfold shutConnection
  split <;> exact Iff.rfl

theorem firedShutChannelSilent {n : ChannelId} {i : SignalId} :
    (s.shutChannel n .silent).fired i ↔ s.fired i := by
  unfold shutChannel
  split <;> exact Iff.rfl

theorem firedShutBare {n : ChannelId} {x : Notice} {i : SignalId} (bare : s.Bare .channel n)
    (fired : (s.shutChannel n x).fired i) : s.fired i := by
  obtain ⟨e, found, none⟩ := bare
  have found : s.channels[n]? = some e := found
  have quiet : (notify s.signals { e with isOpen := false } x).1 = s.signals := by
    cases x with
    | silent => rfl
    | report => simp only [notify, tell, none, Option.map_none, Option.getD_none]
    | drop => simp only [notify, tell, none, Option.map_none, Option.getD_none]
  unfold shutChannel at fired
  rw [found] at fired
  have fired : firedIn (notify s.signals { e with isOpen := false } x).1 i := fired
  rw [quiet] at fired
  exact fired

theorem unfiredWatchConnection {n : ConnectionId} (bare : s.Bare .connection n) :
    ¬ (s.watchConnection n).1.fired (s.watchConnection n).2 := by
  obtain ⟨e, found, -⟩ := bare
  have found : s.connections[n]? = some e := found
  unfold watchConnection
  rw [found]
  exact unfiredWatch

theorem unfiredWatchChannel {n : ChannelId} (bare : s.Bare .channel n) :
    ¬ (s.watchChannel n).1.fired (s.watchChannel n).2 := by
  obtain ⟨e, found, -⟩ := bare
  have found : s.channels[n]? = some e := found
  unfold watchChannel
  rw [found]
  exact unfiredWatch

theorem openSet {ends : List Endpoint} {n : Nat} {e f : Endpoint} (found : ends[n]? = some e)
    (same : f.isOpen = e.isOpen) (k : Nat) : isOpen (ends.set n f) k = isOpen ends k := by
  unfold isOpen
  by_cases here : n = k
  · subst here
    rw [List.getElem?_set_self (List.getElem?_eq_some_iff.mp found).1, found]
    exact same
  · rw [List.getElem?_set_ne here]

theorem openWatchConnection {n : ConnectionId} {r : Resource} {k : Nat} :
    (s.watchConnection n).1.openAt r k ↔ s.openAt r k := by
  unfold watchConnection
  split
  · cases r <;> exact Iff.rfl
  · rename_i e found
    have same : (watch s.signals e).2.isOpen = e.isOpen := rfl
    cases r with
    | connection => exact iff_of_eq (congrArg (· = true) (openSet found same k))
    | channel => exact Iff.rfl

theorem openWatchChannel {n : ChannelId} {r : Resource} {k : Nat} :
    (s.watchChannel n).1.openAt r k ↔ s.openAt r k := by
  unfold watchChannel
  split
  · cases r <;> exact Iff.rfl
  · rename_i e found
    have same : (watch s.signals e).2.isOpen = e.isOpen := rfl
    cases r with
    | connection => exact Iff.rfl
    | channel => exact iff_of_eq (congrArg (· = true) (openSet found same k))

def SameSize (s t : Store) : Prop := ∀ r, (t.ends r).length = (s.ends r).length

theorem openBefore {r : Resource} {n : Nat} (keeps : Keeps touched s t) (size : SameSize s t)
    (untouched : ¬ touched r n) (isOpen : t.openAt r n) : s.openAt r n :=
  (keptOpen keeps (size r ▸ insideOfOpen isOpen) untouched).mp isOpen

theorem sizeOfSame (same : SameLinks s t) : SameSize s t := fun r => by rw [sameEnds same]

theorem sizeWatchConnection (n : ConnectionId) (s : Store) : SameSize s (s.watchConnection n).1 := by
  unfold watchConnection
  split
  · intro r; cases r <;> rfl
  · intro r
    cases r
    · exact List.length_set
    · rfl

theorem sizeWatchChannel (n : ChannelId) (s : Store) : SameSize s (s.watchChannel n).1 := by
  unfold watchChannel
  split
  · intro r; cases r <;> rfl
  · intro r
    cases r
    · rfl
    · exact List.length_set

theorem sizeShutConnection (n : ConnectionId) (x : Notice) (s : Store) :
    SameSize s (s.shutConnection n x) := by
  unfold shutConnection
  split
  · exact fun r => rfl
  · intro r
    cases r
    · exact List.length_set
    · rfl

theorem sizeShutChannel (n : ChannelId) (x : Notice) (s : Store) :
    SameSize s (s.shutChannel n x) := by
  unfold shutChannel
  split
  · exact fun r => rfl
  · intro r
    cases r
    · rfl
    · exact List.length_set

theorem openShutChannel {r : Resource} {n k : Nat} {x : Notice}
    (isOpen : (s.shutChannel k x).openAt r n) : s.openAt r n := by
  refine openBefore (keepsShutChannel k x s) (sizeShutChannel k x s) ?_ isOpen
  rintro ⟨rfl, rfl⟩
  exact closedShutChannel n x s isOpen

theorem openShutConnection {r : Resource} {n k : Nat} {x : Notice}
    (isOpen : (s.shutConnection k x).openAt r n) :
    ¬ (r = .connection ∧ n = k) ∧ s.openAt r n := by
  have other : ¬ (r = .connection ∧ n = k) := by
    rintro ⟨rfl, rfl⟩
    exact closedShutConnection n x s isOpen
  exact ⟨other, openBefore (keepsShutConnection k x s) (sizeShutConnection k x s) other isOpen⟩

theorem openLinkOpen (r : Resource) (s : Store) : s.openLink.1.openAt r (s.ends r).length := by
  have last (ends : List Endpoint) : isOpen (ends ++ [⟨true, none⟩]) ends.length = true := by
    unfold isOpen
    rw [List.getElem?_append_right (Nat.le_refl _), Nat.sub_self]
    rfl
  cases r
  · exact last s.connections
  · exact last s.channels

theorem openLinkBare (r : Resource) (s : Store) : s.openLink.1.Bare r (s.ends r).length := by
  have last (ends : List Endpoint) : (ends ++ [⟨true, none⟩])[ends.length]? = some ⟨true, none⟩ := by
    rw [List.getElem?_append_right (Nat.le_refl _), Nat.sub_self]
    rfl
  cases r
  · exact ⟨_, last s.connections, rfl⟩
  · exact ⟨_, last s.channels, rfl⟩

theorem openOpenLink {n : Nat} {r : Resource} (isOpen : s.openLink.1.openAt r n) :
    n = (s.ends r).length ∨ s.openAt r n := by
  have last {ends : List Endpoint} (found : Store.isOpen (ends ++ [⟨true, none⟩]) n = true) :
      n = ends.length ∨ Store.isOpen ends n = true := by
    unfold Store.isOpen at found ⊢
    rw [List.getElem?_append] at found
    split at found
    · exact .inr found
    · rename_i beyond
      cases place : n - ends.length with
      | zero => exact .inl (by omega)
      | succ k => rw [place] at found; cases found
  cases r
  · exact last isOpen
  · exact last isOpen

theorem sizeOpenLink (r : Resource) (s : Store) :
    (s.openLink.1.ends r).length = (s.ends r).length + 1 := by
  cases r <;> exact List.length_append

end Store

namespace Memory

def lose (r : Resource) (n : Nat) (reason : String) (m : Memory) : Memory :=
  match r with
  | .connection =>
    { m with store := (m.store.shutChannel n .silent).shutConnection n (.report reason) }
  | .channel => { m with store := m.store.shutChannel n (.report reason) }

theorem bareLose {r q : Resource} {k n : Nat} {reason : String} {m : Memory}
    (bare : m.store.Bare r k) : (m.lose q n reason).store.Bare r k := by
  cases q with
  | channel => exact Store.bareShutChannel bare
  | connection => exact Store.bareShutConnection (Store.bareShutChannel bare)

theorem killChannelLoses {n : Nat} {reason : String} {m : Memory}
    (last : m.store.channels.length = n + 1) :
    m.killChannel (.report reason) = m.lose .channel n reason := by
  have latest : latest m.store.channels.length = some n := by rw [last]; rfl
  unfold killChannel
  rw [latest]
  rfl

theorem killConnectionLoses {n : Nat} {reason : String} {m : Memory}
    (last : m.store.connections.length = n + 1) (level : m.store.channels.length = n + 1) :
    m.killConnection reason = m.lose .connection n reason := by
  have first : latest m.store.channels.length = some n := by rw [level]; rfl
  have size := Store.sizeShutChannel n .silent m.store .connection
  have size : (m.store.shutChannel n .silent).connections.length = n + 1 := size.trans last
  have second : latest (m.store.shutChannel n .silent).connections.length = some n := by
    rw [size]; rfl
  unfold killConnection killChannel
  rw [first]
  dsimp only
  rw [second]
  rfl

end Memory

end AmqpClient.Broker
