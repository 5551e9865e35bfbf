import Skaled.Unddos.Calls

/-! # WebSocket connections

Peers register with the limiter and unregister when they are closed, fail or are
unregistered. A peer remembers the origin it was registered with, and forgets it
when it is refused or has gone, so that it unregisters at most once.

The limiter counts a connection before it looks at the limits, and a refused peer
does not take its count back. So the counters are right just as long as no peer
registers beyond a limit.
-/

namespace Skaled.Unddos

open Function (update update_of_ne update_self)

variable {Peer : Type} [DecidableEq Peer]

/-- The limiter, and `m_strUnDdosOrigin` of each peer. -/
structure Server (Peer : Type) where
  unddos : Algorithm
  origin : Peer → String := fun _ => ""

/-- What happens to peers. The host is that of the address of the peer, or empty if
the address cannot be read. -/
inductive Event (Peer : Type) where
  | onPeerRegister (peer : Peer) (host : String)
  | onPeerUnregister (peer : Peer)
  | onClose (peer : Peer)
  | onFail (peer : Peer)

/-- Whether a registration is accepted, or refused with an exception, or whether
there is nothing to register. -/
inductive Answer where
  | accepted
  | refused
  | nothing
  deriving DecidableEq, Repr

def originOf (host : String) : String := if host = "" then "N/A" else host

namespace Server

def registerWsConnForOrigin (s : Server Peer) (peer : Peer) (host : String) :
    Answer × Server Peer :=
  if s.origin peer = "" then
    let (ehldr, unddos) := s.unddos.registerWsConnForOrigin (originOf host)
    if ehldr = .noError then
      (.accepted, { unddos, origin := update s.origin peer (originOf host) })
    else (.refused, { s with unddos })
  else (.nothing, s)

def unregisterWsConnForOrigin (s : Server Peer) (peer : Peer) : Server Peer :=
  if s.origin peer ≠ "" then
    { unddos := (s.unddos.unregisterWsConnForOrigin (s.origin peer)).2
      origin := update s.origin peer "" }
  else s

def handle (s : Server Peer) : Event Peer → Answer × Server Peer
  | .onPeerRegister peer host => s.registerWsConnForOrigin peer host
  | .onPeerUnregister peer | .onClose peer | .onFail peer =>
    (.nothing, s.unregisterWsConnForOrigin peer)

end Server

/-! ## Open connections -/

/-- The connections that are open after an event, with their origins. -/
def follow (conns : List (Peer × String)) : Event Peer → Answer → List (Peer × String)
  | .onPeerRegister peer host, .accepted => (peer, originOf host) :: conns
  | .onPeerRegister _ _, _ => conns
  | .onPeerUnregister peer, _ | .onClose peer, _ | .onFail peer, _ =>
    conns.filter fun conn => ¬ conn.1 = peer

/-- A server with the connections that are open. -/
structure Observed (Peer : Type) where
  server : Server Peer
  conns : List (Peer × String) := []

namespace Observed

def step (o : Observed Peer) (event : Event Peer) : Observed Peer :=
  { server := (o.server.handle event).2
    conns := follow o.conns event (o.server.handle event).1 }

def run (settings : Settings) (events : List (Event Peer)) : Observed Peer :=
  events.foldl step { server := { unddos := { settings } } }

/-- The counters are those of the open connections. -/
structure Matches (o : Observed Peer) : Prop where
  everyone : o.server.unddos.wsConnCountGlobal = o.conns.length
  origin : ∀ origin, (o.server.unddos.mapWsConnCounts origin).getD 0 =
    o.conns.countP (·.2 = origin)

/-- A new connection stays within the limits. -/
structure Fits (o : Observed Peer) (host : String) : Prop where
  enabled : o.server.unddos.settings.enabled = true
  everyone : o.conns.length < o.server.unddos.settings.globalLimit.maxWsConn
  origin : o.conns.countP (·.2 = originOf host) <
    (o.server.unddos.rule (originOf host)).maxWsConn

/-- A registration of a peer that is not connected stays within the limits. -/
def Admissible (o : Observed Peer) : Event Peer → Prop
  | .onPeerRegister peer host => o.server.origin peer = "" → o.Fits host
  | _ => True

/-- Each peer has one connection, or none. -/
def Linked (o : Observed Peer) : Prop :=
  ∀ peer, o.conns.filter (·.1 = peer) =
    if o.server.origin peer = "" then [] else [(peer, o.server.origin peer)]

variable {o : Observed Peer} {peer : Peer} {host : String}

theorem originOf_ne (host : String) : originOf host ≠ "" := by
  unfold originOf
  split
  · decide
  · assumption

/-! ## Registrations -/

omit [DecidableEq Peer] in
/-- The limiter after a connection within the limits. -/
theorem register_of_fits (hmatches : o.Matches) (hfits : o.Fits host) :
    o.server.unddos.registerWsConnForOrigin (originOf host) =
      (.noError,
        { o.server.unddos with
          wsConnCountGlobal := o.conns.length + 1
          settings := (o.server.unddos.settings.findOriginEntrySetting (originOf host)).2
          mapWsConnCounts := update o.server.unddos.mapWsConnCounts (originOf host)
            (some (o.conns.countP (·.2 = originOf host) + 1)) }) := by
  unfold Algorithm.registerWsConnForOrigin
  rw [if_neg (by simp [hfits.enabled]), if_neg (originOf_ne host)]
  have hcount := hmatches.origin (originOf host)
  have heveryone := hfits.everyone
  have horigin := hfits.origin
  unfold Algorithm.rule at horigin
  dsimp only
  rw [hmatches.everyone, if_neg (by omega), hcount, if_neg (by omega)]

/-- A connection that is not counted, or not within the limits, spoils the
counters. -/
theorem not_matches_of_not_fits (hmatches : o.Matches) (hpeer : o.server.origin peer = "")
    (hfits : ¬ o.Fits host) : ¬ (o.step (.onPeerRegister peer host)).Matches := by
  intro hafter
  have heveryone := hafter.everyone
  unfold step Server.handle Server.registerWsConnForOrigin Algorithm.registerWsConnForOrigin
    at heveryone
  dsimp only at heveryone
  rw [if_pos hpeer] at heveryone
  have hcount := hmatches.everyone
  have horigin := hmatches.origin (originOf host)
  split at heveryone
  next hdisabled =>
    -- the limiter is switched off: the peer is accepted and not counted
    simp [follow, hcount] at heveryone
  next henabled =>
    rw [if_neg (originOf_ne host)] at heveryone
    split at heveryone
    next hover =>
      simp [follow, hcount] at heveryone
    next hunder =>
      split at heveryone
      next hover =>
        simp [follow, hcount] at heveryone
      next hbelow =>
        refine hfits ⟨by simpa using henabled, ?_, ?_⟩
        · omega
        · unfold Algorithm.rule
          omega

theorem step_register_of_ne (hpeer : o.server.origin peer ≠ "") :
    o.step (.onPeerRegister peer host) = o := by
  have hhandle : o.server.handle (.onPeerRegister peer host) = (.nothing, o.server) := by
    change (if _ then _ else _) = _
    rw [if_neg hpeer]
  unfold step
  rw [hhandle]
  rfl

theorem step_register_of_fits (hmatches : o.Matches) (hpeer : o.server.origin peer = "")
    (hfits : o.Fits host) :
    (o.server.handle (.onPeerRegister peer host)).1 = .accepted ∧
      (o.step (.onPeerRegister peer host)).Matches := by
  have hregister := register_of_fits hmatches hfits
  have hhandle : o.server.handle (.onPeerRegister peer host) =
      (.accepted,
        { unddos := (o.server.unddos.registerWsConnForOrigin (originOf host)).2
          origin := update o.server.origin peer (originOf host) }) := by
    unfold Server.handle Server.registerWsConnForOrigin
    dsimp only
    rw [if_pos hpeer, hregister]
    rfl
  refine ⟨by rw [hhandle], ?_⟩
  unfold step
  rw [hhandle, hregister]
  refine ⟨rfl, fun origin => ?_⟩
  dsimp only [follow]
  rw [List.countP_cons]
  by_cases heq : origin = originOf host
  · rw [heq, update_self]
    simp
  · rw [update_of_ne heq, hmatches.origin origin]
    simp [Ne.symm heq]

/-! ## Peers that go -/

/-- What is left without a peer, and what there is of it. -/
theorem countP_split (conns : List (Peer × String)) (peer : Peer) (p : Peer × String → Bool) :
    conns.countP p = (conns.filter (·.1 = peer)).countP p +
      (conns.filter fun conn => ¬ conn.1 = peer).countP p := by
  rw [List.countP_eq_countP_filter_add conns p (fun conn => decide (conn.1 = peer))]
  simp

/-- The limiter after a connection is unregistered that it has counted. -/
theorem unregister_eq {a : Algorithm} {origin : String} {count : Nat} (horigin : origin ≠ "")
    (hcount : (a.mapWsConnCounts origin).getD 0 = count + 1) :
    (a.unregisterWsConnForOrigin origin).2 =
      { a with
        wsConnCountGlobal := a.wsConnCountGlobal - 1
        mapWsConnCounts := update a.mapWsConnCounts origin
          (if count = 0 then none else some count) } := by
  unfold Algorithm.unregisterWsConnForOrigin
  rw [if_neg horigin]
  dsimp only
  cases hsome : a.mapWsConnCounts origin with
  | none => simp [hsome] at hcount
  | some n =>
    rw [hsome, Option.getD_some] at hcount
    rw [hcount]
    rfl

theorem unregister_matches (hmatches : o.Matches) (hlinked : o.Linked) (peer : Peer) :
    Matches
      { server := o.server.unregisterWsConnForOrigin peer
        conns := o.conns.filter fun conn => ¬ conn.1 = peer } := by
  have hsplit := fun p => countP_split o.conns peer p
  have hlength := hsplit fun _ => true
  simp only [List.countP_true] at hlength
  have heveryone := hmatches.everyone
  unfold Server.unregisterWsConnForOrigin
  by_cases hpeer : o.server.origin peer = ""
  · -- a peer that is not connected has no connection to close
    have hnone : o.conns.filter (·.1 = peer) = [] := by
      rw [hlinked peer, if_pos hpeer]
    rw [if_neg (by simpa using hpeer)]
    rw [hnone, List.length_nil] at hlength
    refine ⟨by dsimp only; omega, fun origin => ?_⟩
    have horigin := hsplit fun conn => conn.2 = origin
    rw [hnone, List.countP_nil, Nat.zero_add] at horigin
    exact (hmatches.origin origin).trans horigin
  · have hone : o.conns.filter (·.1 = peer) = [(peer, o.server.origin peer)] := by
      rw [hlinked peer, if_neg hpeer]
    rw [if_pos hpeer]
    rw [hone, List.length_singleton] at hlength
    have hcount := hsplit fun conn => conn.2 = o.server.origin peer
    rw [hone, List.countP_singleton, if_pos (by simp), Nat.add_comm, ← hmatches.origin] at hcount
    rw [unregister_eq hpeer hcount]
    refine ⟨by dsimp only; omega, fun origin => ?_⟩
    dsimp only
    by_cases heq : origin = o.server.origin peer
    · rw [heq, update_self]
      split
      next hzero => rw [hzero]; rfl
      next => rfl
    · have horigin := hsplit fun conn => conn.2 = origin
      rw [hone, List.countP_singleton, if_neg (by simpa using Ne.symm heq), Nat.zero_add] at horigin
      rw [update_of_ne heq, hmatches.origin, horigin]

/-! ## Sequences of events -/

theorem linked_of_gone (hlinked : o.Linked) (peer : Peer) :
    Linked
      { server := o.server.unregisterWsConnForOrigin peer
        conns := o.conns.filter fun conn => ¬ conn.1 = peer } := by
  intro peer'
  have horigin : (o.server.unregisterWsConnForOrigin peer).origin =
      update o.server.origin peer "" := by
    unfold Server.unregisterWsConnForOrigin
    split
    next => rfl
    next hempty =>
      rw [not_not] at hempty
      rw [← hempty, Function.update_eq_self]
  dsimp only
  rw [List.filter_filter, horigin]
  by_cases heq : peer' = peer
  · rw [heq, update_self, if_pos rfl, List.filter_eq_nil_iff]
    intro conn _
    simp
  · rw [update_of_ne heq, ← hlinked peer']
    apply List.filter_congr
    intro conn _
    by_cases hconn : conn.1 = peer'
    · simp [hconn, heq]
    · simp [hconn]

/-- A registration is accepted or refused. -/
theorem step_register_cases (hpeer : o.server.origin peer = "") (host : String) :
    (∃ unddos, o.step (.onPeerRegister peer host) =
      { server := { unddos, origin := update o.server.origin peer (originOf host) }
        conns := (peer, originOf host) :: o.conns }) ∨
    (∃ unddos, o.step (.onPeerRegister peer host) =
      { server := { o.server with unddos }, conns := o.conns }) := by
  have hhandle : o.server.handle (.onPeerRegister peer host) =
      if (o.server.unddos.registerWsConnForOrigin (originOf host)).1 = .noError then
        (.accepted,
          { unddos := (o.server.unddos.registerWsConnForOrigin (originOf host)).2
            origin := update o.server.origin peer (originOf host) })
      else
        (.refused,
          { o.server with
            unddos := (o.server.unddos.registerWsConnForOrigin (originOf host)).2 }) := by
    unfold Server.handle Server.registerWsConnForOrigin
    dsimp only
    rw [if_pos hpeer]
  unfold step
  rw [hhandle]
  split
  next => exact .inl ⟨_, rfl⟩
  next => exact .inr ⟨_, rfl⟩

theorem linked_of_register (hlinked : o.Linked) (peer : Peer) (host : String) :
    (o.step (.onPeerRegister peer host)).Linked := by
  by_cases hpeer : o.server.origin peer = ""
  · rcases step_register_cases hpeer host with ⟨unddos, hstep⟩ | ⟨unddos, hstep⟩
    · intro peer'
      rw [hstep]
      change ((peer, originOf host) :: o.conns).filter (·.1 = peer') =
        if update o.server.origin peer (originOf host) peer' = "" then []
        else [(peer', update o.server.origin peer (originOf host) peer')]
      rw [List.filter_cons]
      by_cases heq : peer = peer'
      · subst heq
        rw [hlinked peer, if_pos hpeer, update_self, if_neg (originOf_ne host)]
        simp
      · rw [hlinked peer', update_of_ne (Ne.symm heq)]
        simp [heq]
    · rw [hstep]
      exact hlinked
  · rw [step_register_of_ne hpeer]
    exact hlinked

theorem step_linked (hlinked : o.Linked) (event : Event Peer) : (o.step event).Linked := by
  cases event with
  | onPeerRegister peer host => exact linked_of_register hlinked peer host
  | onPeerUnregister peer | onClose peer | onFail peer => exact linked_of_gone hlinked peer

/-- One event keeps the counters right just if it is admissible. -/
theorem step_matches_iff (hmatches : o.Matches) (hlinked : o.Linked) (event : Event Peer) :
    (o.step event).Matches ↔ o.Admissible event := by
  cases event with
  | onPeerRegister peer host =>
    by_cases hpeer : o.server.origin peer = ""
    · constructor
      · intro hafter _
        by_contra hfits
        exact not_matches_of_not_fits hmatches hpeer hfits hafter
      · exact fun hfits => (step_register_of_fits hmatches hpeer (hfits hpeer)).2
    · rw [step_register_of_ne hpeer]
      exact ⟨fun _ h => absurd h hpeer, fun _ => hmatches⟩
  | onPeerUnregister peer =>
    exact ⟨fun _ => trivial, fun _ => unregister_matches hmatches hlinked peer⟩
  | onClose peer | onFail peer =>
    exact ⟨fun _ => trivial, fun _ => unregister_matches hmatches hlinked peer⟩

theorem run_append_singleton (settings : Settings) (events : List (Event Peer))
    (event : Event Peer) : run settings (events ++ [event]) = (run settings events).step event := by
  unfold run
  rw [List.foldl_append]
  rfl

theorem run_linked (settings : Settings) (events : List (Event Peer)) :
    (run settings events).Linked := by
  induction events using List.reverseRecOn with
  | nil => exact fun _ => rfl
  | append_singleton events event ih =>
    rw [run_append_singleton]
    exact step_linked ih event

/-- On sequences of registrations within the limits the counters are right. -/
theorem matches_of_admissible {settings : Settings} {events : List (Event Peer)}
    (hadmissible : ∀ prior event later, events = prior ++ event :: later →
      (run settings prior).Admissible event) (prior later : List (Event Peer))
    (heq : events = prior ++ later) : (run settings prior).Matches := by
  induction prior using List.reverseRecOn generalizing later with
  | nil => exact ⟨rfl, fun _ => rfl⟩
  | append_singleton prior event ih =>
    have hsplit : events = prior ++ event :: later := by
      rw [heq, List.append_assoc]
      rfl
    rw [run_append_singleton]
    exact (step_matches_iff (ih (event :: later) hsplit) (run_linked settings prior) event).mpr
      (hadmissible prior event later hsplit)

/-- The counters are right after each part of a sequence of events, just if each
registration of it stays within the limits. Then they are zero when all peers have
gone, and a peer within the limits is accepted. -/
theorem matches_iff_admissible (settings : Settings) (events : List (Event Peer)) :
    ((∀ prior later, events = prior ++ later → (run settings prior).Matches) ↔
      ∀ prior event later, events = prior ++ event :: later →
        (run settings prior).Admissible event) ∧
    ((∀ prior event later, events = prior ++ event :: later →
        (run settings prior).Admissible event) →
      (run settings events).conns = [] →
        (run settings events).server.unddos.wsConnCountGlobal = 0 ∧
        (∀ origin, ((run settings events).server.unddos.mapWsConnCounts origin).getD 0 = 0) ∧
        ∀ peer host, (run settings events).Fits host →
          ((run settings events).server.handle (.onPeerRegister peer host)).1 = .accepted) := by
  refine ⟨⟨?_, matches_of_admissible⟩, ?_⟩
  · rintro hmatches prior event later rfl
    have hbefore := hmatches prior (event :: later) rfl
    have hafter := hmatches (prior ++ [event]) later (by simp)
    rw [run_append_singleton] at hafter
    exact (step_matches_iff hbefore (run_linked settings prior) event).mp hafter
  · intro hadmissible hgone
    have hmatches := matches_of_admissible hadmissible events [] (List.append_nil _).symm
    have heveryone := hmatches.everyone
    have horigin := hmatches.origin
    rw [hgone] at heveryone horigin
    refine ⟨heveryone, horigin, fun peer host hfits => ?_⟩
    have hpeer : (run settings events).server.origin peer = "" := by
      have hlinked := run_linked settings events peer
      rw [hgone, List.filter_nil] at hlinked
      by_contra hne
      rw [if_neg hne] at hlinked
      cases hlinked
    exact (step_register_of_fits hmatches hpeer hfits).1

/-- One connection at a time. -/
def singleSettings : Settings where
  origins := [{ originWildcards := ["*"], maxWsConn := 1 }]
  globalLimit := { originWildcards := ["*"], maxWsConn := 1 }

/-- A peer that is refused while another one is connected leaves a count behind:
after both have gone no peer is connected, and a new one is refused. -/
theorem refused_peer_counted :
    let o := run singleSettings
      [.onPeerRegister 1 "10.0.0.1", .onPeerRegister 2 "10.0.0.2", .onClose 1, .onClose 2]
    o.conns = [] ∧ o.server.unddos.wsConnCountGlobal = 1 ∧ ¬ o.Matches ∧
      (o.server.handle (.onPeerRegister 3 "10.0.0.3")).1 = .refused := by
  intro o
  have hcount : o.server.unddos.wsConnCountGlobal = 1 := by decide +kernel
  have hconns : o.conns = [] := by decide +kernel
  refine ⟨hconns, hcount, fun hmatches => ?_, by decide +kernel⟩
  have heveryone := hmatches.everyone
  rw [hcount, hconns] at heveryone
  cases heveryone

end Observed

end Skaled.Unddos
