import Mathlib.Algebra.Group.Int.Defs
import Mathlib.Data.List.TakeWhile
import WeNode.Net.Node

/-!
# Inactive connections

libraries/net/node.cpp, `terminate_inactive_connections_loop`: one run sorts the peers into lists
and then disconnects those on the lists.  Nothing else runs while the peers are sorted.
-/

namespace WeNode.Net

/- Microseconds, as `fc::time_point` counts them. -/
abbrev TimePoint := Int

def seconds (n : Nat) : TimePoint := 1000000 * n

/-- `fc::time_point::min` -/
def TimePoint.min : TimePoint := -2 ^ 63

/-- A peer with the times and flags the loop reads and sets. -/
structure TimedPeer extends Peer where
  connectionInitiationTime : TimePoint
  connectionClosedTime : TimePoint := .min
  connectionTerminatedTime : TimePoint := .min
  lastMessageReceivedTime : TimePoint
  lastMessageSentTime : TimePoint
  /-- the times that `item_ids_requested_from_peer` and `items_requested_from_peer` keep -/
  itemIdsRequestTime : TimePoint := 0
  itemRequestTime : ItemId → TimePoint := fun _ => 0
  lastSyncItemReceivedTime : TimePoint := 0
  isCurrentlyHandlingMessage : Bool := false
  theyHaveRequestedClose : Bool := false
  weHaveRequestedClose : Bool := false
  /-- `close_connection` was called -/
  isClosed : Bool := false

inductive Sent where
  | closingConnection
  | currentTimeRequest
deriving DecidableEq

namespace Inactivity

/- The constants of the node, and what its clock shows each time it is read. -/
structure Setting where
  peerInactivityTimeout : Nat := 5
  recentBlockIntervalInSeconds : UInt8 := 3
  peerDisconnectTimeout : Nat := 20
  now : Nat → TimePoint

namespace Setting

variable (σ : Setting)

def activeDisconnectTimeout : Nat := 10 * σ.recentBlockIntervalInSeconds.toNat
def activeSendKeepaliveTimeout : Nat := σ.activeDisconnectTimeout / 2

def handshakingDisconnectThreshold : TimePoint := σ.now 0 - seconds σ.peerInactivityTimeout
def activeDisconnectThreshold : TimePoint := σ.now 1 - seconds σ.activeDisconnectTimeout
def activeSendKeepaliveThreshold : TimePoint := σ.now 2 - seconds σ.activeSendKeepaliveTimeout
def activeIgnoredRequestThreshold : TimePoint := σ.now 3 - seconds 1
def closingDisconnectThreshold : TimePoint := σ.now 4 - seconds σ.peerDisconnectTimeout
def failedTerminateThreshold : TimePoint := σ.now 5 - seconds 120

end Setting

variable (σ : Setting)

/-! ### The tests of a peer -/

def handshakingTimedOut (a : TimedPeer) : Bool :=
  decide (a.connectionInitiationTime < σ.handshakingDisconnectThreshold) &&
    decide (a.lastMessageReceivedTime < σ.handshakingDisconnectThreshold) &&
    decide (a.lastMessageSentTime < σ.handshakingDisconnectThreshold)

def inactive (a : TimedPeer) : Bool :=
  decide (a.connectionInitiationTime < σ.activeDisconnectThreshold) &&
    decide (a.lastMessageReceivedTime < σ.activeDisconnectThreshold)

/- No progress on the sync items requested. -/
def syncIgnored (a : TimedPeer) : Bool :=
  decide (a.syncItemsRequestedFromPeer ≠ ∅) &&
    decide (a.lastSyncItemReceivedTime < σ.activeIgnoredRequestThreshold)

/- No answer to a request for ids. -/
def itemIdsIgnored (a : TimedPeer) : Bool :=
  a.itemIdsRequestedFromPeer.isSome &&
    decide (a.itemIdsRequestTime < σ.activeIgnoredRequestThreshold)

/- No answer to a request for an item, the walk over the requests. -/
def itemIgnored (a : TimedPeer) : Bool :=
  decide (∃ item ∈ a.itemsRequestedFromPeer,
    a.itemRequestTime item < σ.activeIgnoredRequestThreshold)

def quiet (a : TimedPeer) : Bool :=
  decide (a.connectionInitiationTime < σ.activeSendKeepaliveThreshold) &&
    decide (a.lastMessageReceivedTime < σ.activeSendKeepaliveThreshold)

def syncStuck (a : TimedPeer) : Bool :=
  a.weNeedSyncItemsFromPeer && !a.isCurrentlyHandlingMessage &&
    a.itemIdsRequestedFromPeer.isNone && a.idsOfItemsToGet.isEmpty

/-! ### Sorting -/

inductive Verdict where
  | gently
  | forcibly
  | keepAlive
  | fine
deriving DecidableEq

/- The body of the loop over `_active_connections`; `none` where its `break` leaves this loop. -/
def examine (a : TimedPeer) : Option Verdict :=
  if inactive σ a then some .gently
  else if syncIgnored σ a then none
  else if itemIdsIgnored σ a then some .forcibly
  else if itemIgnored σ a then some .forcibly
  else if quiet σ a then some .keepAlive
  else if syncStuck a then some .forcibly
  else some .fine

/-- The lists of peers to disconnect, to send a keepalive to and to delete. -/
structure Lists where
  gently : List Nat := []
  forcibly : List Nat := []
  keepAlive : List Nat := []
  terminate : List Nat := []

def Lists.add (l : Lists) (i : Nat) : Verdict → Lists
  | .gently => { l with gently := l.gently ++ [i] }
  | .forcibly => { l with forcibly := l.forcibly ++ [i] }
  | .keepAlive => { l with keepAlive := l.keepAlive ++ [i] }
  | .fine => l

/-- `for( const peer_connection_ptr& active_peer : _active_connections )` -/
def sortActive : List (TimedPeer × Nat) → Lists → Lists
  | [], l => l
  | (a, i) :: walk, l =>
    if a.connection = .active then
      match examine σ a with
      | none => l
      | some v => sortActive walk (l.add i v)
    else sortActive walk l

/- The peers of one of the other sets that meet its test. -/
def select (c : Connection) (test : TimedPeer → Bool) (walk : List (TimedPeer × Nat)) : List Nat :=
  (walk.filter fun p => p.1.connection = c ∧ test p.1).map Prod.snd

def terminateFailed (a : TimedPeer) : Bool :=
  decide (a.connectionTerminatedTime ≠ .min) &&
    decide (a.connectionTerminatedTime < σ.failedTerminateThreshold)

def sortPeers (walk : List (TimedPeer × Nat)) : Lists :=
  let l : Lists := { forcibly := select .handshaking (handshakingTimedOut σ) walk }
  let l := sortActive σ walk l
  { l with
    forcibly := l.forcibly ++ select .closing
      (fun a => decide (a.connectionClosedTime < σ.closingDisconnectThreshold)) walk
    terminate := select .terminating (terminateFailed σ) walk }

/-! ### Disconnecting -/

/-- `peer_connection::close_connection` -/
def closeConnection (now : TimePoint) (a : TimedPeer) : TimedPeer :=
  { a with
    isClosed := true
    connectionTerminatedTime := if a.connectionTerminatedTime ≠ .min then now
      else a.connectionTerminatedTime }

/-- `move_peer_to_terminating_list` and `close_connection` -/
def disconnectForcibly (now : TimePoint) (a : TimedPeer) : TimedPeer :=
  closeConnection now { a with connection := .terminating }

/-- `schedule_peer_for_deletion`, of a peer in none of the sets any more -/
def schedulePeerForDeletion (a : TimedPeer) : TimedPeer := { a with connection := .closed }

/- The peer after `disconnect_from_peer`. -/
def disconnectGently (now : TimePoint) (a : TimedPeer) : TimedPeer :=
  if a.theyHaveRequestedClose then closeConnection now { a with connection := .closing }
  else { a with connection := .closing, weHaveRequestedClose := true, connectionClosedTime := now }

/- The peers, and the messages sent to them. -/
structure Outcome where
  peers : List TimedPeer
  sent : List (Nat × Sent) := []

/-- `disconnect_from_peer` -/
def Outcome.disconnectFromPeer (now : TimePoint) (o : Outcome) (i : Nat) : Outcome where
  peers := o.peers.modify i (disconnectGently now)
  sent := o.sent ++ if o.peers[i]?.any (·.theyHaveRequestedClose) then []
    else [(i, .closingConnection)]

def Outcome.sendKeepAlive (o : Outcome) (i : Nat) : Outcome :=
  { o with sent := o.sent ++ [(i, .currentTimeRequest)] }

/-- One run of `terminate_inactive_connections_loop`; the peers stand in the order in which the
sets are walked. -/
def terminateInactiveConnections (peers : List TimedPeer) : Outcome :=
  let l := sortPeers σ peers.zipIdx
  let peers := l.terminate.foldl (fun ps i => ps.modify i schedulePeerForDeletion) peers
  let peers := l.forcibly.foldl (fun ps i => ps.modify i (disconnectForcibly (σ.now 6))) peers
  let o := l.gently.foldl (Outcome.disconnectFromPeer (σ.now 7)) { peers := peers }
  l.keepAlive.foldl Outcome.sendKeepAlive o

/-! ### What is asked of a run -/

def ForceDisconnected (o : Outcome) (i : Nat) : Prop :=
  ∃ b, o.peers[i]? = some b ∧ b.connection = .terminating ∧ b.isClosed = true

def GentlyDisconnected (o : Outcome) (i : Nat) : Prop :=
  ∃ b, o.peers[i]? = some b ∧ b.connection = .closing ∧
    (b.isClosed = true ∨ b.weHaveRequestedClose = true ∧ (i, .closingConnection) ∈ o.sent)

/- Every active peer that is inactive is disconnected gently, and every other one that leaves a
request unanswered forcibly. -/
def StalledPeersDropped (peers : List TimedPeer) (o : Outcome) : Prop :=
  ∀ i a, peers[i]? = some a → a.connection = .active →
    (inactive σ a = true → GentlyDisconnected o i) ∧
    (inactive σ a = false →
      (syncIgnored σ a = true ∨ itemIdsIgnored σ a = true ∨ itemIgnored σ a = true) →
      ForceDisconnected o i)

/-! ### The lists -/

/- The loop over the active peers goes on behind this one. -/
def stays (p : TimedPeer × Nat) : Bool :=
  decide (p.1.connection = .active → examine σ p.1 ≠ none)

/- The part of the walk before the `break`. -/
def walked (walk : List (TimedPeer × Nat)) : List (TimedPeer × Nat) := walk.takeWhile (stays σ)

def judged (v : Verdict) (walk : List (TimedPeer × Nat)) : List Nat :=
  select .active (fun a => decide (examine σ a = some v)) walk

theorem select_cons_pos {c : Connection} {test : TimedPeer → Bool} {a : TimedPeer} {i : Nat}
    (walk : List (TimedPeer × Nat)) (hc : a.connection = c) (ht : test a = true) :
    select c test ((a, i) :: walk) = i :: select c test walk := by
  simp [select, hc, ht]

theorem select_cons_neg {c : Connection} {test : TimedPeer → Bool} {a : TimedPeer} {i : Nat}
    (walk : List (TimedPeer × Nat)) (h : ¬(a.connection = c ∧ test a = true)) :
    select c test ((a, i) :: walk) = select c test walk := by
  unfold select
  rw [List.filter_cons_of_neg (by simpa using h)]

theorem sortActive_eq (walk : List (TimedPeer × Nat)) (l : Lists) :
    sortActive σ walk l =
      { gently := l.gently ++ judged σ .gently (walked σ walk)
        forcibly := l.forcibly ++ judged σ .forcibly (walked σ walk)
        keepAlive := l.keepAlive ++ judged σ .keepAlive (walked σ walk)
        terminate := l.terminate } := by
  induction walk generalizing l with
  | nil => simp [sortActive, walked, judged, select]
  | cons p walk ih =>
    obtain ⟨a, i⟩ := p
    unfold sortActive
    by_cases hactive : a.connection = .active
    · rw [if_pos hactive]
      cases hv : examine σ a with
      | none =>
        have hstop : walked σ ((a, i) :: walk) = [] := by
          unfold walked
          rw [List.takeWhile_cons_of_neg]
          simp [stays, hactive, hv]
        rw [hstop]
        simp [judged, select]
      | some v =>
        have hgo : walked σ ((a, i) :: walk) = (a, i) :: walked σ walk := by
          unfold walked
          rw [List.takeWhile_cons_of_pos]
          simp [stays, hv]
        have hsame : judged σ v ((a, i) :: walked σ walk) = i :: judged σ v (walked σ walk) :=
          select_cons_pos _ hactive (by simp [hv])
        have hother : ∀ w, w ≠ v →
            judged σ w ((a, i) :: walked σ walk) = judged σ w (walked σ walk) := by
          intro w hw
          apply select_cons_neg
          simp [hv, Ne.symm hw]
        simp only [ih, hgo]
        cases v <;> simp [Lists.add, hsame, hother]
    · have hgo : walked σ ((a, i) :: walk) = (a, i) :: walked σ walk := by
        unfold walked
        rw [List.takeWhile_cons_of_pos]
        simp [stays, hactive]
      have hskip : ∀ w, judged σ w ((a, i) :: walked σ walk) = judged σ w (walked σ walk) := by
        intro w
        apply select_cons_neg
        simp [hactive]
      rw [if_neg hactive, ih, hgo]
      simp only [hskip]

theorem mem_select {c : Connection} {test : TimedPeer → Bool} {walk : List (TimedPeer × Nat)}
    {i : Nat} : i ∈ select c test walk ↔
      ∃ a, (a, i) ∈ walk ∧ a.connection = c ∧ test a = true := by
  unfold select
  rw [List.mem_map]
  constructor
  · intro h
    obtain ⟨⟨a, j⟩, hmem, rfl⟩ := h
    obtain ⟨hin, htest⟩ := List.mem_filter.1 hmem
    exact ⟨a, hin, of_decide_eq_true htest⟩
  · intro h
    obtain ⟨a, hin, htest⟩ := h
    exact ⟨(a, i), List.mem_filter.2 ⟨hin, decide_eq_true htest⟩, rfl⟩

section

variable {σ} {peers : List TimedPeer} {i : Nat} {a : TimedPeer}

theorem mem_zipIdx_iff {b : TimedPeer} : (b, i) ∈ peers.zipIdx ↔ peers[i]? = some b :=
  List.mem_zipIdx_iff_getElem?

theorem mem_walked (h : (a, i) ∈ walked σ peers.zipIdx) :
    peers[i]? = some a ∧ (a.connection = .active → examine σ a ≠ none) := by
  have hstays : stays σ (a, i) = true := List.mem_takeWhile_imp h
  exact ⟨mem_zipIdx_iff.1 ((List.takeWhile_subset _) h), of_decide_eq_true hstays⟩

/- The list of a verdict holds an active peer only by that verdict, before the `break`. -/
theorem mem_judged {v : Verdict} (hpeer : peers[i]? = some a)
    (h : i ∈ judged σ v (walked σ peers.zipIdx)) : examine σ a = some v := by
  obtain ⟨b, hwalked, -, hv⟩ := mem_select.1 h
  have hb := (mem_walked hwalked).1
  rw [hpeer] at hb
  cases hb
  exact of_decide_eq_true hv

/- The other sets hold no active peer. -/
theorem not_mem_select {c : Connection} (test : TimedPeer → Bool) (hpeer : peers[i]? = some a)
    (hactive : a.connection = .active) (hc : c ≠ .active) : i ∉ select c test peers.zipIdx := by
  intro h
  obtain ⟨b, hin, hconn, -⟩ := mem_select.1 h
  have hb := mem_zipIdx_iff.1 hin
  rw [hpeer] at hb
  cases hb
  exact hc (hconn.symm.trans hactive)

/- Where an active peer ends up. -/
theorem sorted_gently (hpeer : peers[i]? = some a) (hactive : a.connection = .active) :
    (i ∈ (sortPeers σ peers.zipIdx).gently ↔ i ∈ judged σ .gently (walked σ peers.zipIdx)) ∧
    (i ∈ (sortPeers σ peers.zipIdx).forcibly ↔ i ∈ judged σ .forcibly (walked σ peers.zipIdx)) ∧
    i ∉ (sortPeers σ peers.zipIdx).terminate := by
  have hhandshaking := not_mem_select (handshakingTimedOut σ) hpeer hactive
    (c := .handshaking) (by decide)
  have hclosing := not_mem_select
    (fun a => decide (a.connectionClosedTime < σ.closingDisconnectThreshold)) hpeer hactive
    (c := .closing) (by decide)
  have hterminating := not_mem_select (terminateFailed σ) hpeer hactive
    (c := .terminating) (by decide)
  unfold sortPeers
  simp only [sortActive_eq, List.nil_append, List.mem_append, hhandshaking, hclosing, false_or,
    or_false, hterminating, not_false_eq_true, and_self]

end

/-! ### The disconnects -/

theorem foldl_modify {α : Type} {f : α → α} (hf : ∀ a, f (f a) = f a) (is : List Nat) (l : List α)
    (j : Nat) :
    (is.foldl (fun l i => l.modify i f) l)[j]? = if j ∈ is then l[j]?.map f else l[j]? := by
  induction is generalizing l with
  | nil => rfl
  | cons i is ih =>
    rw [List.foldl_cons, ih, List.getElem?_modify]
    by_cases hij : i = j
    · subst hij
      rw [if_pos List.mem_cons_self]
      simp only [if_pos]
      split
      · cases l[i]? with
        | none => rfl
        | some a => exact congrArg some (hf a)
      · rfl
    · have hmem : j ∈ i :: is ↔ j ∈ is := by simp [Ne.symm hij]
      simp [hij, hmem]

theorem closeConnection_twice (now : TimePoint) (a : TimedPeer) :
    closeConnection now (closeConnection now a) = closeConnection now a := by
  unfold closeConnection
  by_cases hmin : a.connectionTerminatedTime ≠ .min
  · simp only [if_pos hmin]
    split <;> rfl
  · simp only [if_neg hmin]

theorem disconnectForcibly_twice (now : TimePoint) (a : TimedPeer) :
    disconnectForcibly now (disconnectForcibly now a) = disconnectForcibly now a :=
  closeConnection_twice now { a with connection := .terminating }

theorem disconnectGently_twice (now : TimePoint) (a : TimedPeer) :
    disconnectGently now (disconnectGently now a) = disconnectGently now a := by
  by_cases hthey : a.theyHaveRequestedClose = true
  · have hclosed : disconnectGently now a = closeConnection now { a with connection := .closing } :=
      if_pos hthey
    have hagain : (closeConnection now { a with connection := .closing }).theyHaveRequestedClose
        = true := hthey
    rw [hclosed, disconnectGently, if_pos hagain]
    exact closeConnection_twice now { a with connection := .closing }
  · simp [disconnectGently, hthey]

section

variable (now : TimePoint) (is : List Nat) (o : Outcome)

theorem gently_peers :
    (is.foldl (Outcome.disconnectFromPeer now) o).peers
      = is.foldl (fun ps i => ps.modify i (disconnectGently now)) o.peers := by
  induction is generalizing o with
  | nil => rfl
  | cons i is ih => exact ih (o.disconnectFromPeer now i)

theorem gently_sent_mono {m : Nat × Sent} (h : m ∈ o.sent) :
    m ∈ (is.foldl (Outcome.disconnectFromPeer now) o).sent := by
  induction is generalizing o with
  | nil => exact h
  | cons i is ih => exact ih _ (List.mem_append_left _ h)

theorem keepAlive_peers : (is.foldl Outcome.sendKeepAlive o).peers = o.peers := by
  induction is generalizing o with
  | nil => rfl
  | cons i is ih => exact ih (o.sendKeepAlive i)

theorem keepAlive_sent {m : Nat × Sent} (h : m ∈ o.sent) :
    m ∈ (is.foldl Outcome.sendKeepAlive o).sent := by
  induction is generalizing o with
  | nil => exact h
  | cons i is ih => exact ih _ (List.mem_append_left _ h)

/- A peer that has not asked to close is told. -/
theorem gently_sent {i : Nat} {a : TimedPeer} (hi : i ∈ is) (hpeer : o.peers[i]? = some a)
    (hthey : a.theyHaveRequestedClose = false) :
    (i, .closingConnection) ∈ (is.foldl (Outcome.disconnectFromPeer now) o).sent := by
  induction is generalizing o a with
  | nil => cases hi
  | cons j is ih =>
    by_cases hij : j = i
    · subst hij
      refine gently_sent_mono now is (o.disconnectFromPeer now j) ?_
      have hnot : o.peers[j]?.any (·.theyHaveRequestedClose) = false := by simp [hpeer, hthey]
      simp [Outcome.disconnectFromPeer, hnot]
    · have hrest : i ∈ is := (List.mem_cons.1 hi).resolve_left (Ne.symm hij)
      refine ih (o.disconnectFromPeer now j) hrest (a := a) ?_ hthey
      change (o.peers.modify j (disconnectGently now))[i]? = some a
      rw [List.getElem?_modify_ne _ _ hij]
      exact hpeer

end

section

variable {σ} {peers : List TimedPeer} {i : Nat} {a : TimedPeer}

/- What the run makes of an active peer. -/
theorem active_outcome (hpeer : peers[i]? = some a) (hactive : a.connection = .active) :
    let l := sortPeers σ peers.zipIdx
    (i ∉ l.gently → i ∉ l.forcibly →
      (terminateInactiveConnections σ peers).peers[i]? = some a) ∧
    (i ∉ l.gently → i ∈ l.forcibly →
      (terminateInactiveConnections σ peers).peers[i]? = some (disconnectForcibly (σ.now 6) a)) ∧
    (i ∈ l.gently → i ∉ l.forcibly →
      (terminateInactiveConnections σ peers).peers[i]? = some (disconnectGently (σ.now 7) a) ∧
      (a.theyHaveRequestedClose = false →
        (i, .closingConnection) ∈ (terminateInactiveConnections σ peers).sent)) := by
  have hterminate := (sorted_gently (σ := σ) hpeer hactive).2.2
  intro l
  have hterminated : (l.terminate.foldl (fun ps i => ps.modify i schedulePeerForDeletion)
      peers)[i]? = some a := by
    rw [foldl_modify (f := schedulePeerForDeletion) (fun _ => rfl), if_neg hterminate, hpeer]
  have hpeers : (terminateInactiveConnections σ peers).peers[i]?
      = if i ∈ l.gently then
          (if i ∈ l.forcibly then some (disconnectForcibly (σ.now 6) a) else some a).map
            (disconnectGently (σ.now 7))
        else if i ∈ l.forcibly then some (disconnectForcibly (σ.now 6) a) else some a := by
    unfold terminateInactiveConnections
    simp only [keepAlive_peers, gently_peers]
    rw [foldl_modify (disconnectGently_twice _), foldl_modify (disconnectForcibly_twice _),
      hterminated]
    rfl
  refine ⟨?_, ?_, ?_⟩
  · intro hg hf
    rw [hpeers, if_neg hg, if_neg hf]
  · intro hg hf
    rw [hpeers, if_neg hg, if_pos hf]
  · intro hg hf
    refine ⟨?_, ?_⟩
    · rw [hpeers, if_pos hg, if_neg hf]
      rfl
    · intro hthey
      apply keepAlive_sent
      refine gently_sent _ _ _ hg (a := a) ?_ hthey
      rw [foldl_modify (disconnectForcibly_twice _), hterminated, if_neg hf]

end

/-! ### The dropped peers -/

/-- The stalled peers are dropped exactly when no active peer that sends something is late with sync
items; one that is stops the walk, and neither it nor a peer behind it is dropped. -/
theorem stalledPeersDropped_iff (peers : List TimedPeer) :
    StalledPeersDropped σ peers (terminateInactiveConnections σ peers) ↔
      ∀ a ∈ peers, a.connection = .active → inactive σ a = false → syncIgnored σ a = false := by
  constructor
  · intro h a ha hactive hlive
    by_contra hsync
    rw [Bool.not_eq_false] at hsync
    obtain ⟨i, hi⟩ := List.mem_iff_getElem?.1 ha
    have hnone : examine σ a = none := by
      simp [examine, hlive, hsync]
    have hsorted := sorted_gently (σ := σ) hi hactive
    have hnot : ∀ v, i ∉ judged σ v (walked σ peers.zipIdx) := by
      intro v hv
      have := mem_judged hi hv
      rw [hnone] at this
      cases this
    have hsame := (active_outcome hi hactive).1 (fun hg => hnot _ (hsorted.1.1 hg))
      (fun hf => hnot _ (hsorted.2.1.1 hf))
    obtain ⟨b, hb, hterminating, -⟩ := (h i a hi hactive).2 hlive (.inl hsync)
    rw [hsame] at hb
    cases hb
    rw [hactive] at hterminating
    cases hterminating
  · intro h i a hi hactive
    have hall : walked σ peers.zipIdx = peers.zipIdx := by
      unfold walked
      rw [List.takeWhile_eq_self_iff]
      intro p hp
      obtain ⟨b, j⟩ := p
      apply decide_eq_true
      intro hb
      have hmem : b ∈ peers := List.mem_of_getElem? (mem_zipIdx_iff.1 hp)
      unfold examine
      cases hin : inactive σ b with
      | true => simp
      | false =>
        simp only [h b hmem hb hin, Bool.false_eq_true, if_false]
        repeat' split
        all_goals simp
    have hsorted := sorted_gently (σ := σ) hi hactive
    have hjudged : ∀ v, i ∈ judged σ v (walked σ peers.zipIdx) ↔ examine σ a = some v := by
      intro v
      refine ⟨mem_judged hi, fun hv => ?_⟩
      rw [hall]
      exact mem_select.2 ⟨a, mem_zipIdx_iff.2 hi, hactive, decide_eq_true hv⟩
    rw [hjudged, hjudged] at hsorted
    constructor
    · intro hinactive
      have hv : examine σ a = some .gently := by simp [examine, hinactive]
      have hout := (active_outcome hi hactive).2.2 (hsorted.1.2 hv)
        (fun hf => by have := hsorted.2.1.1 hf; rw [hv] at this; cases this)
      refine ⟨_, hout.1, ?_, ?_⟩
      · unfold disconnectGently
        split <;> rfl
      · cases hthey : a.theyHaveRequestedClose with
        | true =>
          left
          simp [disconnectGently, hthey, closeConnection]
        | false =>
          right
          exact ⟨by simp [disconnectGently, hthey], hout.2 hthey⟩
    · intro hlive hstalled
      have hsync : syncIgnored σ a = false := h a (List.mem_of_getElem? hi) hactive hlive
      have hv : examine σ a = some .forcibly := by
        rcases hstalled with hs | hids | hitem
        · rw [hsync] at hs
          cases hs
        · simp [examine, hlive, hsync, hids]
        · simp [examine, hlive, hsync, hitem]
      have hout := (active_outcome hi hactive).2.1
        (fun hg => by have := hsorted.1.1 hg; rw [hv] at this; cases this) (hsorted.2.1.2 hv)
      exact ⟨_, hout, rfl, rfl⟩

/- Two peers, both long silent on a request: the first for sync items, the second for ids. -/
def stalledSync : TimedPeer where
  connection := .active
  syncItemsRequestedFromPeer := {7}
  connectionInitiationTime := seconds 100
  lastMessageReceivedTime := seconds 999
  lastMessageSentTime := seconds 999
  lastSyncItemReceivedTime := seconds 990

def stalledIds : TimedPeer where
  connection := .active
  itemIdsRequestedFromPeer := some []
  connectionInitiationTime := seconds 100
  lastMessageReceivedTime := seconds 999
  lastMessageSentTime := seconds 999
  itemIdsRequestTime := seconds 990

def noon : Setting where
  now _ := seconds 1000

/-- Behind a peer that is late with sync items the other is not dropped, and neither is that peer;
in front of it the other is. -/
theorem stalled_peer_kept :
    ¬StalledPeersDropped noon [stalledSync, stalledIds]
        (terminateInactiveConnections noon [stalledSync, stalledIds]) ∧
      ¬ForceDisconnected (terminateInactiveConnections noon [stalledSync, stalledIds]) 0 ∧
      ¬ForceDisconnected (terminateInactiveConnections noon [stalledSync, stalledIds]) 1 ∧
      ForceDisconnected (terminateInactiveConnections noon [stalledIds, stalledSync]) 0 := by
  have hkept : (terminateInactiveConnections noon [stalledSync, stalledIds]).peers.map
      (·.connection) = [.active, .active] := by decide
  have hnot : ∀ i, ¬ForceDisconnected (terminateInactiveConnections noon [stalledSync, stalledIds])
      i := by
    intro i hforced
    obtain ⟨b, hb, hterminating, -⟩ := hforced
    have hmem := List.mem_map_of_mem (f := (·.connection)) (List.mem_of_getElem? hb)
    rw [hkept, hterminating] at hmem
    simp at hmem
  refine ⟨fun h => ?_, hnot 0, hnot 1, ?_⟩
  · exact hnot 1 ((h 1 stalledIds rfl rfl).2 (by decide) (.inr (.inl (by decide))))
  · exact ⟨disconnectForcibly (seconds 1000) stalledIds, rfl, rfl, rfl⟩

end Inactivity

end WeNode.Net
