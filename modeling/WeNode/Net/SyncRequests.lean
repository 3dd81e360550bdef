import WeNode.Lib.Events
import WeNode.Lib.Parts
import WeNode.Net.Node
import Mathlib.Tactic

/-!
# Requests for sync blocks

`_active_sync_requests` is the union of what the connected peers are asked for, and no two of them
are asked for the same block, except after two kinds of steps.  A peer that does not have a block is
no longer asked for it, but the request stays active.  And a peer whose connection has closed may
still be on the list of those to disconnect, which puts it back among the connections.
-/

namespace WeNode.Net

open WeNode.Lib

variable {β : Type} {cfg : Config β} {n n' : Node β} {i : Nat} {a : Peer}

/- A peer of the lists of active, closing and terminating connections. -/
def Peer.connected (a : Peer) : Bool :=
  a.connection = .active ∨ a.connection = .closing ∨ a.connection = .terminating

/-- What a connected peer is asked for. -/
def Peer.outstanding (a : Peer) : Finset Hash :=
  if a.connected then a.syncItemsRequestedFromPeer else ∅

/-- The requests are tracked exactly. -/
structure Node.Tracked (n : Node β) : Prop where
  keys : ∀ x, x ∈ n.activeSyncRequests ↔
    ∃ a ∈ n.peers, a.connected ∧ x ∈ a.syncItemsRequestedFromPeer
  once : n.peers.Pairwise fun a b => a.connected → b.connected →
    Disjoint a.syncItemsRequestedFromPeer b.syncItemsRequestedFromPeer

theorem Peer.mem_outstanding {x : Hash} :
    x ∈ a.outstanding ↔ a.connected ∧ x ∈ a.syncItemsRequestedFromPeer := by
  unfold outstanding
  split <;> simp_all

theorem Node.tracked_iff :
    n.Tracked ↔ Parts (n.peers.map Peer.outstanding) n.activeSyncRequests := by
  have hkeys : ∀ x, (∃ t ∈ n.peers.map Peer.outstanding, x ∈ t) ↔
      ∃ a ∈ n.peers, a.connected ∧ x ∈ a.syncItemsRequestedFromPeer := fun x => by
    simp [Peer.mem_outstanding]
  have honce : ∀ a b : Peer, Disjoint a.outstanding b.outstanding ↔
      (a.connected → b.connected →
        Disjoint a.syncItemsRequestedFromPeer b.syncItemsRequestedFromPeer) := fun a b => by
    unfold Peer.outstanding
    cases a.connected <;> cases b.connected <;> simp
  constructor
  · rintro ⟨h₁, h₂⟩
    refine ⟨List.pairwise_map.2 (h₂.imp fun h => (honce _ _).2 h), fun x => ?_⟩
    rw [hkeys, h₁]
  · rintro ⟨h₁, h₂⟩
    refine ⟨fun x => ?_, (List.pairwise_map.1 h₁).imp fun h => (honce _ _).1 h⟩
    rw [← hkeys, h₂]

/-- The invariant: peers are asked for nothing before they are active, and an open connection is on
one of the lists. -/
structure Node.Kept (n : Node β) : Prop where
  parts : Parts (n.peers.map Peer.outstanding) n.activeSyncRequests
  quiet : ∀ a ∈ n.peers, a.connection = .handshaking → a.syncItemsRequestedFromPeer = ∅
  listed : ∀ a ∈ n.peers, a.isOpen → a.connection ≠ .closed

/- All that the invariant reads of a peer. -/
def Peer.key (a : Peer) : Connection × Bool × Finset Hash :=
  (a.connection, a.isOpen, a.syncItemsRequestedFromPeer)

namespace Node.Kept

/-! ### Steps that change no request -/

theorem congr (h : n.Kept) (hactive : n'.activeSyncRequests = n.activeSyncRequests)
    (hpeers : n'.peers.map Peer.key = n.peers.map Peer.key) : n'.Kept := by
  have hout : n'.peers.map Peer.outstanding = n.peers.map Peer.outstanding := by
    have hkey : Peer.outstanding = (fun k : Connection × Bool × Finset Hash =>
        if (k.1 = .active ∨ k.1 = .closing ∨ k.1 = .terminating : Bool) then k.2.2 else ∅) ∘
          Peer.key := rfl
    rw [hkey, ← List.map_map, hpeers, List.map_map]
  have hmem : ∀ a ∈ n'.peers, ∃ b ∈ n.peers, b.key = a.key := fun a ha =>
    List.mem_map.1 (hpeers ▸ List.mem_map_of_mem ha)
  refine ⟨by rw [hout, hactive]; exact h.parts, fun a ha hshake => ?_, fun a ha hopen => ?_⟩
  · obtain ⟨b, hb, hkey⟩ := hmem a ha
    obtain ⟨hc, -, hs⟩ : b.connection = a.connection ∧ b.isOpen = a.isOpen ∧
      b.syncItemsRequestedFromPeer = a.syncItemsRequestedFromPeer := by simpa [Peer.key] using hkey
    rw [← hs]
    exact h.quiet b hb (hc.trans hshake)
  · obtain ⟨b, hb, hkey⟩ := hmem a ha
    obtain ⟨hc, ho, -⟩ : b.connection = a.connection ∧ b.isOpen = a.isOpen ∧
      b.syncItemsRequestedFromPeer = a.syncItemsRequestedFromPeer := by simpa [Peer.key] using hkey
    rw [← hc]
    exact h.listed b hb (ho.trans hopen)

theorem modify (h : n.Kept) {f : Peer → Peer} (hf : ∀ a, (f a).key = a.key) :
    (n.modifyPeer i f).Kept := by
  refine h.congr rfl ?_
  show (n.peers.modify i f).map Peer.key = n.peers.map Peer.key
  refine List.ext_getElem? fun j => ?_
  rw [List.getElem?_map, List.getElem?_map, List.getElem?_modify]
  cases n.peers[j]? with
  | none => rfl
  | some a =>
    split
    · exact congrArg some (hf a)
    · rfl

theorem modifyActive (h : n.Kept) {f : Peer → Peer} (hf : ∀ a, (f a).key = a.key) :
    (n.modifyActive f).Kept := by
  refine h.congr rfl ?_
  show (n.peers.map _).map Peer.key = n.peers.map Peer.key
  rw [List.map_map]
  refine List.map_congr_left fun a _ => ?_
  show (if a.isActive then f a else a).key = a.key
  split
  · exact hf a
  · rfl

/-! ### Steps that move a peer -/

/- A peer in the middle of the list, and the invariant for what replaces it. -/
theorem replace {f : Peer → Peer} {active : Finset Hash} (h : n.Kept) (hi : n.peers[i]? = some a)
    (hparts : ∀ pre post : List (Finset Hash), Parts (pre ++ a.outstanding :: post) n.activeSyncRequests →
      Parts (pre ++ (f a).outstanding :: post) active)
    (hquiet : (f a).connection = .handshaking → (f a).syncItemsRequestedFromPeer = ∅)
    (hlisted : (f a).isOpen → (f a).connection ≠ .closed) :
    ({ n.modifyPeer i f with activeSyncRequests := active } : Node β).Kept := by
  obtain ⟨pre, post, hl, hmodify⟩ := split_modify hi
  have hold := h.parts
  rw [hl, List.map_append, List.map_cons] at hold
  have hpeers : ∀ b ∈ (n.modifyPeer i f).peers, b = f a ∨ b ∈ n.peers := by
    intro b hb
    show b = f a ∨ b ∈ n.peers
    have hb : b ∈ n.peers.modify i f := hb
    rw [hmodify] at hb
    rw [hl]
    simp only [List.mem_append, List.mem_cons] at hb ⊢
    tauto
  refine ⟨?_, fun b hb => ?_, fun b hb => ?_⟩
  · show Parts ((n.peers.modify i f).map Peer.outstanding) active
    rw [hmodify, List.map_append, List.map_cons]
    exact hparts _ _ hold
  · rcases hpeers b hb with rfl | hb
    · exact hquiet
    · exact h.quiet b hb
  · rcases hpeers b hb with rfl | hb
    · exact hlisted
    · exact h.listed b hb

theorem outstanding_eq (h : n.Kept) (hi : n.peers[i]? = some a) (hc : a.connection ≠ .closed) :
    a.outstanding = a.syncItemsRequestedFromPeer := by
  have hquiet := h.quiet a (List.mem_of_getElem? hi)
  unfold Peer.outstanding Peer.connected
  cases hconn : a.connection <;> simp_all

/-- A connection goes on to another list. -/
theorem move (h : n.Kept) (hi : n.peers[i]? = some a) (hc : a.connection ≠ .closed)
    {c : Connection} (hnew : c = .active ∨ c = .closing ∨ c = .terminating) :
    (n.modifyPeer i fun a => { a with connection := c }).Kept := by
  refine h.replace hi (f := fun a => { a with connection := c }) (fun pre post hparts => ?_)
    (fun hshake => ?_) fun _ hclosed => ?_
  · have hout : ({ a with connection := c } : Peer).outstanding = a.outstanding := by
      rw [h.outstanding_eq hi hc]
      unfold Peer.outstanding Peer.connected
      rcases hnew with rfl | rfl | rfl <;> simp
    exact hout ▸ hparts
  · have hshake : c = .handshaking := hshake
    rcases hnew with rfl | rfl | rfl <;> cases hshake
  · have hclosed : c = .closed := hclosed
    rcases hnew with rfl | rfl | rfl <;> cases hclosed

theorem onConnectionClosed (h : n.Kept) (hi : n.peers[i]? = some a) (ho : a.isOpen) :
    (n.onConnectionClosed i a).Kept := by
  have hc := h.listed a (List.mem_of_getElem? hi) ho
  refine congr (n := { n.modifyPeer i fun a => { a with connection := .closed, isOpen := false } with
    activeSyncRequests := n.activeSyncRequests \ a.syncItemsRequestedFromPeer }) ?_ rfl rfl
  refine h.replace hi (f := fun a => { a with connection := .closed, isOpen := false })
    (fun pre post hparts => ?_) nofun nofun
  have hsame := hparts.sdiff (Finset.Subset.refl a.outstanding)
  rw [Finset.sdiff_self] at hsame
  rwa [← h.outstanding_eq hi hc]

/-! ### Requests and answers -/

theorem blockReceived (h : n.Kept) (hi : n.peers[i]? = some a) (ho : a.isOpen) {x : Hash}
    (hx : x ∈ a.syncItemsRequestedFromPeer) {new : List (BlockMessage β)} :
    ({ n.modifyPeer i fun a => { a with
        syncItemsRequestedFromPeer := a.syncItemsRequestedFromPeer.erase x } with
      activeSyncRequests := n.activeSyncRequests.erase x
      newReceivedSyncItems := new } : Node β).Kept := by
  have hc := h.listed a (List.mem_of_getElem? hi) ho
  have hquiet := h.quiet a (List.mem_of_getElem? hi)
  refine congr (n := { n.modifyPeer i fun a => { a with
    syncItemsRequestedFromPeer := a.syncItemsRequestedFromPeer.erase x } with
    activeSyncRequests := n.activeSyncRequests.erase x }) ?_ rfl rfl
  refine h.replace hi (f := fun a => { a with
    syncItemsRequestedFromPeer := a.syncItemsRequestedFromPeer.erase x })
    (fun pre post hparts => ?_) (fun hshake => ?_) fun _ => hc
  · have hout := h.outstanding_eq hi hc
    have hnew : ({ a with syncItemsRequestedFromPeer := a.syncItemsRequestedFromPeer.erase x } :
        Peer).outstanding = a.outstanding \ {x} := by
      rw [hout, Finset.sdiff_singleton_eq_erase]
      unfold Peer.outstanding at hout ⊢
      split
      · rfl
      · next hnot =>
        have hnot' : ¬ a.connected = true := hnot
        rw [if_neg hnot'] at hout
        rw [← hout]
        rfl
    rw [hnew, ← Finset.sdiff_singleton_eq_erase]
    refine hparts.sdiff (Finset.singleton_subset_iff.2 ?_)
    rwa [hout]
  · show a.syncItemsRequestedFromPeer.erase x = ∅
    rw [hquiet hshake]
    rfl

theorem request (h : n.Kept) (hi : n.peers[i]? = some a) (hactive : a.connection = .active)
    {items : List Hash} (hfree : Disjoint items.toFinset n.activeSyncRequests) :
    (n.requestSyncItemsFromPeer i items).Kept := by
  refine h.replace hi (f := fun a => { a with
    syncItemsRequestedFromPeer := a.syncItemsRequestedFromPeer ∪ items.toFinset })
    (fun pre post hparts => ?_) (fun hshake => ?_) fun _ hclosed => ?_
  · have hconnected : a.connected := by simp [Peer.connected, hactive]
    have hout : a.outstanding = a.syncItemsRequestedFromPeer := if_pos hconnected
    have hnew : ({ a with syncItemsRequestedFromPeer :=
        a.syncItemsRequestedFromPeer ∪ items.toFinset } : Peer).outstanding =
          a.outstanding ∪ items.toFinset := by
      rw [hout]
      exact if_pos hconnected
    rw [hnew]
    exact hparts.union hfree
  · cases hactive.symm.trans hshake
  · cases hactive.symm.trans hclosed

end Node.Kept

/-! ### The fetch loop -/

/- The ids chosen for one peer may be requested, and none of them was chosen before. -/
theorem Node.chooseIds_spec (may : Hash → Bool) (most : Nat) (ids l : List Hash)
    (chosen : Finset Hash) : ∃ new,
      (Node.chooseIds may most ids l chosen).1 = l ++ new ∧
      (∀ x ∈ new, may x ∧ x ∉ chosen ∧ x ∈ (Node.chooseIds may most ids l chosen).2) ∧
      chosen ⊆ (Node.chooseIds may most ids l chosen).2 := by
  induction ids generalizing l chosen with
  | nil => exact ⟨[], (List.append_nil l).symm, by simp, Finset.Subset.refl _⟩
  | cons x ids ih =>
    unfold Node.chooseIds
    split
    · next hx =>
      split
      · exact ⟨[x], rfl, by simp [hx], Finset.subset_insert x chosen⟩
      · obtain ⟨new, hl, hnew, hsub⟩ := ih (l ++ [x]) (insert x chosen)
        refine ⟨x :: new, by rw [hl, List.append_assoc]; rfl, fun y hy => ?_,
          (Finset.subset_insert x chosen).trans hsub⟩
        rcases List.mem_cons.1 hy with rfl | hy
        · exact ⟨hx.1, hx.2, hsub (Finset.mem_insert_self y chosen)⟩
        · obtain ⟨hmay, hnot, hin⟩ := hnew y hy
          exact ⟨hmay, fun hc => hnot (Finset.mem_insert_of_mem hc), hin⟩
    · exact ih l chosen

/-- The requests scheduled so far: of active peers, for ids that may be requested, no id twice. -/
structure Node.Scheduled (n : Node β) (requests : List (Nat × List Hash)) (chosen : Finset Hash) :
    Prop where
  active : ∀ r ∈ requests, ∃ a, n.peers[r.1]? = some a ∧ a.connection = .active
  may : ∀ r ∈ requests, ∀ x ∈ r.2, n.mayRequest x ∧ x ∈ chosen
  once : requests.Pairwise fun r s => Disjoint r.2.toFinset s.2.toFinset

theorem Node.choosePeers_scheduled {order : List Nat} {requests : List (Nat × List Hash)}
    {chosen : Finset Hash} (h : n.Scheduled requests chosen) :
    ∃ chosen', n.Scheduled (n.choosePeers cfg order requests chosen) chosen' := by
  induction order generalizing requests chosen with
  | nil => exact ⟨chosen, h⟩
  | cons i order ih =>
    unfold Node.choosePeers
    split
    · exact ih h
    · next a ha =>
      split
      · next hpeer =>
        obtain ⟨new, hl, hnew, hsub⟩ := Node.chooseIds_spec n.mayRequest
          cfg.maximumBlocksPerPeer a.idsOfItemsToGet [] chosen
        generalize Node.chooseIds n.mayRequest cfg.maximumBlocksPerPeer a.idsOfItemsToGet [] chosen =
          r at hl hnew hsub ⊢
        obtain ⟨l, chosen'⟩ := r
        obtain rfl : l = new := hl
        have hgrow : n.Scheduled requests chosen' :=
          ⟨h.active, fun r hr x hx => ⟨(h.may r hr x hx).1, hsub (h.may r hr x hx).2⟩, h.once⟩
        have hnext : n.Scheduled (if l = [] then requests else requests ++ [(i, l)]) chosen' := ?_
        · exact ih hnext
        split
        · exact hgrow
        · refine ⟨fun r hr => ?_, fun r hr x hx => ?_, ?_⟩
          · rcases List.mem_append.1 hr with hr | hr
            · exact h.active r hr
            · rw [List.mem_singleton.1 hr]
              exact ⟨a, ha, by simpa [Peer.isActive] using hpeer.1⟩
          · rcases List.mem_append.1 hr with hr | hr
            · exact hgrow.may r hr x hx
            · rw [List.mem_singleton.1 hr] at hx
              exact ⟨(hnew x hx).1, (hnew x hx).2.2⟩
          · refine List.pairwise_append.2 ⟨h.once, List.pairwise_singleton _ _, fun r hr s hs => ?_⟩
            rw [List.mem_singleton.1 hs, Finset.disjoint_left]
            intro x hx hx'
            exact (hnew x (List.mem_toFinset.1 hx')).2.1 (h.may r hr x (List.mem_toFinset.1 hx)).2
      · exact ih h

theorem Node.Kept.requests {requests : List (Nat × List Hash)} (h : n.Kept)
    (hactive : ∀ r ∈ requests, ∃ a, n.peers[r.1]? = some a ∧ a.connection = .active)
    (hfree : ∀ r ∈ requests, Disjoint r.2.toFinset n.activeSyncRequests)
    (honce : requests.Pairwise fun r s => Disjoint r.2.toFinset s.2.toFinset) :
    (requests.foldl (fun n r => n.requestSyncItemsFromPeer r.1 r.2) n).Kept := by
  induction requests generalizing n with
  | nil => exact h
  | cons r requests ih =>
    obtain ⟨a, ha, hconn⟩ := hactive r List.mem_cons_self
    obtain ⟨hfirst, honce⟩ := List.pairwise_cons.1 honce
    refine ih (h.request ha hconn (hfree r List.mem_cons_self)) (fun s hs => ?_) (fun s hs => ?_) honce
    · obtain ⟨b, hb, hbconn⟩ := hactive s (List.mem_cons_of_mem r hs)
      have hget : (n.requestSyncItemsFromPeer r.1 r.2).peers[s.1]? = _ :=
        List.getElem?_modify _ _ _ _
      rw [hget, hb]
      split <;> exact ⟨_, rfl, hbconn⟩
    · show Disjoint s.2.toFinset (n.activeSyncRequests ∪ r.2.toFinset)
      rw [Finset.disjoint_union_right]
      exact ⟨hfree s (List.mem_cons_of_mem r hs), (hfirst s hs).symm⟩

theorem Node.Kept.fetchSyncItems {order : List Nat} (h : n.Kept) :
    (n.fetchSyncItems cfg order).Kept := by
  have hnone : n.Scheduled [] ∅ := ⟨by simp, by simp, .nil⟩
  obtain ⟨chosen, hs⟩ : ∃ chosen, n.Scheduled (n.choosePeers cfg order [] ∅) chosen :=
    Node.choosePeers_scheduled hnone
  refine h.requests hs.active (fun r hr => Finset.disjoint_left.2 fun x hx hactive => ?_) hs.once
  have hmay := (hs.may r hr x (List.mem_toFinset.1 hx)).1
  simp [Node.mayRequest, hactive] at hmay

/-! ### Runs -/

/-- No peer says that it lacks a block it is asked for in sync, and no connection that has closed
is disconnected. -/
def Node.Event.keepsTrack (n : Node β) : Node.Event β → Bool
  | .itemNotAvailable i item => n.peers[i]?.all fun a =>
      item ∈ a.itemsRequestedFromPeer ∨ item.itemHash ∉ a.syncItemsRequestedFromPeer
  | .disconnect i => n.peers[i]?.all (·.connection ≠ .closed)
  | _ => true

namespace Node.Kept

theorem disconnectFromPeer (h : n.Kept) (hi : n.peers[i]? = some a) (hc : a.connection ≠ .closed) :
    (n.disconnectFromPeer i).Kept := h.move hi hc (.inr (.inl rfl))

theorem newPeerJustAdded (h : n.Kept) (hi : n.peers[i]? = some a)
    (hc : a.connection = .handshaking) : (n.newPeerJustAdded i).Kept :=
  (h.move hi (hc ▸ nofun) (.inl rfl)).modify fun _ => rfl

theorem appendIds_key (has : Hash → Bool) (first : Bool) (a : Peer) (hashes : List Hash) :
    (appendIds has first a hashes).key = a.key := by
  unfold appendIds
  split
  · rfl
  · split
    · split <;> rfl
    · split <;> rfl

theorem onBlockchainItemIdsInventory {hashes : List Hash} {remaining : Nat} {has : Hash → Bool}
    {timely : Bool} (h : n.Kept) (hi : n.peers[i]? = some a) (ho : a.isOpen) :
    (n.onBlockchainItemIdsInventory cfg i a hashes remaining has timely).Kept := by
  have hc := h.listed a (List.mem_of_getElem? hi) ho
  -- the handler writes back the peer it has read, with other ids
  have hset : ∀ b : Peer, b.key = a.key → (n.modifyPeer i fun _ => b).Kept ∧
      ∃ b', (n.modifyPeer i fun _ => b).peers[i]? = some b' ∧ b'.connection ≠ .closed := by
    intro b hb
    obtain ⟨hbc, hbo, hbs⟩ : b.connection = a.connection ∧ b.isOpen = a.isOpen ∧
      b.syncItemsRequestedFromPeer = a.syncItemsRequestedFromPeer := by simpa [Peer.key] using hb
    refine ⟨h.replace hi (fun pre post hparts => ?_) (fun hshake => ?_) fun _ => hbc ▸ hc, b, ?_,
      hbc ▸ hc⟩
    · have hout : b.outstanding = a.outstanding := by
        unfold Peer.outstanding Peer.connected
        rw [hbc, hbs]
      exact hout ▸ hparts
    · rw [hbs]
      exact h.quiet a (List.mem_of_getElem? hi) (hbc ▸ hshake)
    · exact (List.getElem?_modify _ _ _ _).trans (by rw [hi]; simp)
  unfold Node.onBlockchainItemIdsInventory
  split
  · exact h
  · split
    · exact h.disconnectFromPeer hi hc
    · dsimp only
      split
      · exact (hset { a with
          itemIdsRequestedFromPeer := none, weNeedSyncItemsFromPeer := false } rfl).1
      · generalize (n.peers.zipIdx.any _) = first
        have hkey := appendIds_key has first { a with
          itemIdsRequestedFromPeer := none, numberOfUnfetchedItemIds := remaining } hashes
        obtain ⟨hkept, b, hb, hbc⟩ := hset { appendIds has first { a with
            itemIdsRequestedFromPeer := none, numberOfUnfetchedItemIds := remaining } hashes with
          numberOfUnfetchedItemIds := remaining } hkey
        split
        · exact hkept
        · exact hkept.disconnectFromPeer hb hbc

theorem onItemNotAvailable {item : ItemId} (h : n.Kept)
    (hitem : item ∈ a.itemsRequestedFromPeer ∨ item.itemHash ∉ a.syncItemsRequestedFromPeer) :
    (n.onItemNotAvailable i a item).Kept := by
  unfold Node.onItemNotAvailable
  split
  · have hmodify : (n.modifyPeer i fun a => { a with
        itemsRequestedFromPeer := a.itemsRequestedFromPeer.erase item
        inventoryPeerAdvertisedToUs := a.inventoryPeerAdvertisedToUs.erase item }).Kept :=
      h.modify fun _ => rfl
    dsimp only
    split
    · exact hmodify.congr rfl rfl
    · exact hmodify
  · next hnot => rwa [if_neg (hitem.resolve_left hnot)]

theorem treatAsAccepted {m : BlockMessage β} (h : n.Kept) : (n.treatAsAccepted cfg m).Kept := by
  refine Kept.congr (h.modifyActive (f := fun a =>
    if ⟨.block, cfg.messageHash m⟩ ∈ a.inventoryPeerAdvertisedToUs then { a with
      lastBlockDelegateHasSeen := m.blockId
      seenInBlock := true } else a) fun a => ?_) rfl rfl
  split <;> rfl

theorem processBlockMessage {m : BlockMessage β} (h : n.Kept) (hi : n.peers[i]? = some a)
    (ho : a.isOpen) : (n.processBlockMessage cfg i a m).Kept := by
  unfold Node.processBlockMessage
  split
  · have hmodify : (n.modifyPeer i fun a => { a with
        itemsRequestedFromPeer := a.itemsRequestedFromPeer.erase ⟨.block, cfg.messageHash m⟩ }).Kept :=
      h.modify fun _ => rfl
    dsimp only
    split
    · exact hmodify.congr rfl rfl
    · exact hmodify.treatAsAccepted
  · split
    · next hx => exact h.blockReceived hi ho hx
    · exact h.disconnectFromPeer hi (h.listed a (List.mem_of_getElem? hi) ho)

theorem processBacklogOfSyncBlocks (h : n.Kept) : n.processBacklogOfSyncBlocks.Kept := by
  have hstart : ({ n with
    receivedSyncItems := n.newReceivedSyncItems.reverse ++ n.receivedSyncItems
    newReceivedSyncItems := [] } : Node β).Kept := h.congr rfl rfl
  unfold Node.processBacklogOfSyncBlocks
  dsimp only
  split
  · exact hstart
  · next m _ =>
    have hpop := hstart.modifyActive (f := fun a =>
      if a.idsOfItemsToGet.head? = some m.blockId then { a with
        idsOfItemsToGet := a.idsOfItemsToGet.tail
        idsOfItemsBeingProcessed := insert m.blockId a.idsOfItemsBeingProcessed } else a) fun a => by
      split <;> rfl
    split
    · exact hpop.congr rfl rfl
    · exact hpop.modifyActive fun _ => rfl

theorem answered {m : BlockMessage β} {answer : Answer} (h : n.Kept) :
    (n.syncBlockAnswered cfg m answer).Kept ∧ (n.normalBlockAnswered cfg m answer).Kept := by
  have haccepted : (({ n with handed := m :: n.handed } : Node β).pushAccepted cfg m.blockId).Kept :=
    h.congr rfl rfl
  cases answer with
  | accepted =>
    refine ⟨haccepted.modifyActive fun a => ?_, haccepted.treatAsAccepted⟩
    split <;> rfl
  | tooOld =>
    refine ⟨h.modifyActive fun a => ?_, h⟩
    split <;> rfl
  | unlinkable => exact ⟨h, h⟩
  | rejected => exact ⟨h, h⟩

/-- The invariant is kept by every step but the two. -/
theorem step {e : Node.Event β} (h : n.Kept) (he : e.keepsTrack n)
    (hs : n.step cfg e = some n') : n'.Kept := by
  cases e with
  | connect =>
    cases hs
    refine ⟨?_, fun a ha => ?_, fun a ha => ?_⟩
    · show Parts ((n.peers ++ [({} : Peer)]).map Peer.outstanding) n.activeSyncRequests
      rw [List.map_append]
      exact h.parts.append_empty
    · rcases List.mem_append.1 ha with ha | ha
      · exact h.quiet a ha
      · rw [List.mem_singleton.1 ha]
        exact fun _ => rfl
    · rcases List.mem_append.1 ha with ha | ha
      · exact h.listed a ha
      · rw [List.mem_singleton.1 ha]
        exact fun _ => nofun
  | newPeer i =>
    obtain ⟨a, hi, hc, rfl⟩ := Node.onPeer_some hs
    exact h.newPeerJustAdded hi (of_decide_eq_true hc)
  | disconnect i =>
    obtain ⟨a, hi, -, rfl⟩ := Node.onPeer_some hs
    exact h.disconnectFromPeer hi (by simpa [Node.Event.keepsTrack, hi] using he)
  | terminate i =>
    obtain ⟨a, hi, hc, rfl⟩ := Node.onPeer_some hs
    exact h.move hi (of_decide_eq_true hc).2 (.inr (.inr rfl))
  | connectionClosed i =>
    obtain ⟨a, hi, ho, rfl⟩ := Node.onPeer_some hs
    exact h.onConnectionClosed hi ho
  | startSynchronizing i =>
    cases hs
    exact h.modify fun _ => rfl
  | fetchNextBatch i synopsis reset =>
    cases hs
    exact h.modify fun _ => by cases reset <;> rfl
  | itemIds i hashes remaining has timely =>
    obtain ⟨a, hi, ho, rfl⟩ := Node.onPeer_some hs
    exact h.onBlockchainItemIdsInventory hi ho
  | fetchBlockchainItemIds i peerNeeds =>
    obtain ⟨a, -, -, rfl⟩ := Node.onPeer_some hs
    exact h.modify fun _ => rfl
  | fetchSyncItems order =>
    cases hs
    exact h.fetchSyncItems
  | itemNotAvailable i item =>
    obtain ⟨a, hi, ho, rfl⟩ := Node.onPeer_some hs
    exact h.onItemNotAvailable (by simpa [Node.Event.keepsTrack, hi] using he)
  | itemIdsInventory i item fetch =>
    obtain ⟨a, -, -, rfl⟩ := Node.onPeer_some hs
    exact (h.modify (i := i) (f := fun a => { a with
      inventoryPeerAdvertisedToUs := insert item a.inventoryPeerAdvertisedToUs })
      fun _ => rfl).congr rfl rfl
  | clearOldInventory i item =>
    cases hs
    exact h.modify fun _ => rfl
  | fetchItem i item =>
    obtain ⟨a, -, -, rfl⟩ := Node.onPeer_some hs
    exact (h.modify (i := i) (f := fun a => { a with
      itemsRequestedFromPeer := insert item a.itemsRequestedFromPeer }) fun _ => rfl).congr rfl rfl
  | fetchItems i x =>
    obtain ⟨a, -, -, rfl⟩ := Node.onPeer_some hs
    exact h.modify fun _ => rfl
  | blockMessage i m =>
    obtain ⟨a, hi, ho, rfl⟩ := Node.onPeer_some hs
    exact h.processBlockMessage hi ho
  | processBacklog =>
    cases hs
    exact h.processBacklogOfSyncBlocks
  | answered k answer =>
    obtain ⟨task, -, rfl⟩ := Option.map_eq_some_iff.1 hs
    have hrest : ({ n with handling := n.handling.eraseIdx k } : Node β).Kept := h.congr rfl rfl
    cases task with
    | sync m => exact hrest.answered.1
    | normal j m => exact hrest.answered.2
  | broadcast x =>
    cases hs
    exact h.congr rfl rfl
  | syncFrom x =>
    cases hs
    exact h.congr rfl rfl

end Node.Kept

/-- The states of the runs without the two kinds of steps. -/
def Node.Tracking (cfg : Config β) : Node β → Prop :=
  Reaches (fun n e => Node.step cfg n e) (fun n e => e.keepsTrack n) {}

theorem Node.Tracking.kept (h : n.Tracking cfg) : n.Kept := by
  have hstart : ({} : Node β).Kept := ⟨.nil, nofun, nofun⟩
  exact Reaches.invariant hstart (fun _ _ _ hn he hs => hn.step he hs) h

/- Two active peers that offer the same block, which is asked of the first. -/
def demoRequest : List (Node.Event Nat) :=
  [.connect, .newPeer 0, .fetchNextBatch 0 [] false, .itemIds 0 [1] 0 (fun _ => false) true,
    .connect, .newPeer 1, .fetchNextBatch 1 [] false, .itemIds 1 [1] 0 (fun _ => false) true,
    .fetchSyncItems [0, 1]]

end WeNode.Net
