import WeNode.Lib.Events
import WeNode.Net.Node
import Mathlib.Tactic

/-!
# Message ids in processing

`_message_ids_currently_being_processed` holds the ids of the block messages of normal operation that
the delegate works on, and what is advertised under such an id is ignored.  Only a call of
`handle_block` that returns takes its id out again: a call that throws leaves it behind.
-/

namespace WeNode.Net

open WeNode.Lib

variable {β : Type} {cfg : Config β}

/-- A node with `_message_ids_currently_being_processed`. -/
structure Processing (β : Type) extends Node β where
  messageIdsCurrentlyBeingProcessed : Finset Hash := ∅

/-- What the node has to compare advertised items with; other handlers change these at any time. -/
structure Inventory where
  newInventory : Finset ItemId := ∅
  /-- `inventory_advertised_to_peer` of all active peers -/
  advertisedToPeers : Finset ItemId := ∅
  recentlyFailedItems : Finset ItemId := ∅

/- A call of `handle_block` for a block message of normal operation. -/
def Handling.isFor (cfg : Config β) (x : Hash) : Handling β → Bool
  | .sync _ => false
  | .normal _ m => cfg.messageHash m == x

def Answer.isAccepted : Answer → Bool
  | .accepted => true
  | _ => false

namespace Processing

variable (cfg) (s : Processing β)

/-- A call of `handle_block` for the message is running. -/
def isRunning (x : Hash) : Bool := s.handling.any (·.isFor cfg x)

/-- `is_inventory_advertised_to_us_list_full` and the same for transactions -/
def isListFull (a : Peer) (t : ItemType) : Bool :=
  (t = .trx ∧ 2 * 1000 * 60 < a.inventoryPeerAdvertisedToUs.card) ∨
    2 * 1000 * 60 + (2 + 1) * 60 / 1 < a.inventoryPeerAdvertisedToUs.card

/- An active peer has been asked for the item. -/
def isRequested (item : ItemId) : Bool :=
  s.peers.any fun a => a.isActive && item ∈ a.itemsRequestedFromPeer

/- The loop of `on_item_ids_inventory_message`, which a full list of the peer ends. -/
def onItemIds (v : Inventory) (i : Nat) (t : ItemType) : List Hash → Processing β → Processing β
  | [], s => s
  | x :: xs, s =>
    if x ∈ s.messageIdsCurrentlyBeingProcessed then onItemIds v i t xs s
    else if ⟨t, x⟩ ∈ v.newInventory then onItemIds v i t xs s
    else if ⟨t, x⟩ ∈ v.advertisedToPeers then onItemIds v i t xs s
    else if s.peers[i]?.any (isListFull · t) then s
    else onItemIds v i t xs { s with
      toNode := s.toNode.onItemIdsInventory i ⟨t, x⟩
        (!s.isRequested ⟨t, x⟩ && ⟨t, x⟩ ∉ v.recentlyFailedItems) }

/-- `on_item_ids_inventory_message`; what the peer has advertised too long ago is dropped first. -/
def onItemIdsInventoryMessage (v : Inventory) (old : List ItemId) (i : Nat) (t : ItemType)
    (hashes : List Hash) : Processing β :=
  onItemIds v i t hashes
    { s with toNode := old.foldl (fun n item => n.clearOldInventory i item) s.toNode }

/- The message is requested of the peer and its block is not among those accepted last. -/
def entersProcessing (i : Nat) (m : BlockMessage β) : Bool :=
  s.peers[i]?.any fun a =>
    ⟨.block, cfg.messageHash m⟩ ∈ a.itemsRequestedFromPeer ∧ m.blockId ∉ s.mostRecentBlocksAccepted

inductive Event (β : Type) where
  | inventory (v : Inventory) (old : List ItemId) (i : Nat) (t : ItemType) (hashes : List Hash)
  | node (e : Node.Event β)

/- The ids after a step of the node.  Every way in which `handle_block` throws leaves the id. -/
def idsAfter : Node.Event β → Finset Hash
  | .blockMessage i m =>
    if s.entersProcessing cfg i m
    then insert (cfg.messageHash m) s.messageIdsCurrentlyBeingProcessed
    else s.messageIdsCurrentlyBeingProcessed
  | .answered k .accepted =>
    match s.handling[k]? with
    | some (.normal _ m) => s.messageIdsCurrentlyBeingProcessed.erase (cfg.messageHash m)
    | _ => s.messageIdsCurrentlyBeingProcessed
  | _ => s.messageIdsCurrentlyBeingProcessed

/-- Items are advertised only in the messages above. -/
def step : Event β → Option (Processing β)
  | .inventory v old i t hashes =>
    if s.peers[i]?.any (·.isOpen) then some (s.onItemIdsInventoryMessage v old i t hashes) else none
  | .node (.itemIdsInventory ..) => none
  | .node e => (s.toNode.step cfg e).map fun n =>
      { toNode := n, messageIdsCurrentlyBeingProcessed := s.idsAfter cfg e }

/-- The call that ends returns, or its id has been taken out by another call, or another call with
the id goes on. -/
def Event.takesIdOut : Event β → Bool
  | .node (.answered k answer) =>
    match s.handling[k]? with
    | some (.normal _ m) => answer.isAccepted ||
        cfg.messageHash m ∉ s.messageIdsCurrentlyBeingProcessed ||
        (s.handling.eraseIdx k).any (·.isFor cfg (cfg.messageHash m))
    | _ => true
  | _ => true

end Processing

/-! ### The calls that are running -/

namespace Node

variable {n n' : Node β}

theorem requestSyncItems_handling (l : List (Nat × List Hash)) :
    (l.foldl (fun n r => n.requestSyncItemsFromPeer r.1 r.2) n).handling = n.handling := by
  induction l generalizing n with
  | nil => rfl
  | cons r l ih => exact ih

theorem clearOldInventory_handling {i : Nat} (l : List ItemId) :
    (l.foldl (fun n item => n.clearOldInventory i item) n).handling = n.handling := by
  induction l generalizing n with
  | nil => rfl
  | cons item l ih => exact ih

theorem processBlockMessage_handling {i : Nat} {a : Peer} {m : BlockMessage β} :
    (n.processBlockMessage cfg i a m).handling =
      if ⟨.block, cfg.messageHash m⟩ ∈ a.itemsRequestedFromPeer ∧ m.blockId ∉ n.mostRecentBlocksAccepted
      then n.handling ++ [.normal i m] else n.handling := by
  unfold processBlockMessage
  by_cases hitem : ⟨.block, cfg.messageHash m⟩ ∈ a.itemsRequestedFromPeer
  · rw [if_pos hitem]
    by_cases haccepted : m.blockId ∈ n.mostRecentBlocksAccepted
    · exact (congrArg Node.handling (if_neg (not_not.2 haccepted))).trans
        (if_neg fun h => h.2 haccepted).symm
    · exact (congrArg Node.handling (if_pos haccepted)).trans (if_pos ⟨hitem, haccepted⟩).symm
  · refine Eq.trans ?_ (if_neg fun h => hitem h.1).symm
    rw [if_neg hitem]
    split <;> rfl

theorem processBacklog_handling : n.handling <+: n.processBacklogOfSyncBlocks.handling := by
  unfold processBacklogOfSyncBlocks
  dsimp only
  split
  · exact List.prefix_rfl
  · split
    · exact List.prefix_append _ _
    · exact List.prefix_rfl

theorem answered_handling {m : BlockMessage β} (answer : Answer) :
    (n.syncBlockAnswered cfg m answer).handling = n.handling ∧
      (n.normalBlockAnswered cfg m answer).handling = n.handling := by
  cases answer <;> exact ⟨rfl, rfl⟩

/-- A call goes on until it is answered. -/
theorem step_handling {e : Event β} (h : n.step cfg e = some n') :
    match e with
    | .answered k _ => n'.handling = n.handling.eraseIdx k
    | _ => n.handling <+: n'.handling := by
  have onPeer {i : Nat} {allowed : Peer → Bool} {f : Peer → Node β}
      (h : n.onPeer i allowed f = some n') (hf : ∀ a, n.handling <+: (f a).handling) :
      n.handling <+: n'.handling := by
    obtain ⟨a, -, -, rfl⟩ := onPeer_some h
    exact hf a
  cases e with
  | connect | startSynchronizing | fetchNextBatch | clearOldInventory | broadcast | syncFrom =>
    cases h
    exact List.prefix_rfl
  | newPeer | disconnect | terminate | connectionClosed | fetchBlockchainItemIds | fetchItem
  | fetchItems | itemIdsInventory => exact onPeer h fun _ => List.prefix_rfl
  | itemIds i hashes remaining has timely =>
    refine onPeer h fun a => ?_
    unfold onBlockchainItemIdsInventory
    split
    · exact List.prefix_rfl
    · split
      · exact List.prefix_rfl
      · dsimp only
        split
        · exact List.prefix_rfl
        · split <;> exact List.prefix_rfl
  | fetchSyncItems order =>
    cases h
    show n.handling <+: (n.fetchSyncItems cfg order).handling
    rw [fetchSyncItems, requestSyncItems_handling]
  | itemNotAvailable i item =>
    refine onPeer h fun a => ?_
    unfold onItemNotAvailable
    split
    · dsimp only
      split <;> exact List.prefix_rfl
    · split
      · dsimp only
        split <;> exact List.prefix_rfl
      · exact List.prefix_rfl
  | blockMessage i m =>
    refine onPeer h fun a => ?_
    rw [processBlockMessage_handling]
    split
    · exact List.prefix_append _ _
    · exact List.prefix_rfl
  | processBacklog =>
    cases h
    exact processBacklog_handling
  | answered k answer =>
    obtain ⟨call, -, h⟩ := Option.map_eq_some_iff.1 h
    cases call with
    | sync m => exact h ▸ (answered_handling answer).1
    | normal i m => exact h ▸ (answered_handling answer).2

end Node

namespace Processing

variable {s s' : Processing β} {x : Hash}

theorem isRunning_iff :
    s.isRunning cfg x ↔ ∃ i m, .normal i m ∈ s.handling ∧ cfg.messageHash m = x := by
  rw [isRunning, List.any_eq_true]
  constructor
  · intro ⟨call, hcall, hx⟩
    cases call with
    | sync m => cases hx
    | normal i m => exact ⟨i, m, hcall, beq_iff_eq.1 hx⟩
  · intro ⟨i, m, hcall, hx⟩
    exact ⟨_, hcall, beq_iff_eq.2 hx⟩

/-! ### Advertised items -/

theorem onItemIds_same {v : Inventory} {i : Nat} {t : ItemType} (l : List Hash) :
    (onItemIds v i t l s).messageIdsCurrentlyBeingProcessed = s.messageIdsCurrentlyBeingProcessed ∧
      (onItemIds v i t l s).handling = s.handling := by
  induction l generalizing s with
  | nil => exact ⟨rfl, rfl⟩
  | cons x l ih =>
    unfold onItemIds
    split
    · exact ih
    · split
      · exact ih
      · split
        · exact ih
        · split
          · exact ⟨rfl, rfl⟩
          · exact ih

theorem onItemIds_mono {v : Inventory} {i : Nat} {t : ItemType} {item : ItemId} (l : List Hash)
    (h : item ∈ s.itemsToFetch) : item ∈ (onItemIds v i t l s).itemsToFetch := by
  induction l generalizing s with
  | nil => exact h
  | cons x l ih =>
    unfold onItemIds
    split
    · exact ih h
    · split
      · exact ih h
      · split
        · exact ih h
        · split
          · exact h
          · refine ih ?_
            show item ∈ if _ then insert _ s.itemsToFetch else s.itemsToFetch
            split
            · exact Finset.mem_insert_of_mem h
            · exact h

theorem any_modify {α : Type} {l : List α} {i : Nat} {f : α → α} {p : α → Bool}
    (h : ∀ a, p (f a) = p a) : (l.modify i f).any p = l.any p := by
  induction l generalizing i with
  | nil => simp
  | cons a l ih =>
    cases i with
    | zero => simp [h]
    | succ i => simp [ih]

theorem isRequested_onItemIdsInventory {i : Nat} {item item' : ItemId} {fetch : Bool} :
    ({ s with toNode := s.toNode.onItemIdsInventory i item fetch } : Processing β).isRequested item' =
      s.isRequested item' := by
  show (s.peers.modify i _).any _ = s.peers.any _
  exact any_modify fun _ => rfl

/- What is advertised too long ago makes room, and nothing else changes. -/
theorem clearOldInventory_room {n : Node β} {i : Nat} {a : Peer} (old : List ItemId)
    (hi : n.peers[i]? = some a) :
    ∃ b, (old.foldl (fun n item => n.clearOldInventory i item) n).peers[i]? = some b ∧
      b.inventoryPeerAdvertisedToUs.card ≤ a.inventoryPeerAdvertisedToUs.card := by
  induction old generalizing n a with
  | nil => exact ⟨a, hi, le_rfl⟩
  | cons item old ih =>
    have hi' : (n.clearOldInventory i item).peers[i]? = some { a with
        inventoryPeerAdvertisedToUs := a.inventoryPeerAdvertisedToUs.erase item } := by
      simp [Node.clearOldInventory, Node.modifyPeer, hi]
    obtain ⟨b, hb, hcard⟩ := ih hi'
    exact ⟨b, hb, hcard.trans (Finset.card_le_card (Finset.erase_subset _ _))⟩

theorem clearOldInventory_any {n : Node β} {i : Nat} (old : List ItemId) (item : ItemId) :
    ((old.foldl (fun n item => n.clearOldInventory i item) n).peers.any fun a =>
      a.isActive && item ∈ a.itemsRequestedFromPeer) =
        n.peers.any fun a => a.isActive && item ∈ a.itemsRequestedFromPeer := by
  induction old generalizing n with
  | nil => rfl
  | cons item' old ih =>
    refine ih.trans ?_
    show (n.peers.modify i _).any _ = _
    exact any_modify fun _ => rfl

theorem isOpen_modify {l : List Peer} {i : Nat} {f : Peer → Peer} (hf : ∀ a, (f a).isOpen = a.isOpen)
    (h : l[i]?.any (·.isOpen)) : (l.modify i f)[i]?.any (·.isOpen) := by
  obtain ⟨a, ha, hopen⟩ := (Option.any_eq_true _ _).1 h
  simp [ha, hf, hopen]

theorem clearOldInventory_open {n : Node β} {i : Nat} (old : List ItemId)
    (h : n.peers[i]?.any (·.isOpen)) :
    (old.foldl (fun n item => n.clearOldInventory i item) n).peers[i]?.any (·.isOpen) := by
  induction old generalizing n with
  | nil => exact h
  | cons item old ih => exact ih (isOpen_modify (fun _ => rfl) h)

theorem clearOldInventory_reaches {n : Node β} {i : Nat} (old : List ItemId) :
    Reaches (fun n e => Node.step cfg n e) (fun _ _ => True) n
      (old.foldl (fun n item => n.clearOldInventory i item) n) := by
  induction old generalizing n with
  | nil => exact .start
  | cons item old ih => exact .trans (.next (.clearOldInventory i item) .start trivial rfl) ih

/- Every advertised item is a step of the node. -/
theorem onItemIds_reaches {v : Inventory} {i : Nat} {t : ItemType} (l : List Hash)
    (h : s.peers[i]?.any (·.isOpen)) :
    Reaches (fun n e => Node.step cfg n e) (fun _ _ => True) s.toNode (onItemIds v i t l s).toNode := by
  induction l generalizing s with
  | nil => exact .start
  | cons x l ih =>
    unfold onItemIds
    split
    · exact ih h
    · split
      · exact ih h
      · split
        · exact ih h
        · split
          · exact .start
          · obtain ⟨a, ha, hopen⟩ := (Option.any_eq_true _ _).1 h
            refine .trans (.next (.itemIdsInventory i ⟨t, x⟩
              (!s.isRequested ⟨t, x⟩ && ⟨t, x⟩ ∉ v.recentlyFailedItems)) .start trivial ?_)
              (ih (isOpen_modify (fun _ => rfl) h))
            simp [Node.step, Node.onPeer, ha, hopen]

/-- An advertised item that is not in processing, and new to the node, is fetched unless its peer has
advertised too much. -/
theorem onItemIds_fetched {v : Inventory} {i : Nat} {t : ItemType} {l : List Hash} {a : Peer}
    (hx : x ∈ l) (hid : x ∉ s.messageIdsCurrentlyBeingProcessed) (hnew : ⟨t, x⟩ ∉ v.newInventory)
    (hours : ⟨t, x⟩ ∉ v.advertisedToPeers) (hfailed : ⟨t, x⟩ ∉ v.recentlyFailedItems)
    (hnot : s.isRequested ⟨t, x⟩ = false) (hi : s.peers[i]? = some a)
    (hroom : a.inventoryPeerAdvertisedToUs.card + l.length ≤ 2 * 1000 * 60) :
    ⟨t, x⟩ ∈ (onItemIds v i t l s).itemsToFetch := by
  induction l generalizing s a with
  | nil => cases hx
  | cons y l ih =>
    rw [List.length_cons] at hroom
    have hfull : s.peers[i]?.any (isListFull · t) = false := by
      rw [hi, Option.any_some]
      refine decide_eq_false fun h => ?_
      rcases h with ⟨-, h⟩ | h <;> omega
    -- an id that is passed over is another one
    have hskip : x ≠ y → ⟨t, x⟩ ∈ (onItemIds v i t l s).itemsToFetch := fun hxy =>
      ih ((List.mem_cons.1 hx).resolve_left hxy) hid hnot hi (by omega)
    unfold onItemIds
    split
    · next hy => exact hskip fun h => hid (h ▸ hy)
    · split
      · next hy => exact hskip fun h => hnew (h ▸ hy)
      · split
        · next hy => exact hskip fun h => hours (h ▸ hy)
        · rw [if_neg (by simp [hfull])]
          by_cases hxy : x = y
          · subst hxy
            refine onItemIds_mono l ?_
            have hfetch : (!s.isRequested ⟨t, x⟩ && ⟨t, x⟩ ∉ v.recentlyFailedItems) = true := by
              simp [hnot, hfailed]
            rw [hfetch]
            exact Finset.mem_insert_self _ _
          · have hi' : (s.peers.modify i fun a => { a with
                inventoryPeerAdvertisedToUs := insert ⟨t, y⟩ a.inventoryPeerAdvertisedToUs })[i]? =
                some { a with
                  inventoryPeerAdvertisedToUs := insert ⟨t, y⟩ a.inventoryPeerAdvertisedToUs } := by
              simp [hi]
            refine ih ((List.mem_cons.1 hx).resolve_left hxy) hid ?_ hi' ?_
            · exact isRequested_onItemIdsInventory.trans hnot
            · have hcard := Finset.card_insert_le ⟨t, y⟩ a.inventoryPeerAdvertisedToUs
              show (insert _ a.inventoryPeerAdvertisedToUs).card + l.length ≤ _
              omega

/-! ### Runs -/

/-- The ids in processing belong to calls that are running. -/
def Tracked (cfg : Config β) (s : Processing β) : Prop :=
  ∀ x ∈ s.messageIdsCurrentlyBeingProcessed, s.isRunning cfg x

theorem isRunning_prefix {n n' : Node β} (h : n.handling <+: n'.handling)
    (hx : n.handling.any (·.isFor cfg x)) : n'.handling.any (·.isFor cfg x) := by
  obtain ⟨call, hcall, hfor⟩ := List.any_eq_true.1 hx
  exact List.any_eq_true.2 ⟨call, h.subset hcall, hfor⟩

/- A step of the node, and what becomes of the ids. -/
theorem step_node {e : Node.Event β} (h : s.step cfg (.node e) = some s') :
    s.toNode.step cfg e = some s'.toNode ∧
      s'.messageIdsCurrentlyBeingProcessed = s.idsAfter cfg e := by
  have hstep : (s.toNode.step cfg e).map (fun n =>
      ({ toNode := n, messageIdsCurrentlyBeingProcessed := s.idsAfter cfg e } : Processing β)) =
      some s' := by
    cases e with
    | itemIdsInventory => cases h
    | _ => exact h
  obtain ⟨n, hn, rfl⟩ := Option.map_eq_some_iff.1 hstep
  exact ⟨hn, rfl⟩

theorem step_inventory {v : Inventory} {old : List ItemId} {i : Nat} {t : ItemType}
    {hashes : List Hash} (h : s.step cfg (.inventory v old i t hashes) = some s') :
    s'.messageIdsCurrentlyBeingProcessed = s.messageIdsCurrentlyBeingProcessed ∧
      s'.handling = s.handling := by
  have h : (if s.peers[i]?.any (·.isOpen) then some (s.onItemIdsInventoryMessage v old i t hashes)
    else none) = some s' := h
  split at h
  · cases h
    have hsame := onItemIds_same (v := v) (i := i) (t := t) hashes (s :=
      { s with toNode := old.foldl (fun n item => n.clearOldInventory i item) s.toNode })
    exact ⟨hsame.1, hsame.2.trans (Node.clearOldInventory_handling old)⟩
  · cases h

/-- Every step is one of the node, or some of its steps. -/
theorem step_reaches {e : Event β} (h : s.step cfg e = some s') :
    Reaches (fun n e => Node.step cfg n e) (fun _ _ => True) s.toNode s'.toNode := by
  cases e with
  | node e => exact .next e .start trivial (step_node h).1
  | inventory v old i t hashes =>
    have h : (if s.peers[i]?.any (·.isOpen) then some (s.onItemIdsInventoryMessage v old i t hashes)
      else none) = some s' := h
    split at h
    · next hopen =>
      cases h
      exact (clearOldInventory_reaches old).trans (onItemIds_reaches (s :=
        { s with toNode := old.foldl (fun n item => n.clearOldInventory i item) s.toNode })
        hashes (clearOldInventory_open old hopen))
    · cases h

/- The call that enters is running. -/
theorem entersProcessing_handling {i : Nat} {m : BlockMessage β} {n : Node β}
    (h : s.toNode.step cfg (.blockMessage i m) = some n) (henters : s.entersProcessing cfg i m) :
    n.handling = s.handling ++ [.normal i m] := by
  obtain ⟨a, ha, -, rfl⟩ := Node.onPeer_some h
  rw [entersProcessing, ha, Option.any_some] at henters
  exact Node.processBlockMessage_handling.trans (if_pos (of_decide_eq_true henters))

theorem any_eraseIdx {α : Type} {l : List α} {k : Nat} {c : α} {p : α → Bool} (h : l[k]? = some c)
    (hc : p c = false) : (l.eraseIdx k).any p = l.any p := by
  induction l generalizing k with
  | nil => cases h
  | cons a l ih =>
    cases k with
    | zero =>
      cases h
      simp [hc]
    | succ k =>
      have h : l[k]? = some c := h
      simp [ih h]

/-- A step keeps the ids to the calls that are running if and only if it takes out the id of a call
that ends. -/
theorem Tracked.step_iff {e : Event β} (h : s.Tracked cfg) (hs : s.step cfg e = some s') :
    s'.Tracked cfg ↔ e.takesIdOut cfg s := by
  cases e with
  | inventory v old i t hashes =>
    obtain ⟨hids, hhandling⟩ := step_inventory hs
    refine iff_of_true (fun x hx => ?_) rfl
    show s'.handling.any (·.isFor cfg x)
    rw [hhandling]
    exact h x (hids ▸ hx)
  | node e =>
    obtain ⟨hn, hids⟩ := step_node hs
    have hhandling := Node.step_handling hn
    cases e with
    | answered k answer =>
      obtain ⟨call, hcall, -⟩ := Option.map_eq_some_iff.1 hn
      -- the calls that go on have the other ids
      have hother : ∀ x, call.isFor cfg x = false →
          s'.isRunning cfg x = s.isRunning cfg x := fun x hx => by
        show s'.handling.any (·.isFor cfg x) = _
        rw [hhandling]
        exact any_eraseIdx hcall hx
      cases call with
      | sync m =>
        have hsame : s.idsAfter cfg (.answered k answer) = s.messageIdsCurrentlyBeingProcessed := by
          cases answer <;> simp [idsAfter, hcall]
        refine iff_of_true (fun x hx => ?_) (by simp [Event.takesIdOut, hcall])
        rw [hother x rfl]
        exact h x (hsame ▸ hids ▸ hx)
      | normal i m =>
        have hrest : ∀ x, x ≠ cfg.messageHash m → x ∈ s.messageIdsCurrentlyBeingProcessed →
            s'.isRunning cfg x := fun x hne hx => by
          rw [hother x (beq_eq_false_iff_ne.2 hne.symm)]
          exact h x hx
        have hthrown : s.idsAfter cfg (.answered k answer) = s.messageIdsCurrentlyBeingProcessed →
            answer.isAccepted = false →
            (s'.Tracked cfg ↔ Event.takesIdOut cfg s (.node (.answered k answer))) :=
          fun hsame hthrow => by
            have hrunning : s'.isRunning cfg (cfg.messageHash m) =
                (s.handling.eraseIdx k).any (·.isFor cfg (cfg.messageHash m)) :=
              congrArg (List.any · _) hhandling
            have hout : Event.takesIdOut cfg s (.node (.answered k answer)) =
                (decide (cfg.messageHash m ∉ s.messageIdsCurrentlyBeingProcessed) ||
                  s'.isRunning cfg (cfg.messageHash m)) := by
              rw [hrunning]
              simp only [Event.takesIdOut, hcall, hthrow, Bool.false_or]
            rw [hout, Bool.or_eq_true, decide_eq_true_eq]
            rw [hsame] at hids
            constructor
            · intro ht
              by_cases hm : cfg.messageHash m ∈ s.messageIdsCurrentlyBeingProcessed
              · exact .inr (ht _ (hids ▸ hm))
              · exact .inl hm
            · intro hm x hx
              rw [hids] at hx
              by_cases hxm : x = cfg.messageHash m
              · subst hxm
                exact hm.resolve_left fun h => h hx
              · exact hrest x hxm hx
        cases answer with
        | accepted =>
          refine iff_of_true (fun x hx => ?_) (by simp [Event.takesIdOut, hcall, Answer.isAccepted])
          rw [hids] at hx
          simp only [idsAfter, hcall, Finset.mem_erase] at hx
          exact hrest x hx.1 hx.2
        | tooOld | unlinkable | rejected => exact hthrown rfl rfl
    | blockMessage i m =>
      refine iff_of_true (fun x hx => ?_) rfl
      rw [hids, idsAfter] at hx
      split at hx
      · next henters =>
        rcases Finset.mem_insert.1 hx with rfl | hx
        · refine isRunning_iff.2 ⟨i, m, ?_, rfl⟩
          rw [entersProcessing_handling hn henters]
          exact List.mem_append_right _ (List.mem_singleton_self _)
        · exact isRunning_prefix hhandling (h x hx)
      · exact isRunning_prefix hhandling (h x hx)
    | _ =>
      refine iff_of_true (fun x hx => ?_) rfl
      rw [hids] at hx
      exact isRunning_prefix hhandling (h x hx)

/-- The states of the runs in which every call that ends takes its id out. -/
def Recovering (cfg : Config β) : Processing β → Prop :=
  Reaches (fun s e => step cfg s e) (fun s e => e.takesIdOut cfg s) {}

theorem Recovering.allTracked (h : s.Recovering cfg) : s.Tracked cfg :=
  Reaches.invariant (fun x hx => absurd hx (Finset.notMem_empty x))
    (fun _ _ _ h he hs => (h.step_iff hs).2 he) h

/-- In such runs an id is in processing only while a call for its message is running, and an
advertised block without such a call is not ignored. -/
theorem Recovering.ids_running (h : s.Recovering cfg) :
    (∀ x ∈ s.messageIdsCurrentlyBeingProcessed,
      ∃ i m, .normal i m ∈ s.handling ∧ cfg.messageHash m = x) ∧
    ∀ (v : Inventory) (old : List ItemId) (i : Nat) (t : ItemType) (hashes : List Hash) (x : Hash)
      (a : Peer), x ∈ hashes → s.isRunning cfg x = false → ⟨t, x⟩ ∉ v.newInventory →
      ⟨t, x⟩ ∉ v.advertisedToPeers → ⟨t, x⟩ ∉ v.recentlyFailedItems → s.isRequested ⟨t, x⟩ = false →
      s.peers[i]? = some a → a.inventoryPeerAdvertisedToUs.card + hashes.length ≤ 2 * 1000 * 60 →
      ⟨t, x⟩ ∈ (s.onItemIdsInventoryMessage v old i t hashes).itemsToFetch := by
  refine ⟨fun x hx => isRunning_iff.1 (h.allTracked x hx), ?_⟩
  intro v old i t hashes x a hx hcall hnew hours hfailed hnot hi hroom
  have hid : x ∉ s.messageIdsCurrentlyBeingProcessed := fun hid => by
    have hrunning := h.allTracked x hid
    simp [hcall] at hrunning
  obtain ⟨b, hb, hcard⟩ := clearOldInventory_room old hi
  exact onItemIds_fetched hx hid hnew hours hfailed ((clearOldInventory_any old _).trans hnot) hb
    (by omega)

/-! ### Examples -/

/- A block that a peer has advertised, and the node fetches and hands to the delegate. -/
def demoBlock : List (Event Nat) :=
  [.node .connect, .node (.newPeer 0), .inventory {} [] 0 .block [2002],
    .node (.fetchItem 0 ⟨.block, 2002⟩), .node (.blockMessage 0 ⟨2, 2⟩)]

/- The delegate accepts it while it works on the next one, which another peer has advertised. -/
def demoNext : List (Event Nat) :=
  [.node .connect, .node (.newPeer 1), .inventory {} [] 1 .block [2002, 3003],
    .node (.fetchItem 1 ⟨.block, 3003⟩), .node (.blockMessage 1 ⟨3, 3⟩), .node (.answered 0 .accepted)]

theorem next_running : ∃ s : Processing Nat, s.Recovering .demo ∧
    s.messageIdsCurrentlyBeingProcessed = {3003} ∧ 2 ∈ s.mostRecentBlocksAccepted ∧
    ∀ x ∈ s.messageIdsCurrentlyBeingProcessed,
      ∃ i m, .normal i m ∈ s.handling ∧ Config.demo.messageHash m = x := by
  have h : ((demoBlock ++ demoNext).foldlM
      (fun s e => if Event.takesIdOut .demo s e then step .demo s e else none) {}).map
      (fun s : Processing Nat => decide (s.messageIdsCurrentlyBeingProcessed = {3003} ∧
        2 ∈ s.mostRecentBlocksAccepted)) = some true := by
    decide
  obtain ⟨s, hrun, hs⟩ := Option.map_eq_some_iff.1 h
  obtain ⟨hids, haccepted⟩ := of_decide_eq_true hs
  have hs : s.Recovering .demo := .of_run hrun
  exact ⟨s, hs, hids, haccepted, hs.ids_running.1⟩

/-- The delegate throws: no call is running, and the block is ignored when it is advertised again. -/
theorem block_ignored : ∃ s : Processing Nat,
    Reaches (fun s e => step .demo s e) (fun _ _ => True) {} s ∧ s.handling = [] ∧
    2002 ∈ s.messageIdsCurrentlyBeingProcessed ∧ s.itemsToFetch = ∅ ∧
    (s.onItemIdsInventoryMessage {} [] 0 .block [2002]).itemsToFetch = ∅ := by
  have h : ((demoBlock ++ ([.node (.answered 0 .unlinkable)] : List (Event Nat))).foldlM
      (fun s e => if True then step .demo s e else none) {}).map
      (fun s : Processing Nat => decide (s.handling.length = 0 ∧
        2002 ∈ s.messageIdsCurrentlyBeingProcessed ∧ s.itemsToFetch = ∅ ∧
        (s.onItemIdsInventoryMessage {} [] 0 .block [2002]).itemsToFetch = ∅)) = some true := by
    decide
  obtain ⟨s, hrun, hs⟩ := Option.map_eq_some_iff.1 h
  obtain ⟨hcalls, hid, hfetch, hignored⟩ := of_decide_eq_true hs
  exact ⟨s, .of_run hrun, List.length_eq_zero_iff.1 hcalls, hid, hfetch, hignored⟩

end Processing

end WeNode.Net
