import Mathlib.Algebra.Group.Nat.Defs
import Mathlib.Data.Finset.Basic
import Mathlib.Data.Finset.SDiff

/-!
# The p2p node

libraries/net/node.cpp: what the node keeps of its peers and of the blocks it fetches from them.  All
handlers run on one thread and give way to each other where they wait for the delegate or for the
end of a list; what a handler goes on with then (another list of ids, a peer to disconnect, a block
that the delegate has answered) is a step of its own, which may happen at any later time.
-/

namespace WeNode.Net

abbrev Hash := Nat

inductive ItemType where
  | trx
  | block
deriving DecidableEq

/-- `item_id` -/
structure ItemId where
  itemType : ItemType
  itemHash : Hash
deriving DecidableEq

/-- `block_message`: the id travels beside the block. -/
structure BlockMessage (β : Type) where
  block : β
  blockId : Hash
deriving DecidableEq

/- The set of connections that holds a peer; `closed` where none does. -/
inductive Connection where
  | handshaking
  | active
  | closing
  | terminating
  | closed
deriving DecidableEq

/-- `peer_connection` -/
structure Peer where
  connection : Connection := .handshaking
  /-- its read loop runs, so that messages from it arrive -/
  isOpen : Bool := true
  weNeedSyncItemsFromPeer : Bool := true
  peerNeedsSyncItemsFromUs : Bool := true
  inhibitFetchingSyncBlocks : Bool := false
  idsOfItemsToGet : List Hash := []
  idsOfItemsBeingProcessed : Finset Hash := ∅
  numberOfUnfetchedItemIds : Nat := 0
  itemIdsRequestedFromPeer : Option (List Hash) := none
  syncItemsRequestedFromPeer : Finset Hash := ∅
  inventoryPeerAdvertisedToUs : Finset ItemId := ∅
  itemsRequestedFromPeer : Finset ItemId := ∅
  lastBlockDelegateHasSeen : Hash := 0
  /-- whether a block message set the id above; the source does not keep this -/
  seenInBlock : Bool := false

namespace Peer

def idle (a : Peer) : Bool :=
  a.itemsRequestedFromPeer = ∅ ∧ a.syncItemsRequestedFromPeer = ∅ ∧
    a.itemIdsRequestedFromPeer = none

def isActive (a : Peer) : Bool := a.connection = .active

end Peer

/- A block handed to the delegate: from the backlog of sync blocks, or straight from the message of
a peer. -/
inductive Handling (β : Type) where
  | sync (m : BlockMessage β)
  | normal (peer : Nat) (m : BlockMessage β)

/-- How `handle_block` ends.  It pushes the block; the id beside it only goes to its log. -/
inductive Answer where
  | accepted
  /-- `block_older_than_undo_history` -/
  | tooOld
  /-- `unlinkable_block_exception` -/
  | unlinkable
  | rejected

/-- The constants of the node, and what it takes from fc and from the chain. -/
structure Config (β : Type) where
  /-- `signed_block::id` -/
  id : β → Hash
  /-- `message::id` of a block message -/
  messageHash : BlockMessage β → Hash
  /-- `block_header::num_from_id` -/
  blockNumber : Hash → Nat
  maximumBlocksPerPeer : Nat
  maximumConnections : Nat

/- Blocks that are their own ids, for small runs. -/
def Config.demo : Config Nat where
  id b := b
  messageHash m := 1000 * m.block + m.blockId
  blockNumber x := x
  maximumBlocksPerPeer := 10
  maximumConnections := 20

structure Node (β : Type) where
  /-- all peers ever connected; a peer is named by its place -/
  peers : List Peer := []
  activeSyncRequests : Finset Hash := ∅
  newReceivedSyncItems : List (BlockMessage β) := []
  receivedSyncItems : List (BlockMessage β) := []
  mostRecentBlocksAccepted : List Hash := []
  itemsToFetch : Finset ItemId := ∅
  /-- the calls of `handle_block` that have not returned -/
  handling : List (Handling β) := []
  /-- the blocks the delegate accepted, and the ids it gave to the node itself; the source does not
  keep these -/
  handed : List (BlockMessage β) := []
  own : List Hash := []

namespace Node

variable {β : Type} (cfg : Config β) (n : Node β)

def modifyPeer (i : Nat) (f : Peer → Peer) : Node β := { n with peers := n.peers.modify i f }

/- A change of all peers of `_active_connections`. -/
def modifyActive (f : Peer → Peer) : Node β :=
  { n with peers := n.peers.map fun a => if a.isActive then f a else a }

/- A push to a circular buffer, which drops what was pushed first. -/
def pushBack (capacity : Nat) (l : List Hash) (x : Hash) : List Hash :=
  (l ++ [x]).drop (l.length + 1 - capacity)

def pushAccepted (x : Hash) : Node β :=
  { n with mostRecentBlocksAccepted := pushBack cfg.maximumConnections n.mostRecentBlocksAccepted x }

/-! ### Connections -/

/-- `disconnect_from_peer`, of any peer that some handler has put on a list -/
def disconnectFromPeer (i : Nat) : Node β := n.modifyPeer i fun a => { a with connection := .closing }

/-- `start_synchronizing_with_peer` -/
def startSynchronizingWithPeer (i : Nat) : Node β :=
  n.modifyPeer i fun a => { a with
    idsOfItemsToGet := []
    numberOfUnfetchedItemIds := 0
    weNeedSyncItemsFromPeer := true
    lastBlockDelegateHasSeen := 0
    seenInBlock := false
    inhibitFetchingSyncBlocks := false }

/-- `move_peer_to_active_list` and `new_peer_just_added` -/
def newPeerJustAdded (i : Nat) : Node β :=
  (n.modifyPeer i fun a => { a with connection := .active }).startSynchronizingWithPeer i

/-- `is_item_in_any_peers_inventory` -/
def isItemInAnyPeersInventory (item : ItemId) : Bool :=
  n.peers.any fun a => a.isActive && item ∈ a.inventoryPeerAdvertisedToUs

/-- `on_connection_closed` -/
def onConnectionClosed (i : Nat) (a : Peer) : Node β :=
  let n := n.modifyPeer i fun a => { a with connection := .closed, isOpen := false }
  { n with
    activeSyncRequests := n.activeSyncRequests \ a.syncItemsRequestedFromPeer
    itemsToFetch := n.itemsToFetch ∪ a.itemsRequestedFromPeer.filter fun item =>
      n.isItemInAnyPeersInventory item }

/-! ### Lists of ids -/

/- The reset and the request of `fetch_next_batch_of_item_ids_from_peer` -/
def fetchNextBatchOfItemIds (i : Nat) (synopsis : List Hash) (reset : Bool) : Node β :=
  n.modifyPeer i fun a =>
    let a := if reset then { a with lastBlockDelegateHasSeen := 0, seenInBlock := false } else a
    { a with itemIdsRequestedFromPeer := some synopsis }

/- A list of ids answers a request: the numbers of its blocks follow each other (they have 32 bits),
and it builds on a block of the synopsis. -/
def validIds (synopsis hashes : List Hash) : Bool :=
  match hashes with
  | [] => true
  | first :: rest =>
    rest.map cfg.blockNumber ==
        (List.range' 1 rest.length).map (fun i => (cfg.blockNumber first + i) % 2 ^ 32) &&
      if synopsis = [] then cfg.blockNumber first == 1 else synopsis.contains first

/- The ids that the delegate has in front of a list, and the rest. -/
def popSeen (has : Hash → Bool) (hashes : List Hash) : List Hash × List Hash := hashes.span has

/- The peer's list with the new ids. -/
def appendIds (has : Hash → Bool) (first : Bool) (a : Peer) (hashes : List Hash) : Peer :=
  match hashes with
  | [] => a
  | x :: rest =>
    if a.idsOfItemsToGet = [] then
      if first then { a with idsOfItemsToGet := hashes }
      else
        let (seen, hashes) := popSeen has hashes
        { a with
          idsOfItemsToGet := hashes
          lastBlockDelegateHasSeen := seen.getLastD a.lastBlockDelegateHasSeen
          seenInBlock := a.seenInBlock && seen.isEmpty }
    else
      -- what follows the first of the new ids in the old list gives way to them
      match (a.idsOfItemsToGet.reverse.dropWhile (· != x)).reverse with
      | [] => { a with
          idsOfItemsToGet := rest
          lastBlockDelegateHasSeen := x
          seenInBlock := false }
      | kept => { a with idsOfItemsToGet := kept.dropLast ++ hashes }

/-- `on_blockchain_item_ids_inventory_message`; `timely` says that the time of the last block
offered is not in the future -/
def onBlockchainItemIdsInventory (i : Nat) (a : Peer) (hashes : List Hash) (remaining : Nat)
    (has : Hash → Bool) (timely : Bool) : Node β :=
  match a.itemIdsRequestedFromPeer with
  | none => n
  | some synopsis =>
    if !validIds cfg synopsis hashes then n.disconnectFromPeer i
    else
      let a := { a with itemIdsRequestedFromPeer := none }
      if remaining = 0 ∧ (hashes = [] ∨ hashes.length = 1 ∧ hashes.all has) ∧
          a.idsOfItemsToGet = [] ∧ a.numberOfUnfetchedItemIds = 0 then
        n.modifyPeer i fun _ => { a with weNeedSyncItemsFromPeer := false }
      else
        let first := n.peers.zipIdx.any fun (b, j) => j != i && b.isActive &&
          b.idsOfItemsToGet.head?.isSome && b.idsOfItemsToGet.head? == hashes.head?
        let n := n.modifyPeer i fun _ =>
          { appendIds has first { a with numberOfUnfetchedItemIds := remaining } hashes with
            numberOfUnfetchedItemIds := remaining }
        if timely then n else n.disconnectFromPeer i

/- What `on_fetch_blockchain_item_ids_message` learns of the peer. -/
def onFetchBlockchainItemIds (i : Nat) (peerNeeds : Bool) : Node β :=
  n.modifyPeer i fun a => { a with peerNeedsSyncItemsFromUs := peerNeeds }

/-! ### Requests for sync blocks -/

/-- `have_already_received_sync_item` -/
def haveAlreadyReceivedSyncItem (x : Hash) : Bool :=
  n.receivedSyncItems.any (·.blockId == x) || n.newReceivedSyncItems.any (·.blockId == x)

/- An id that `fetch_sync_items_loop` may request, unless it has just chosen it for another peer. -/
def mayRequest (x : Hash) : Bool :=
  !n.haveAlreadyReceivedSyncItem x && x ∉ n.activeSyncRequests

/- The walk over the ids of one peer: those chosen for it so far, and all chosen so far. -/
def chooseIds (may : Hash → Bool) (most : Nat) :
    List Hash → List Hash → Finset Hash → List Hash × Finset Hash
  | [], l, chosen => (l, chosen)
  | x :: xs, l, chosen =>
    if may x ∧ x ∉ chosen then
      if most ≤ l.length + 1 then (l ++ [x], insert x chosen)
      else chooseIds may most xs (l ++ [x]) (insert x chosen)
    else chooseIds may most xs l chosen

/- The walk over the peers. -/
def choosePeers : List Nat → List (Nat × List Hash) → Finset Hash → List (Nat × List Hash)
  | [], requests, _ => requests
  | i :: order, requests, chosen =>
    match n.peers[i]? with
    | none => choosePeers order requests chosen
    | some a =>
      if a.isActive ∧ a.weNeedSyncItemsFromPeer ∧ i ∉ requests.map Prod.fst ∧ a.idle ∧
          !a.inhibitFetchingSyncBlocks then
        let (l, chosen) := chooseIds n.mayRequest cfg.maximumBlocksPerPeer a.idsOfItemsToGet [] chosen
        choosePeers order (if l = [] then requests else requests ++ [(i, l)]) chosen
      else choosePeers order requests chosen

/-- `request_sync_items_from_peer` -/
def requestSyncItemsFromPeer (i : Nat) (items : List Hash) : Node β :=
  { n.modifyPeer i fun a => { a with
      syncItemsRequestedFromPeer := a.syncItemsRequestedFromPeer ∪ items.toFinset } with
    activeSyncRequests := n.activeSyncRequests ∪ items.toFinset }

/- One iteration of `fetch_sync_items_loop`, which walks over the active peers in some order. -/
def fetchSyncItems (order : List Nat) : Node β :=
  (n.choosePeers cfg order [] ∅).foldl (fun n r => n.requestSyncItemsFromPeer r.1 r.2) n

/-- `on_item_not_available_message` -/
def onItemNotAvailable (i : Nat) (a : Peer) (item : ItemId) : Node β :=
  if item ∈ a.itemsRequestedFromPeer then
    let n := n.modifyPeer i fun a => { a with
      itemsRequestedFromPeer := a.itemsRequestedFromPeer.erase item
      inventoryPeerAdvertisedToUs := a.inventoryPeerAdvertisedToUs.erase item }
    if n.isItemInAnyPeersInventory item
    then { n with itemsToFetch := insert item n.itemsToFetch } else n
  else if item.itemHash ∈ a.syncItemsRequestedFromPeer then
    -- `_active_sync_requests` keeps the id
    let n := n.modifyPeer i fun a => { a with
      syncItemsRequestedFromPeer := a.syncItemsRequestedFromPeer.erase item.itemHash }
    if a.peerNeedsSyncItemsFromUs
    then n.modifyPeer i fun a => { a with inhibitFetchingSyncBlocks := true }
    else n.disconnectFromPeer i
  else n

/-! ### Items in normal operation -/

/- The item of `on_item_ids_inventory_message`; `fetch` says that it is new to the node. -/
def onItemIdsInventory (i : Nat) (item : ItemId) (fetch : Bool) : Node β :=
  { n.modifyPeer i fun a => { a with
      inventoryPeerAdvertisedToUs := insert item a.inventoryPeerAdvertisedToUs } with
    itemsToFetch := if fetch then insert item n.itemsToFetch else n.itemsToFetch }

/- An item that has been in the inventory of the peer for too long. -/
def clearOldInventory (i : Nat) (item : ItemId) : Node β :=
  n.modifyPeer i fun a => { a with
    inventoryPeerAdvertisedToUs := a.inventoryPeerAdvertisedToUs.erase item }

/- A request of `fetch_items_loop`. -/
def fetchItem (i : Nat) (item : ItemId) : Node β :=
  { n.modifyPeer i fun a => { a with
      itemsRequestedFromPeer := insert item a.itemsRequestedFromPeer } with
    itemsToFetch := n.itemsToFetch.erase item }

/- The block that `on_fetch_items_message` sends to the peer. -/
def onFetchItems (i : Nat) (x : Hash) : Node β :=
  n.modifyPeer i fun a => { a with lastBlockDelegateHasSeen := x, seenInBlock := false }

/-! ### Blocks -/

/- The end of `process_block_during_normal_operation` for a block that is accepted, now or before. -/
def treatAsAccepted (m : BlockMessage β) : Node β :=
  let n := n.modifyActive fun a =>
    if ⟨.block, cfg.messageHash m⟩ ∈ a.inventoryPeerAdvertisedToUs then { a with
      lastBlockDelegateHasSeen := m.blockId
      seenInBlock := true } else a
  -- `broadcast`
  n.pushAccepted cfg m.blockId

/-- `process_block_message` -/
def processBlockMessage (i : Nat) (a : Peer) (m : BlockMessage β) : Node β :=
  if ⟨.block, cfg.messageHash m⟩ ∈ a.itemsRequestedFromPeer then
    let n := n.modifyPeer i fun a => { a with
      itemsRequestedFromPeer := a.itemsRequestedFromPeer.erase ⟨.block, cfg.messageHash m⟩ }
    -- `process_block_during_normal_operation`
    if m.blockId ∉ n.mostRecentBlocksAccepted
    then { n with handling := n.handling ++ [.normal i m] }
    else n.treatAsAccepted cfg m
  else if m.blockId ∈ a.syncItemsRequestedFromPeer then
    { n.modifyPeer i fun a => { a with
        syncItemsRequestedFromPeer := a.syncItemsRequestedFromPeer.erase m.blockId } with
      activeSyncRequests := n.activeSyncRequests.erase m.blockId
      -- `process_block_during_sync`
      newReceivedSyncItems := m :: n.newReceivedSyncItems }
  else n.disconnectFromPeer i

/- A block of the backlog that is the next one of an active peer. -/
def potentialFirstBlock (m : BlockMessage β) : Bool :=
  n.peers.any fun a => a.isActive && a.idsOfItemsToGet.head? == some m.blockId

/- One round of the loop of `process_backlog_of_sync_blocks`. -/
def processBacklogOfSyncBlocks : Node β :=
  let n := { n with
    receivedSyncItems := n.newReceivedSyncItems.reverse ++ n.receivedSyncItems
    newReceivedSyncItems := [] }
  match n.receivedSyncItems.find? n.potentialFirstBlock with
  | none => n
  | some m =>
    let popped := n.modifyActive fun a =>
      if a.idsOfItemsToGet.head? = some m.blockId then { a with
        idsOfItemsToGet := a.idsOfItemsToGet.tail
        idsOfItemsBeingProcessed := insert m.blockId a.idsOfItemsBeingProcessed } else a
    if m.blockId ∉ n.mostRecentBlocksAccepted then { popped with
      receivedSyncItems := n.receivedSyncItems.eraseP n.potentialFirstBlock
      handling := n.handling ++ [.sync m] }
    else popped.modifyActive fun a => { a with
      idsOfItemsBeingProcessed := a.idsOfItemsBeingProcessed.erase m.blockId }

/-- `send_sync_block_to_node_delegate` after the answer of the delegate -/
def syncBlockAnswered (m : BlockMessage β) : Answer → Node β
  | .accepted =>
    let n := ({ n with handed := m :: n.handed } : Node β).pushAccepted cfg m.blockId
    n.modifyActive fun a =>
      if m.blockId ∈ a.idsOfItemsBeingProcessed then { a with
        lastBlockDelegateHasSeen := m.blockId
        seenInBlock := true
        idsOfItemsBeingProcessed := a.idsOfItemsBeingProcessed.erase m.blockId } else a
  | .tooOld => n.modifyActive fun a =>
    if m.blockId ∈ a.idsOfItemsBeingProcessed then { a with inhibitFetchingSyncBlocks := true } else a
  -- the peers that offered the block are disconnected
  | .unlinkable | .rejected => n

/-- `process_block_during_normal_operation` after the answer of the delegate -/
def normalBlockAnswered (m : BlockMessage β) : Answer → Node β
  | .accepted =>
    (({ n with handed := m :: n.handed } : Node β).pushAccepted cfg m.blockId).treatAsAccepted cfg m
  -- sync starts again with the peer, or all that offered the block are disconnected
  | .tooOld | .unlinkable | .rejected => n

/- A block of the node itself, and the head it starts to sync from. -/
def broadcast (x : Hash) : Node β := ({ n with own := x :: n.own } : Node β).pushAccepted cfg x

def syncFrom (x : Hash) : Node β :=
  { n with own := x :: n.own, mostRecentBlocksAccepted := pushBack cfg.maximumConnections [] x }

/-! ### Steps -/

/-- What happens to a node. -/
inductive Event (β : Type) where
  | connect
  | newPeer (i : Nat)
  | disconnect (i : Nat)
  | terminate (i : Nat)
  | connectionClosed (i : Nat)
  | startSynchronizing (i : Nat)
  | fetchNextBatch (i : Nat) (synopsis : List Hash) (reset : Bool)
  | itemIds (i : Nat) (hashes : List Hash) (remaining : Nat) (has : Hash → Bool) (timely : Bool)
  | fetchBlockchainItemIds (i : Nat) (peerNeeds : Bool)
  | fetchSyncItems (order : List Nat)
  | itemNotAvailable (i : Nat) (item : ItemId)
  | itemIdsInventory (i : Nat) (item : ItemId) (fetch : Bool)
  | clearOldInventory (i : Nat) (item : ItemId)
  | fetchItem (i : Nat) (item : ItemId)
  | fetchItems (i : Nat) (x : Hash)
  | blockMessage (i : Nat) (m : BlockMessage β)
  | processBacklog
  | answered (k : Nat) (answer : Answer)
  | broadcast (x : Hash)
  | syncFrom (x : Hash)

/- A step on a peer that has the property. -/
def onPeer (i : Nat) (allowed : Peer → Bool) (f : Peer → Node β) : Option (Node β) :=
  n.peers[i]?.bind fun a => if allowed a then some (f a) else none

theorem onPeer_some {n n' : Node β} {i : Nat} {allowed : Peer → Bool} {f : Peer → Node β}
    (h : n.onPeer i allowed f = some n') :
    ∃ a, n.peers[i]? = some a ∧ allowed a ∧ f a = n' := by
  obtain ⟨a, ha, h⟩ := Option.bind_eq_some_iff.1 h
  split at h
  · next hallowed => exact ⟨a, ha, hallowed, Option.some.inj h⟩
  · cases h

/-- Messages come from peers whose connection is open; a peer may close at any time. -/
def step : Event β → Option (Node β)
  | .connect => some { n with peers := n.peers ++ [{}] }
  | .newPeer i => n.onPeer i (·.connection = .handshaking) fun _ => n.newPeerJustAdded i
  | .disconnect i => n.onPeer i (fun _ => true) fun _ => n.disconnectFromPeer i
  | .terminate i => n.onPeer i (fun a => a.connection ≠ .terminating ∧ a.connection ≠ .closed) fun _ =>
      n.modifyPeer i fun a => { a with connection := .terminating }
  | .connectionClosed i => n.onPeer i (·.isOpen) fun a => n.onConnectionClosed i a
  | .startSynchronizing i => some (n.startSynchronizingWithPeer i)
  | .fetchNextBatch i synopsis reset => some (n.fetchNextBatchOfItemIds i synopsis reset)
  | .itemIds i hashes remaining has timely => n.onPeer i (·.isOpen) fun a =>
      n.onBlockchainItemIdsInventory cfg i a hashes remaining has timely
  | .fetchBlockchainItemIds i peerNeeds => n.onPeer i (·.isOpen) fun _ =>
      n.onFetchBlockchainItemIds i peerNeeds
  | .fetchSyncItems order => some (n.fetchSyncItems cfg order)
  | .itemNotAvailable i item => n.onPeer i (·.isOpen) fun a => n.onItemNotAvailable i a item
  | .itemIdsInventory i item fetch => n.onPeer i (·.isOpen) fun _ => n.onItemIdsInventory i item fetch
  | .clearOldInventory i item => some (n.clearOldInventory i item)
  | .fetchItem i item => n.onPeer i (fun a => a.isActive && item ∈ n.itemsToFetch &&
      item ∈ a.inventoryPeerAdvertisedToUs) fun _ => n.fetchItem i item
  | .fetchItems i x => n.onPeer i (·.isOpen) fun _ => n.onFetchItems i x
  | .blockMessage i m => n.onPeer i (·.isOpen) fun a => n.processBlockMessage cfg i a m
  | .processBacklog => some n.processBacklogOfSyncBlocks
  | .answered k answer => n.handling[k]?.map fun
      | .sync m => ({ n with handling := n.handling.eraseIdx k } : Node β).syncBlockAnswered cfg m answer
      | .normal _ m =>
        ({ n with handling := n.handling.eraseIdx k } : Node β).normalBlockAnswered cfg m answer
  | .broadcast x => some (n.broadcast cfg x)
  | .syncFrom x => some (n.syncFrom cfg x)

end Node

end WeNode.Net
