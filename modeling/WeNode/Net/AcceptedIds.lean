import WeNode.Lib.Events
import WeNode.Net.Node
import Mathlib.Tactic

/-!
# The ids of accepted blocks

The node records a block under the id that came beside it in the message, which no handler compares
with the id of the block.
-/

namespace WeNode.Net

open WeNode.Lib

variable {β : Type} {cfg : Config β} {n n' : Node β} {i : Nat} {a : Peer} {m : BlockMessage β}
  {x : Hash}

namespace Node

/- An id of the node's own, or of a message whose block the delegate has accepted. -/
def Known (n : Node β) (x : Hash) : Prop := x ∈ n.own ∨ ∃ m ∈ n.handed, m.blockId = x

/-- What was handed to the delegate under this id is the block with this id. -/
def Names (cfg : Config β) (n : Node β) (x : Hash) : Prop :=
  n.Known x ∧ ∀ m ∈ n.handed, m.blockId = x → cfg.id m.block = x

/-- All ids recorded because of block messages name what was handed to the delegate. -/
structure Named (cfg : Config β) (n : Node β) : Prop where
  accepted : ∀ x ∈ n.mostRecentBlocksAccepted, n.Names cfg x
  seen : ∀ a ∈ n.peers, a.seenInBlock → n.Names cfg a.lastBlockDelegateHasSeen

end Node

def Handling.message : Handling β → BlockMessage β
  | .sync m => m
  | .normal _ m => m

/- The messages that the node keeps, and those it has handed over. -/
def Node.messages (n : Node β) : List (BlockMessage β) :=
  n.newReceivedSyncItems ++ n.receivedSyncItems ++ n.handling.map Handling.message ++ n.handed

/-- The invariant: the ids recorded are known, and the messages kept carry the ids of their
blocks. -/
structure Node.Sound (cfg : Config β) (n : Node β) : Prop where
  accepted : ∀ x ∈ n.mostRecentBlocksAccepted, n.Known x
  seen : ∀ a ∈ n.peers, a.seenInBlock → n.Known a.lastBlockDelegateHasSeen
  named : ∀ m ∈ n.messages, cfg.id m.block = m.blockId

/- A change of a peer after which no block message has set its last block but those before. -/
def Calm (f : Peer → Peer) : Prop := ∀ a, (f a).seenInBlock = false ∨
  (f a).seenInBlock = a.seenInBlock ∧ (f a).lastBlockDelegateHasSeen = a.lastBlockDelegateHasSeen

theorem mem_modify {α : Type} {l : List α} {f : α → α} {b : α} (h : b ∈ l.modify i f) :
    b ∈ l ∨ ∃ c, l[i]? = some c ∧ b = f c := by
  obtain ⟨j, hj⟩ := List.mem_iff_getElem?.1 h
  rw [List.getElem?_modify] at hj
  split at hj
  · next hij =>
    obtain ⟨c, hc, rfl⟩ := Option.map_eq_some_iff.1 hj
    exact .inr ⟨c, hij ▸ hc, rfl⟩
  · exact .inl (List.mem_of_getElem? (by simpa using hj))

theorem mem_pushBack {capacity : Nat} {l : List Hash} {y : Hash}
    (h : y ∈ Node.pushBack capacity l x) : y ∈ l ∨ y = x := by
  rcases List.mem_append.1 (List.mem_of_mem_drop h) with hy | hy
  · exact .inl hy
  · exact .inr (List.mem_singleton.1 hy)

namespace Node.Sound

theorem names (h : n.Sound cfg) (hx : n.Known x) : n.Names cfg x :=
  ⟨hx, fun m hm hid => (h.named m (by simp [messages, hm])).trans hid⟩

theorem isNamed (h : n.Sound cfg) : n.Named cfg :=
  ⟨fun x hx => h.names (h.accepted x hx), fun a ha hseen => h.names (h.seen a ha hseen)⟩

/- What the node keeps may change as long as no new message is among it. -/
theorem congr (h : n.Sound cfg) (hpeers : n'.peers = n.peers)
    (haccepted : n'.mostRecentBlocksAccepted = n.mostRecentBlocksAccepted)
    (hown : n'.own = n.own) (hhanded : n'.handed = n.handed)
    (hmessages : ∀ m ∈ n'.messages, m ∈ n.messages) : n'.Sound cfg := by
  have hknown : ∀ x, n'.Known x ↔ n.Known x := fun x => by rw [Known, Known, hown, hhanded]
  refine ⟨fun x hx => (hknown x).2 (h.accepted x (haccepted ▸ hx)), fun a ha hseen => ?_,
    fun m hm => h.named m (hmessages m hm)⟩
  exact (hknown _).2 (h.seen a (hpeers ▸ ha) hseen)

theorem modify {f : Peer → Peer} (h : n.Sound cfg) (hf : Calm f) : (n.modifyPeer i f).Sound cfg := by
  refine ⟨h.accepted, fun b hb hseen => ?_, h.named⟩
  rcases mem_modify hb with hb | ⟨c, hc, rfl⟩
  · exact h.seen b hb hseen
  · rcases hf c with hnot | ⟨hsame, hlast⟩
    · exact absurd hseen (by simp [hnot])
    · show n.Known (f c).lastBlockDelegateHasSeen
      rw [hlast]
      exact h.seen c (List.mem_of_getElem? hc) (hsame ▸ hseen)

theorem modifyActive {f : Peer → Peer} (h : n.Sound cfg)
    (hf : ∀ a, (f a).seenInBlock = a.seenInBlock ∧
      (f a).lastBlockDelegateHasSeen = a.lastBlockDelegateHasSeen ∨
        n.Known (f a).lastBlockDelegateHasSeen) : (n.modifyActive f).Sound cfg := by
  refine ⟨h.accepted, fun b hb => ?_, h.named⟩
  obtain ⟨c, hc, rfl⟩ := List.mem_map.1 hb
  show (if c.isActive then f c else c).seenInBlock →
    n.Known (if c.isActive then f c else c).lastBlockDelegateHasSeen
  split
  · rcases hf c with ⟨hsame, hlast⟩ | hknown
    · rw [hsame, hlast]
      exact h.seen c hc
    · exact fun _ => hknown
  · exact h.seen c hc

theorem pushAccepted (h : n.Sound cfg) (hx : n.Known x) : (n.pushAccepted cfg x).Sound cfg := by
  refine ⟨fun y hy => ?_, h.seen, h.named⟩
  rcases mem_pushBack hy with hy | rfl
  · exact h.accepted y hy
  · exact hx

theorem hand (h : n.Sound cfg) (hm : cfg.id m.block = m.blockId) :
    ({ n with handed := m :: n.handed } : Node β).Sound cfg ∧
      ({ n with handed := m :: n.handed } : Node β).Known m.blockId := by
  have hknown : ∀ x, n.Known x → ({ n with handed := m :: n.handed } : Node β).Known x := fun x hx =>
    hx.imp_right fun ⟨m', hm', hid⟩ => ⟨m', List.mem_cons_of_mem m hm', hid⟩
  refine ⟨⟨fun x hx => hknown x (h.accepted x hx), fun a ha hseen => hknown _ (h.seen a ha hseen),
    fun m' hm' => ?_⟩, .inr ⟨m, List.mem_cons_self, rfl⟩⟩
  have hcases : m' = m ∨ m' ∈ n.messages := by
    simp only [messages, List.mem_append, List.mem_cons] at hm' ⊢
    tauto
  rcases hcases with rfl | hm'
  · exact hm
  · exact h.named m' hm'

theorem own (h : n.Sound cfg) : ({ n with own := x :: n.own } : Node β).Sound cfg ∧
    ({ n with own := x :: n.own } : Node β).Known x := by
  have hknown : ∀ y, n.Known y → ({ n with own := x :: n.own } : Node β).Known y := fun y hy =>
    hy.imp_left (List.mem_cons_of_mem x)
  exact ⟨⟨fun y hy => hknown y (h.accepted y hy), fun a ha hseen => hknown _ (h.seen a ha hseen),
    h.named⟩, .inl List.mem_cons_self⟩

theorem treatAsAccepted (h : n.Sound cfg) (hx : n.Known m.blockId) :
    (n.treatAsAccepted cfg m).Sound cfg := by
  have hactive := h.modifyActive (f := fun a =>
    if ⟨.block, cfg.messageHash m⟩ ∈ a.inventoryPeerAdvertisedToUs then { a with
      lastBlockDelegateHasSeen := m.blockId
      seenInBlock := true } else a) fun a => by
    split
    · exact .inr hx
    · exact .inl ⟨rfl, rfl⟩
  exact hactive.pushAccepted hx

/-! ### Steps -/

theorem appendIds_calm (has : Hash → Bool) (first : Bool) (hashes : List Hash) :
    Calm fun a => appendIds has first a hashes := by
  intro a
  unfold appendIds
  split
  · exact .inr ⟨rfl, rfl⟩
  · next y rest =>
    dsimp only
    split
    · split
      · exact .inr ⟨rfl, rfl⟩
      · show (a.seenInBlock && (popSeen has (y :: rest)).1.isEmpty) = false ∨ _ ∧ _
        cases hseen : (popSeen has (y :: rest)).1 with
        | nil => exact .inr ⟨Bool.and_true _, rfl⟩
        | cons z seen => exact .inl (Bool.and_false _)
    · split
      · exact .inl rfl
      · exact .inr ⟨rfl, rfl⟩

theorem set {b : Peer} (h : n.Sound cfg) (hi : n.peers[i]? = some a)
    (hb : b.seenInBlock = false ∨ b.seenInBlock = a.seenInBlock ∧
      b.lastBlockDelegateHasSeen = a.lastBlockDelegateHasSeen) :
    (n.modifyPeer i fun _ => b).Sound cfg := by
  refine ⟨h.accepted, fun c hc hseen => ?_, h.named⟩
  rcases mem_modify hc with hc | ⟨d, -, rfl⟩
  · exact h.seen c hc hseen
  · rcases hb with hnot | ⟨hsame, hlast⟩
    · exact absurd hseen (by simp [hnot])
    · show n.Known c.lastBlockDelegateHasSeen
      rw [hlast]
      exact h.seen a (List.mem_of_getElem? hi) (hsame ▸ hseen)

theorem disconnectFromPeer (h : n.Sound cfg) : (n.disconnectFromPeer i).Sound cfg :=
  h.modify fun _ => .inr ⟨rfl, rfl⟩

theorem onBlockchainItemIdsInventory {hashes : List Hash} {remaining : Nat} {has : Hash → Bool}
    {timely : Bool} (h : n.Sound cfg) (hi : n.peers[i]? = some a) :
    (n.onBlockchainItemIdsInventory cfg i a hashes remaining has timely).Sound cfg := by
  unfold Node.onBlockchainItemIdsInventory
  split
  · exact h
  · split
    · exact h.disconnectFromPeer
    · dsimp only
      split
      · exact h.set hi (.inr ⟨rfl, rfl⟩)
      · generalize (n.peers.zipIdx.any _) = first
        have hset : (n.modifyPeer i fun _ => { appendIds has first { a with
            itemIdsRequestedFromPeer := none, numberOfUnfetchedItemIds := remaining } hashes with
            numberOfUnfetchedItemIds := remaining }).Sound cfg :=
          h.set hi (appendIds_calm has first hashes { a with
            itemIdsRequestedFromPeer := none, numberOfUnfetchedItemIds := remaining })
        split
        · exact hset
        · exact hset.disconnectFromPeer

theorem fetchSyncItems {order : List Nat} (h : n.Sound cfg) :
    (n.fetchSyncItems cfg order).Sound cfg := by
  unfold Node.fetchSyncItems
  generalize n.choosePeers cfg order [] ∅ = requests
  induction requests generalizing n with
  | nil => exact h
  | cons r requests ih =>
    refine ih (congr (h.modify (i := r.1) (f := fun a => { a with
      syncItemsRequestedFromPeer := a.syncItemsRequestedFromPeer ∪ r.2.toFinset })
      fun _ => .inr ⟨rfl, rfl⟩) rfl rfl rfl rfl fun _ hm => hm)

theorem onItemNotAvailable {item : ItemId} (h : n.Sound cfg) :
    (n.onItemNotAvailable i a item).Sound cfg := by
  unfold Node.onItemNotAvailable
  split
  · have hmodify : (n.modifyPeer i fun a => { a with
        itemsRequestedFromPeer := a.itemsRequestedFromPeer.erase item
        inventoryPeerAdvertisedToUs := a.inventoryPeerAdvertisedToUs.erase item }).Sound cfg :=
      h.modify fun _ => .inr ⟨rfl, rfl⟩
    dsimp only
    split
    · exact hmodify.congr rfl rfl rfl rfl fun _ hm => hm
    · exact hmodify
  · split
    · have hmodify : (n.modifyPeer i fun a => { a with
          syncItemsRequestedFromPeer := a.syncItemsRequestedFromPeer.erase item.itemHash }).Sound cfg :=
        h.modify fun _ => .inr ⟨rfl, rfl⟩
      dsimp only
      split
      · exact hmodify.modify fun _ => .inr ⟨rfl, rfl⟩
      · exact hmodify.disconnectFromPeer
    · exact h

theorem processBlockMessage (h : n.Sound cfg)
    (hm : ⟨.block, cfg.messageHash m⟩ ∈ a.itemsRequestedFromPeer ∨
      m.blockId ∈ a.syncItemsRequestedFromPeer → cfg.id m.block = m.blockId) :
    (n.processBlockMessage cfg i a m).Sound cfg := by
  unfold Node.processBlockMessage
  split
  · next hasked =>
    have hmodify : (n.modifyPeer i fun a => { a with
        itemsRequestedFromPeer := a.itemsRequestedFromPeer.erase ⟨.block, cfg.messageHash m⟩ }).Sound
        cfg := h.modify fun _ => .inr ⟨rfl, rfl⟩
    dsimp only
    split
    · refine ⟨hmodify.accepted, hmodify.seen, fun m' hm' => ?_⟩
      have hcases : m' = m ∨ m' ∈ n.messages := by
        simp only [messages, List.mem_append, List.map_append, List.map_cons, List.map_nil,
          List.mem_singleton, Handling.message] at hm' ⊢
        tauto
      rcases hcases with rfl | hm'
      · exact hm (.inl hasked)
      · exact h.named m' hm'
    · next hknown => exact hmodify.treatAsAccepted (hmodify.accepted _ (not_not.1 hknown))
  · split
    · next hasked =>
      have hmodify : (n.modifyPeer i fun a => { a with
          syncItemsRequestedFromPeer := a.syncItemsRequestedFromPeer.erase m.blockId }).Sound cfg :=
        h.modify fun _ => .inr ⟨rfl, rfl⟩
      refine ⟨hmodify.accepted, hmodify.seen, fun m' hm' => ?_⟩
      rcases List.mem_cons.1 (show m' ∈ m :: n.messages from hm') with rfl | hm'
      · exact hm (.inr hasked)
      · exact h.named m' hm'
    · exact h.disconnectFromPeer

theorem processBacklogOfSyncBlocks (h : n.Sound cfg) : n.processBacklogOfSyncBlocks.Sound cfg := by
  have hstart : ({ n with
      receivedSyncItems := n.newReceivedSyncItems.reverse ++ n.receivedSyncItems
      newReceivedSyncItems := [] } : Node β).Sound cfg :=
    h.congr rfl rfl rfl rfl fun m hm => by
      simp only [messages, List.mem_append, List.mem_reverse, List.not_mem_nil, false_or] at hm ⊢
      tauto
  unfold Node.processBacklogOfSyncBlocks
  dsimp only
  split
  · exact hstart
  · next m hfind =>
    have hpop := hstart.modifyActive (f := fun a =>
      if a.idsOfItemsToGet.head? = some m.blockId then { a with
        idsOfItemsToGet := a.idsOfItemsToGet.tail
        idsOfItemsBeingProcessed := insert m.blockId a.idsOfItemsBeingProcessed } else a) fun a => by
      split <;> exact .inl ⟨rfl, rfl⟩
    split
    · refine hpop.congr rfl rfl rfl rfl fun m' hm' => ?_
      have hfound := List.mem_of_find?_eq_some hfind
      simp only [messages, List.mem_append, List.map_append, List.map_cons, List.map_nil,
        List.mem_singleton, Handling.message] at hm' ⊢
      rcases hm' with ((hnew | hrest) | hhandling | rfl) | hhanded
      · exact .inl (.inl (.inl hnew))
      · exact .inl (.inl (.inr (List.mem_of_mem_eraseP hrest)))
      · exact .inl (.inr hhandling)
      · exact .inl (.inl (.inr hfound))
      · exact .inr hhanded
    · exact hpop.modifyActive fun _ => .inl ⟨rfl, rfl⟩

theorem answered {answer : Answer} (h : n.Sound cfg) (hm : cfg.id m.block = m.blockId) :
    (n.syncBlockAnswered cfg m answer).Sound cfg ∧
      (n.normalBlockAnswered cfg m answer).Sound cfg := by
  obtain ⟨hhand, hknown⟩ := h.hand hm
  have haccepted := hhand.pushAccepted hknown
  cases answer with
  | accepted =>
    refine ⟨haccepted.modifyActive fun a => ?_, haccepted.treatAsAccepted hknown⟩
    split
    · exact .inr hknown
    · exact .inl ⟨rfl, rfl⟩
  | tooOld =>
    refine ⟨h.modifyActive fun a => ?_, h⟩
    split <;> exact .inl ⟨rfl, rfl⟩
  | unlinkable => exact ⟨h, h⟩
  | rejected => exact ⟨h, h⟩

end Node.Sound

/-! ### Runs -/

/-- Every block message that the node asked its sender for carries the id of its block. -/
def Node.Event.honest (cfg : Config β) (n : Node β) : Node.Event β → Bool
  | .blockMessage i m => n.peers[i]?.all fun a =>
      ⟨.block, cfg.messageHash m⟩ ∈ a.itemsRequestedFromPeer ∨
        m.blockId ∈ a.syncItemsRequestedFromPeer → cfg.id m.block = m.blockId
  | _ => true

namespace Node.Sound

theorem step {e : Node.Event β} (h : n.Sound cfg) (he : e.honest cfg n)
    (hs : n.step cfg e = some n') : n'.Sound cfg := by
  cases e with
  | connect =>
    cases hs
    refine ⟨h.accepted, fun a ha => ?_, h.named⟩
    rcases List.mem_append.1 ha with ha | ha
    · exact h.seen a ha
    · rw [List.mem_singleton.1 ha]
      exact nofun
  | newPeer i =>
    obtain ⟨a, -, -, rfl⟩ := Node.onPeer_some hs
    exact (h.modify (f := fun a => { a with connection := .active }) fun _ => .inr ⟨rfl, rfl⟩).modify
      fun _ => .inl rfl
  | disconnect i =>
    obtain ⟨a, -, -, rfl⟩ := Node.onPeer_some hs
    exact h.disconnectFromPeer
  | terminate i =>
    obtain ⟨a, -, -, rfl⟩ := Node.onPeer_some hs
    exact h.modify fun _ => .inr ⟨rfl, rfl⟩
  | connectionClosed i =>
    obtain ⟨a, -, -, rfl⟩ := Node.onPeer_some hs
    exact (h.modify (i := i) (f := fun a => { a with connection := .closed, isOpen := false })
      fun _ => .inr ⟨rfl, rfl⟩).congr rfl rfl rfl rfl fun _ hm => hm
  | startSynchronizing i =>
    cases hs
    exact h.modify fun _ => .inl rfl
  | fetchNextBatch i synopsis reset =>
    cases hs
    refine h.modify fun _ => ?_
    cases reset with
    | true => exact .inl rfl
    | false => exact .inr ⟨rfl, rfl⟩
  | itemIds i hashes remaining has timely =>
    obtain ⟨a, hi, -, rfl⟩ := Node.onPeer_some hs
    exact h.onBlockchainItemIdsInventory hi
  | fetchBlockchainItemIds i peerNeeds =>
    obtain ⟨a, -, -, rfl⟩ := Node.onPeer_some hs
    exact h.modify fun _ => .inr ⟨rfl, rfl⟩
  | fetchSyncItems order =>
    cases hs
    exact h.fetchSyncItems
  | itemNotAvailable i item =>
    obtain ⟨a, -, -, rfl⟩ := Node.onPeer_some hs
    exact h.onItemNotAvailable
  | itemIdsInventory i item fetch =>
    obtain ⟨a, -, -, rfl⟩ := Node.onPeer_some hs
    exact (h.modify (i := i) (f := fun a => { a with
      inventoryPeerAdvertisedToUs := insert item a.inventoryPeerAdvertisedToUs })
      fun _ => .inr ⟨rfl, rfl⟩).congr rfl rfl rfl rfl fun _ hm => hm
  | clearOldInventory i item =>
    cases hs
    exact h.modify fun _ => .inr ⟨rfl, rfl⟩
  | fetchItem i item =>
    obtain ⟨a, -, -, rfl⟩ := Node.onPeer_some hs
    exact (h.modify (i := i) (f := fun a => { a with
      itemsRequestedFromPeer := insert item a.itemsRequestedFromPeer })
      fun _ => .inr ⟨rfl, rfl⟩).congr rfl rfl rfl rfl fun _ hm => hm
  | fetchItems i x =>
    obtain ⟨a, -, -, rfl⟩ := Node.onPeer_some hs
    exact h.modify fun _ => .inl rfl
  | blockMessage i m =>
    obtain ⟨a, hi, -, rfl⟩ := Node.onPeer_some hs
    simp only [Node.Event.honest, hi, Option.all_some, decide_eq_true_eq] at he
    exact h.processBlockMessage he
  | processBacklog =>
    cases hs
    exact h.processBacklogOfSyncBlocks
  | answered k answer =>
    obtain ⟨task, hk, rfl⟩ := Option.map_eq_some_iff.1 hs
    have htask : cfg.id task.message.block = task.message.blockId := h.named _ (by
      have hmem := List.mem_map_of_mem (f := Handling.message) (List.mem_of_getElem? hk)
      simp [messages, hmem])
    have hrest : ({ n with handling := n.handling.eraseIdx k } : Node β).Sound cfg :=
      h.congr rfl rfl rfl rfl fun m hm => by
        have herase : ∀ task ∈ n.handling.eraseIdx k, task ∈ n.handling := fun _ =>
          List.mem_of_mem_eraseIdx
        simp only [messages, List.mem_append, List.mem_map] at hm ⊢
        rcases hm with (hm | ⟨task, ht, hm⟩) | hm
        · exact .inl (.inl hm)
        · exact .inl (.inr ⟨task, herase task ht, hm⟩)
        · exact .inr hm
    cases task with
    | sync m => exact (hrest.answered htask).1
    | normal j m => exact (hrest.answered htask).2
  | broadcast x =>
    cases hs
    exact h.own.1.pushAccepted h.own.2
  | syncFrom x =>
    cases hs
    obtain ⟨hown, hknown⟩ := h.own (x := x)
    refine ⟨fun y hy => ?_, hown.seen, hown.named⟩
    rcases mem_pushBack hy with hy | rfl
    · cases hy
    · exact hknown

end Node.Sound

/-- The states of the runs in which peers send blocks under their own ids. -/
def Node.Honest (cfg : Config β) : Node β → Prop :=
  Reaches (fun n e => Node.step cfg n e) (fun n e => e.honest cfg n) {}

/-- In such runs every id recorded because of a block names the block handed to the delegate. -/
theorem Node.Honest.ids_named (h : n.Honest cfg) : n.Named cfg := by
  have hstart : ({} : Node β).Sound cfg := ⟨nofun, nofun, nofun⟩
  exact (Reaches.invariant hstart (fun _ _ _ hn he hs => hn.step he hs) h).isNamed

/-! ### Examples -/

/- A peer that offers an id, is asked for it, and sends this block for it. -/
def demoFetch (b : Nat) : List (Node.Event Nat) :=
  [.connect, .newPeer 0, .fetchNextBatch 0 [] false, .itemIds 0 [1] 0 (fun _ => false) true,
    .fetchSyncItems [0], .blockMessage 0 ⟨b, 1⟩, .processBacklog, .answered 0 .accepted]

/-- The block with the id is sent and accepted. -/
theorem block_named : ∃ n : Node Nat, n.Honest .demo ∧ n.mostRecentBlocksAccepted = [1] ∧
    n.handed = [⟨1, 1⟩] ∧ n.Named .demo := by
  have h : ((demoFetch 1).foldlM
      (fun n e => if Node.Event.honest .demo n e then Node.step .demo n e else none) {}).map
      (fun n : Node Nat => (n.mostRecentBlocksAccepted, n.handed)) = some ([1], [⟨1, 1⟩]) := by
    decide
  obtain ⟨n, hrun, hn⟩ := Option.map_eq_some_iff.1 h
  obtain ⟨haccepted, hhanded⟩ := Prod.mk.inj hn
  have hhonest : n.Honest .demo := .of_run hrun
  exact ⟨n, hhonest, haccepted, hhanded, hhonest.ids_named⟩

/-- Another block is sent under the id: the node takes the id as accepted, and has never been given
the block it names. -/
theorem block_misnamed : ∃ n : Node Nat,
    Reaches (fun n e => Node.step .demo n e) (fun _ _ => True) {} n ∧ ¬ n.Named .demo ∧
    n.mostRecentBlocksAccepted = [1] ∧ n.own = [] ∧ ∀ m ∈ n.handed, Config.demo.id m.block ≠ 1 := by
  have h : ((demoFetch 2).foldlM
      (fun n e => if True then Node.step .demo n e else none) {}).map
      (fun n : Node Nat => (n.mostRecentBlocksAccepted, n.handed, n.own)) =
        some ([1], [⟨2, 1⟩], []) := by
    decide
  obtain ⟨n, hrun, hn⟩ := Option.map_eq_some_iff.1 h
  obtain ⟨haccepted, hn⟩ := Prod.mk.inj hn
  obtain ⟨hhanded, hown⟩ := Prod.mk.inj hn
  refine ⟨n, .of_run hrun, fun hnamed => ?_, haccepted, hown, ?_⟩
  · have hid := (hnamed.accepted 1 (by simp [haccepted])).2 ⟨2, 1⟩ (by simp [hhanded]) rfl
    cases hid
  · rw [hhanded]
    decide

end WeNode.Net
