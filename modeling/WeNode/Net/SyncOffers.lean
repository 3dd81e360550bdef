import WeNode.Net.Node
import Mathlib.Data.List.DropRight
import Mathlib.Tactic

/-!
# Offers of sync blocks

`on_blockchain_item_ids_inventory_message` as a function of the peer and its message: the list of ids
is checked, merged with the one kept for the peer, and the number of ids still to come is compared
with the time that has passed.  Times, counts and numbers of blocks are 32-bit words.
-/

namespace WeNode.Net

/-- What the handler asks the delegate. -/
structure Delegate where
  hasItem : ItemType → Hash → Bool
  getBlockTime : Hash → Nat
  getBlockchainNow : Nat

/-- A peer with the time of the last block of its list that the delegate has seen. -/
structure SyncPeer extends Peer where
  lastBlockTimeDelegateHasSeen : Nat := 0

/-- `blockchain_item_ids_inventory_message` -/
structure IdsMessage where
  totalRemainingItemCount : Nat
  itemType : ItemType
  itemHashesAvailable : List Hash

/-- Why a peer is disconnected. -/
inductive Refusal where
  /-- "You gave an invalid response to my request for sync blocks" -/
  | invalidResponse
  /-- "You offered me a list of more sync blocks than could possibly exist" -/
  | tooMany
deriving DecidableEq

/-- `BLOCK_INTERVAL`, `GRAPHENE_NET_FUTURE_SYNC_BLOCKS_GRACE_PERIOD_SEC` -/
def syncBlockInterval : Nat := 1
def gracePeriod : Nat := 60 * 60

namespace SyncPeer

variable {β : Type} (cfg : Config β) (d : Delegate) (m : IdsMessage) (a : SyncPeer)

/- The ids that the delegate has in front of a list are dropped. -/
def popSeen (t : ItemType) : SyncPeer → List Hash → SyncPeer × List Hash
  | a, [] => (a, [])
  | a, x :: xs =>
    if d.hasItem t x then
      popSeen t { a with
        lastBlockDelegateHasSeen := x
        seenInBlock := false
        lastBlockTimeDelegateHasSeen := d.getBlockTime x } xs
    else (a, x :: xs)

/- The ids of a list up to the last that is `x`. -/
def popBack (x : Hash) (l : List Hash) : List Hash := l.rdropWhile (· != x)

/- The peer's list with the new ids; `first` says that they begin with the first id of another peer. -/
def mergeIds (first : Bool) : SyncPeer :=
  match m.itemHashesAvailable with
  | [] => a
  | x :: rest =>
    if a.idsOfItemsToGet = [] then
      if first then { a with idsOfItemsToGet := x :: rest }
      else
        let (a, hashes) := popSeen d m.itemType a (x :: rest)
        { a with idsOfItemsToGet := hashes }
    else
      match popBack x a.idsOfItemsToGet with
      -- the peer has switched forks: its first id should be one of the synopsis
      | [] => { a with
          idsOfItemsToGet := rest
          lastBlockDelegateHasSeen := x
          seenInBlock := false
          lastBlockTimeDelegateHasSeen := d.getBlockTime x }
      | kept => { a with idsOfItemsToGet := kept.dropLast ++ x :: rest }

/-- "peer said we're up-to-date" -/
def saysUpToDate : Bool :=
  m.totalRemainingItemCount = 0 ∧
    (m.itemHashesAvailable = [] ∨ m.itemHashesAvailable.length = 1 ∧
      m.itemHashesAvailable.all (d.hasItem m.itemType)) ∧
    a.idsOfItemsToGet = [] ∧ a.numberOfUnfetchedItemIds = 0

/- The peer's list after the message. -/
def merged (first : Bool) : SyncPeer :=
  { mergeIds d m { a with
      itemIdsRequestedFromPeer := none
      numberOfUnfetchedItemIds := m.totalRemainingItemCount } first with
    numberOfUnfetchedItemIds := m.totalRemainingItemCount }

/-- `minimum_time_of_last_offered_block` -/
def minimumTimeOfLastOfferedBlock : Nat :=
  (a.lastBlockTimeDelegateHasSeen + a.numberOfUnfetchedItemIds * syncBlockInterval % 2 ^ 32) % 2 ^ 32

/-- The offer is in the future, as the node computes it. -/
def offersTooMany : Bool := (d.getBlockchainNow + gracePeriod) % 2 ^ 32 < a.minimumTimeOfLastOfferedBlock

/-- `on_blockchain_item_ids_inventory_message` -/
def onBlockchainItemIdsInventoryMessage (first : Bool) : SyncPeer × Option Refusal :=
  match a.itemIdsRequestedFromPeer with
  -- "I didn't ask for any!"
  | none => (a, none)
  | some synopsis =>
    if !Node.validIds cfg synopsis m.itemHashesAvailable then (a, some .invalidResponse)
    else if saysUpToDate d m a then
      ({ a with itemIdsRequestedFromPeer := none, weNeedSyncItemsFromPeer := false }, none)
    else
      (merged d m a first, if offersTooMany d (merged d m a first) then some .tooMany else none)

end SyncPeer

namespace Node

variable {β : Type} (n : Node β)

/- Another active peer's list begins with the first of the ids. -/
def isFirstItemForOtherPeer (i : Nat) (hashes : List Hash) : Bool :=
  n.peers.zipIdx.any fun (b, j) => j != i && b.isActive && b.idsOfItemsToGet.head?.isSome &&
    b.idsOfItemsToGet.head? == hashes.head?

/-- `calculate_unsynced_block_count_from_all_peers` -/
def calculateUnsyncedBlockCountFromAllPeers : Nat :=
  (n.peers.filter (·.isActive)).foldl (fun most a =>
    max most ((a.idsOfItemsToGet.length % 2 ^ 32 + a.numberOfUnfetchedItemIds) % 2 ^ 32)) 0

/- The ids that a peer has listed, and those it has not listed yet. -/
def offeredBy (a : Peer) : Nat := a.idsOfItemsToGet.length + a.numberOfUnfetchedItemIds

/-- The greatest of the active peers' offers. -/
def greatestOffer : Nat := ((n.peers.filter (·.isActive)).map offeredBy).foldr max 0

end Node

/-! ### The step of the node -/

namespace SyncPeer

variable {β : Type} {cfg : Config β} {d : Delegate} {m : IdsMessage} {a : SyncPeer} {first : Bool}

theorem popSeen_toPeer (t : ItemType) (l : List Hash) :
    (popSeen d t a l).2 = (Node.popSeen (d.hasItem t) l).2 ∧
      (popSeen d t a l).1.toPeer = { a.toPeer with
        lastBlockDelegateHasSeen := (Node.popSeen (d.hasItem t) l).1.getLastD a.lastBlockDelegateHasSeen
        seenInBlock := a.seenInBlock && (Node.popSeen (d.hasItem t) l).1.isEmpty } := by
  simp only [Node.popSeen, List.span_eq_takeWhile_dropWhile]
  induction l generalizing a with
  | nil => simp [popSeen]
  | cons x l ih =>
    unfold popSeen
    split
    · next hx =>
      obtain ⟨hrest, hpeer⟩ := ih (a := { a with
        lastBlockDelegateHasSeen := x
        seenInBlock := false
        lastBlockTimeDelegateHasSeen := d.getBlockTime x })
      rw [List.dropWhile_cons_of_pos hx, List.takeWhile_cons_of_pos hx, List.getLastD_cons]
      refine ⟨hrest, hpeer.trans ?_⟩
      simp
    · next hx => simp [hx]

theorem mergeIds_toPeer :
    (mergeIds d m a first).toPeer =
      Node.appendIds (d.hasItem m.itemType) first a.toPeer m.itemHashesAvailable := by
  unfold mergeIds Node.appendIds
  cases m.itemHashesAvailable with
  | nil => rfl
  | cons x rest =>
    dsimp only
    split
    · split
      · rfl
      · obtain ⟨hrest, hpeer⟩ := popSeen_toPeer (d := d) (a := a) m.itemType (x :: rest)
        rw [hrest, hpeer]
    · unfold popBack List.rdropWhile
      cases (a.idsOfItemsToGet.reverse.dropWhile (· != x)).reverse <;> rfl

theorem message_ignored (hreq : a.itemIdsRequestedFromPeer = none) :
    onBlockchainItemIdsInventoryMessage cfg d m a first = (a, none) := by
  rw [onBlockchainItemIdsInventoryMessage, hreq]

theorem message_invalid {synopsis : List Hash} (hreq : a.itemIdsRequestedFromPeer = some synopsis)
    (hvalid : Node.validIds cfg synopsis m.itemHashesAvailable = false) :
    onBlockchainItemIdsInventoryMessage cfg d m a first = (a, some .invalidResponse) := by
  rw [onBlockchainItemIdsInventoryMessage, hreq]
  simp only [hvalid, Bool.not_false, if_true]

theorem message_upToDate {synopsis : List Hash} (hreq : a.itemIdsRequestedFromPeer = some synopsis)
    (hvalid : Node.validIds cfg synopsis m.itemHashesAvailable) (hup : saysUpToDate d m a) :
    onBlockchainItemIdsInventoryMessage cfg d m a first =
      ({ a with itemIdsRequestedFromPeer := none, weNeedSyncItemsFromPeer := false }, none) := by
  rw [onBlockchainItemIdsInventoryMessage, hreq]
  simp only [hvalid, hup, Bool.not_true, Bool.false_eq_true, if_false, if_true]

theorem message_merged {synopsis : List Hash} (hreq : a.itemIdsRequestedFromPeer = some synopsis)
    (hvalid : Node.validIds cfg synopsis m.itemHashesAvailable) (hup : saysUpToDate d m a = false) :
    onBlockchainItemIdsInventoryMessage cfg d m a first = (merged d m a first,
      if offersTooMany d (merged d m a first) then some .tooMany else none) := by
  rw [onBlockchainItemIdsInventoryMessage, hreq]
  simp only [hvalid, hup, Bool.not_true, Bool.false_eq_true, if_false]

/-- The handler is the step of the node, with the plausibility of the offer computed from its
times. -/
theorem message_step {n : Node β} {i : Nat} {r : SyncPeer × Option Refusal}
    (hi : n.peers[i]? = some a.toPeer)
    (hr : onBlockchainItemIdsInventoryMessage cfg d m a
      (n.isFirstItemForOtherPeer i m.itemHashesAvailable) = r) :
    n.onBlockchainItemIdsInventory cfg i a.toPeer m.itemHashesAvailable m.totalRemainingItemCount
        (d.hasItem m.itemType) (r.2 ≠ some .tooMany) =
      match r.2 with
      | none => n.modifyPeer i fun _ => r.1.toPeer
      | some _ => (n.modifyPeer i fun _ => r.1.toPeer).disconnectFromPeer i := by
  have hsame : (n.modifyPeer i fun _ => a.toPeer) = n := by
    have hpeers : (n.peers.modify i fun _ => a.toPeer) = n.peers := by
      refine List.ext_getElem? fun j => ?_
      rw [List.getElem?_modify]
      split
      · next hij =>
        rw [← hij, hi]
        rfl
      · exact congrFun Option.map_id _
    show ({ n with peers := n.peers.modify i fun _ => a.toPeer } : Node β) = n
    rw [hpeers]
  unfold Node.onBlockchainItemIdsInventory
  cases hreq : a.itemIdsRequestedFromPeer with
  | none =>
    rw [message_ignored hreq] at hr
    subst hr
    exact hsame.symm
  | some synopsis =>
    dsimp only
    by_cases hvalid : Node.validIds cfg synopsis m.itemHashesAvailable
    · simp only [hvalid, Bool.not_true, Bool.false_eq_true, if_false]
      cases hup : saysUpToDate d m a with
      | true =>
        rw [message_upToDate hreq hvalid hup] at hr
        subst hr
        exact if_pos (of_decide_eq_true hup)
      | false =>
        rw [message_merged hreq hvalid hup] at hr
        subst hr
        refine (if_neg (of_decide_eq_false hup)).trans ?_
        have hset := congrArg (fun b : Peer => n.modifyPeer i fun _ =>
          { b with numberOfUnfetchedItemIds := m.totalRemainingItemCount })
          (@mergeIds_toPeer d m { a with
            itemIdsRequestedFromPeer := none
            numberOfUnfetchedItemIds := m.totalRemainingItemCount }
            (n.isFirstItemForOtherPeer i m.itemHashesAvailable))
        cases offersTooMany d (merged d m a (n.isFirstItemForOtherPeer i m.itemHashesAvailable)) with
        | true => exact congrArg (Node.disconnectFromPeer · i) hset.symm
        | false => exact hset.symm
    · rw [Bool.not_eq_true] at hvalid
      rw [message_invalid hreq hvalid] at hr
      subst hr
      simp only [hvalid, Bool.not_false, if_true]
      exact congrArg (Node.disconnectFromPeer · i) hsame.symm

/-! ### Plausible offers -/

/-- The time of the block before the first that the peer offers beyond its list: the last of the ids
that the delegate has, or the one the list begins with after a fork. -/
def timeBeforeOffer (d : Delegate) (m : IdsMessage) (a : SyncPeer) (first : Bool) : Nat :=
  if saysUpToDate d m a then a.lastBlockTimeDelegateHasSeen
  else
    match m.itemHashesAvailable with
    | [] => a.lastBlockTimeDelegateHasSeen
    | x :: rest =>
      if a.idsOfItemsToGet = [] then
        if first then a.lastBlockTimeDelegateHasSeen
        else (((x :: rest).takeWhile (d.hasItem m.itemType)).map d.getBlockTime).getLastD
          a.lastBlockTimeDelegateHasSeen
      else if x ∈ a.idsOfItemsToGet then a.lastBlockTimeDelegateHasSeen
      else d.getBlockTime x

theorem popSeen_time (t : ItemType) (l : List Hash) :
    (popSeen d t a l).1.lastBlockTimeDelegateHasSeen =
      ((l.takeWhile (d.hasItem t)).map d.getBlockTime).getLastD a.lastBlockTimeDelegateHasSeen := by
  induction l generalizing a with
  | nil => rfl
  | cons x l ih =>
    unfold popSeen
    split
    · next hx => rw [ih, List.takeWhile_cons_of_pos hx, List.map_cons, List.getLastD_cons]
    · next hx => rw [List.takeWhile_cons_of_neg hx, List.map_nil, List.getLastD_nil]

theorem popBack_eq_nil {x : Hash} {l : List Hash} : popBack x l = [] ↔ x ∉ l := by
  rw [popBack, List.rdropWhile_eq_nil_iff]
  constructor
  · intro h hx
    simpa using h x hx
  · intro h y hy
    have hne : y ≠ x := fun hyx => h (hyx ▸ hy)
    simpa using hne

theorem merged_time (hup : saysUpToDate d m a = false) :
    (merged d m a first).lastBlockTimeDelegateHasSeen = timeBeforeOffer d m a first := by
  rw [timeBeforeOffer, hup]
  show (mergeIds d m _ first).lastBlockTimeDelegateHasSeen = _
  unfold mergeIds
  cases m.itemHashesAvailable with
  | nil => rfl
  | cons x rest =>
    dsimp only
    by_cases hempty : a.idsOfItemsToGet = []
    · simp only [hempty, if_true, Bool.false_eq_true, if_false]
      cases first with
      | true => rfl
      | false => exact popSeen_time m.itemType (x :: rest)
    · simp only [hempty, Bool.false_eq_true, if_false]
      by_cases hx : x ∈ a.idsOfItemsToGet
      · rw [if_pos hx]
        cases hkept : popBack x a.idsOfItemsToGet with
        | nil => exact absurd hx (popBack_eq_nil.1 hkept)
        | cons y kept => rfl
      · rw [if_neg hx, popBack_eq_nil.2 hx]

/-- The handler compares the offer with the time of the block before it. -/
theorem message_time {synopsis : List Hash} (hreq : a.itemIdsRequestedFromPeer = some synopsis)
    (hvalid : Node.validIds cfg synopsis m.itemHashesAvailable) :
    (onBlockchainItemIdsInventoryMessage cfg d m a first).1.lastBlockTimeDelegateHasSeen =
      timeBeforeOffer d m a first := by
  cases hup : saysUpToDate d m a with
  | true =>
    rw [message_upToDate hreq hvalid hup, timeBeforeOffer, hup]
    rfl
  | false =>
    rw [message_merged hreq hvalid hup]
    exact merged_time hup

theorem timeBeforeOffer_lt (hlast : a.lastBlockTimeDelegateHasSeen < 2 ^ 32)
    (htime : ∀ x, d.getBlockTime x < 2 ^ 32) : timeBeforeOffer d m a first < 2 ^ 32 := by
  have hgetLast : ∀ l : List Hash,
      (l.map d.getBlockTime).getLastD a.lastBlockTimeDelegateHasSeen < 2 ^ 32 := fun l => by
    rw [List.getLastD_eq_getLast?]
    cases h : (l.map d.getBlockTime).getLast? with
    | none => exact hlast
    | some t =>
      obtain ⟨x, -, rfl⟩ := List.mem_map.1 (List.mem_of_getLast? h)
      exact htime x
  unfold timeBeforeOffer
  split
  · exact hlast
  · split
    · exact hlast
    · split
      · split
        · exact hlast
        · exact hgetLast _
      · split
        · exact hlast
        · exact htime _

end SyncPeer

namespace Node

variable {β : Type} {n : Node β}

theorem foldl_max {α : Type} (f : α → Nat) (l : List α) (most : Nat) :
    l.foldl (fun most a => max most (f a)) most = max most ((l.map f).foldr max 0) := by
  induction l generalizing most with
  | nil => simp
  | cons a l ih => rw [List.foldl_cons, ih, List.map_cons, List.foldr_cons, max_assoc]

theorem foldr_max_lt {l : List Nat} {k : Nat} (hk : 0 < k) : l.foldr max 0 < k ↔ ∀ x ∈ l, x < k := by
  induction l with
  | nil => simpa using hk
  | cons x l ih => simp [ih]

/-- The node knows the greatest offer exactly if no offer needs more than 32 bits. -/
theorem calculateUnsynced_eq_iff :
    n.calculateUnsyncedBlockCountFromAllPeers = n.greatestOffer ↔
      ∀ a ∈ n.peers, a.isActive → offeredBy a < 2 ^ 32 := by
  have hword : n.calculateUnsyncedBlockCountFromAllPeers =
      ((n.peers.filter (·.isActive)).map fun a => offeredBy a % 2 ^ 32).foldr max 0 := by
    refine (foldl_max _ _ 0).trans ?_
    rw [Nat.zero_max]
    exact congrArg (List.foldr max 0) (List.map_congr_left fun a _ => Nat.mod_add_mod _ _ _)
  have hsmall : n.calculateUnsyncedBlockCountFromAllPeers < 2 ^ 32 := by
    rw [hword, foldr_max_lt (by decide)]
    intro x hx
    obtain ⟨a, -, rfl⟩ := List.mem_map.1 hx
    exact Nat.mod_lt _ (by decide)
  constructor
  · intro h a ha hactive
    rw [h, greatestOffer, foldr_max_lt (by decide)] at hsmall
    exact hsmall _ (List.mem_map_of_mem (List.mem_filter.2 ⟨ha, hactive⟩))
  · intro h
    rw [hword, greatestOffer]
    refine congrArg (List.foldr max 0) (List.map_congr_left fun a ha => ?_)
    obtain ⟨ha, hactive⟩ := List.mem_filter.1 ha
    exact Nat.mod_eq_of_lt (h a ha hactive)

end Node

namespace SyncPeer

variable {β : Type} {cfg : Config β} {d : Delegate} {m : IdsMessage} {a : SyncPeer} {first : Bool}

/-- An offer in the future is refused exactly if its time does not begin to count from zero again, and
the reply does not say that the node is up to date; the greatest offer is known exactly if no peer's
needs more than 32 bits. -/
theorem offers_refused_iff {synopsis : List Hash} (hreq : a.itemIdsRequestedFromPeer = some synopsis)
    (hvalid : Node.validIds cfg synopsis m.itemHashesAvailable)
    (hlast : a.lastBlockTimeDelegateHasSeen < 2 ^ 32) (htime : ∀ x, d.getBlockTime x < 2 ^ 32)
    (hnow : d.getBlockchainNow < 2 ^ 32) (hcount : m.totalRemainingItemCount < 2 ^ 32) :
    ((d.getBlockchainNow + gracePeriod <
          timeBeforeOffer d m a first + m.totalRemainingItemCount * syncBlockInterval →
        (onBlockchainItemIdsInventoryMessage cfg d m a first).2.isSome) ↔
      (saysUpToDate d m a → a.lastBlockTimeDelegateHasSeen ≤ d.getBlockchainNow + gracePeriod) ∧
        ¬ (d.getBlockchainNow + gracePeriod < 2 ^ 32 ∧
          2 ^ 32 ≤ timeBeforeOffer d m a first + m.totalRemainingItemCount * syncBlockInterval ∧
          timeBeforeOffer d m a first + m.totalRemainingItemCount * syncBlockInterval ≤
            2 ^ 32 + d.getBlockchainNow + gracePeriod)) ∧
    ∀ n : Node β, n.calculateUnsyncedBlockCountFromAllPeers = n.greatestOffer ↔
      ∀ a ∈ n.peers, a.isActive → Node.offeredBy a < 2 ^ 32 := by
  refine ⟨?_, fun n => Node.calculateUnsynced_eq_iff⟩
  have hbefore : timeBeforeOffer d m a first < 2 ^ 32 := timeBeforeOffer_lt hlast htime
  cases hup : saysUpToDate d m a with
  | true =>
    have hnone : m.totalRemainingItemCount = 0 := (of_decide_eq_true hup).1
    have hsame : timeBeforeOffer d m a first = a.lastBlockTimeDelegateHasSeen := by
      rw [timeBeforeOffer, hup]
      rfl
    rw [message_upToDate hreq hvalid hup, hsame, hnone]
    simp only [Option.isSome_none, Bool.false_eq_true, true_implies, imp_false]
    omega
  | false =>
    have hmerged : _ = timeBeforeOffer d m a first := merged_time hup
    have hrefused : (onBlockchainItemIdsInventoryMessage cfg d m a first).2.isSome ↔
        (d.getBlockchainNow + gracePeriod) % 2 ^ 32 <
          (timeBeforeOffer d m a first + m.totalRemainingItemCount * syncBlockInterval % 2 ^ 32) %
            2 ^ 32 := by
      rw [message_merged hreq hvalid hup, ← hmerged]
      show (if offersTooMany d (merged d m a first) then some Refusal.tooMany else none).isSome ↔ _
      rw [offersTooMany]
      split
      · next h => exact iff_of_true rfl (of_decide_eq_true h)
      · next h => exact iff_of_false Bool.false_ne_true fun h' => h (decide_eq_true h')
    rw [hrefused]
    simp only [syncBlockInterval, gracePeriod, Bool.false_eq_true, false_implies, true_and]
    omega

/- A peer that the node has asked for blocks after its fifth, and its offers. -/
def demoDelegate : Delegate where
  hasItem _ x := x ≤ 5
  getBlockTime x := (1600000000 + x) % 2 ^ 32
  getBlockchainNow := 1600000010

def demoPeer : SyncPeer := { itemIdsRequestedFromPeer := some [3, 5] }

def demoOffer (count : Nat) : IdsMessage := ⟨count, .block, [5, 6, 7]⟩

/-- An offer of ten thousand blocks more than there can be is refused. -/
theorem offer_refused :
    (onBlockchainItemIdsInventoryMessage .demo demoDelegate (demoOffer 10000) demoPeer false).2.isSome :=
  (@offers_refused_iff _ .demo demoDelegate (demoOffer 10000) demoPeer false [3, 5] rfl (by decide)
    (by decide) (fun x => Nat.mod_lt _ (by decide)) (by decide) (by decide)).1.2 (by decide)
    (by decide)

/-- An offer of as many blocks as a count can hold is taken. -/
theorem offer_taken : ∃ (d : Delegate) (m : IdsMessage) (a : SyncPeer) (synopsis : List Hash),
    a.itemIdsRequestedFromPeer = some synopsis ∧
    Node.validIds .demo synopsis m.itemHashesAvailable ∧ m.totalRemainingItemCount < 2 ^ 32 ∧
    d.getBlockchainNow + gracePeriod <
      (onBlockchainItemIdsInventoryMessage .demo d m a false).1.lastBlockTimeDelegateHasSeen +
        m.totalRemainingItemCount * syncBlockInterval ∧
    (onBlockchainItemIdsInventoryMessage .demo d m a false).2 = none :=
  ⟨demoDelegate, demoOffer (2 ^ 32 - 1), demoPeer, [3, 5], rfl, by decide, by decide, by decide,
    by decide⟩

end SyncPeer

end WeNode.Net
