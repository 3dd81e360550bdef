import WeNode.Lib.Runs
import WeNode.Net.SyncOffers
import Mathlib.Tactic

/-!
# Requests for items

`on_fetch_items_message` answers from the message cache, or else from the chain
(app/application.cpp, `get_item`).  It takes `key_not_found_exception` for an item that is not there,
which is what the cache throws; the chain asserts.
-/

namespace WeNode.Net

open WeNode.Lib

/-- The messages as far as requests are answered with them. -/
inductive Message (β τ : Type) where
  | trx (t : τ)
  | block (m : BlockMessage β)
  | itemNotAvailable (itemType : Nat) (x : Hash)
  /-- of any other type -/
  | other (data : List UInt8)

def blockMessageType : Nat := 1001

/-- What a lookup throws. -/
inductive Failure where
  /-- `key_not_found_exception` -/
  | keyNotFound
  /-- `assert_exception` -/
  | assertion
deriving DecidableEq

/-- The message cache, and the chain as the application reads it. -/
structure ItemStore (β τ : Type) where
  messageCache : List (Hash × Message β τ)
  fetchBlockById : Hash → Option β
  getRecentTransaction : Hash → Option τ
  getBlockTime : Hash → Nat

/-- A message in the queue of a peer: as it is, or by the id under which it is looked up when its turn
comes. -/
inductive QueuedMessage (β τ : Type) where
  | real (m : Message β τ)
  | virtual (itemType : Nat) (x : Hash)

/-- The queue, and whether it has grown too long and its connection is closed. -/
structure SendQueue (β τ : Type) where
  queuedMessages : List (QueuedMessage β τ) := []
  totalQueuedMessagesSize : Nat := 0
  closing : Bool := false

/-- A peer that requests items. -/
structure Requester (β τ : Type) where
  peer : SyncPeer
  queue : SendQueue β τ

namespace Message

variable {β τ : Type}

/-- `message::as<block_message>` -/
def asBlock : Message β τ → Except Failure (BlockMessage β)
  | .block m => .ok m
  | _ => .error .assertion

def isBlock : Message β τ → Bool
  | .block _ => true
  | _ => false

/- Blocks are queued by their ids. -/
def queued : Message β τ → QueuedMessage β τ
  | .block m => .virtual blockMessageType m.blockId
  | m => .real m

end Message

/-- `send_message` and `send_item`, for messages of the given sizes -/
def SendQueue.send {β τ : Type} (size : Message β τ → Nat) (q : SendQueue β τ)
    (e : QueuedMessage β τ) : SendQueue β τ :=
  let total := q.totalQueuedMessagesSize + match e with
    | .real m => size m
    | .virtual _ _ => 4 + 20
  { queuedMessages := q.queuedMessages ++ [e]
    totalQueuedMessagesSize := total
    closing := q.closing || 1024 * 1024 < total }

namespace ItemStore

variable {β τ : Type} (cfg : Config β) (s : ItemStore β τ) (t : Nat) (x : Hash)

/-- `blockchain_tied_message_cache::get_message` -/
def getMessage : Except Failure (Message β τ) :=
  match s.messageCache.lookup x with
  | some m => .ok m
  | none => .error .keyNotFound

/-- `application_impl::get_item` -/
def getItem : Except Failure (Message β τ) :=
  if t = blockMessageType then
    match s.fetchBlockById x with
    | some b => .ok (.block ⟨b, cfg.id b⟩)
    | none => .error .assertion
  else
    match s.getRecentTransaction x with
    | some trx => .ok (.trx trx)
    | none => .error .assertion

/-- `get_message_for_item`, which answers for what is queued by id -/
def getMessageForItem : Except Failure (Message β τ) :=
  match s.getMessage x with
  | .ok m => .ok m
  | .error .assertion => .error .assertion
  | .error .keyNotFound =>
    match s.getItem cfg t x with
    | .ok m => .ok m
    | .error .assertion => .error .assertion
    | .error .keyNotFound => .ok (.itemNotAvailable t x)

/- The replies so far and the last block message among them, with the next id. -/
def fetchRequested (replies : List (Message β τ) × Option (Message β τ)) :
    Except Failure (List (Message β τ) × Option (Message β τ)) :=
  match s.getMessage x with
  | .ok m => .ok (replies.1 ++ [m], if t = blockMessageType then some m else replies.2)
  | .error .assertion => .error .assertion
  | .error .keyNotFound =>
    match s.getItem cfg t x with
    | .ok m => .ok (replies.1 ++ [m], if t = blockMessageType then some m else replies.2)
    | .error .assertion => .error .assertion
    | .error .keyNotFound => .ok (replies.1 ++ [.itemNotAvailable t x], replies.2)

/- The last block that the peer is known to have. -/
def sawBlock (a : SyncPeer) : Option (Message β τ) → Except Failure SyncPeer
  | none => .ok a
  | some m => m.asBlock.map fun b => { a with
      lastBlockDelegateHasSeen := b.blockId
      seenInBlock := false
      lastBlockTimeDelegateHasSeen := s.getBlockTime b.blockId }

/-- `on_fetch_items_message` -/
def onFetchItemsMessage (size : Message β τ → Nat) (r : Requester β τ) (ids : List Hash) :
    Except Failure (Requester β τ) := do
  let (replies, last) ← ids.foldlM (fun replies x => s.fetchRequested cfg t x replies) ([], none)
  let peer ← s.sawBlock r.peer last
  return { peer, queue := replies.foldl (fun q m => q.send size m.queued) r.queue }

/-! ### Items that are there -/

/-- The cache or the delegate has the item. -/
def has : Bool :=
  (s.messageCache.lookup x).isSome ||
    if t = blockMessageType then (s.fetchBlockById x).isSome else (s.getRecentTransaction x).isSome

/-- The answer for an id: the item, or that it is not available. -/
def answerFor : Message β τ :=
  match s.messageCache.lookup x with
  | some m => m
  | none => (s.getItem cfg t x).toOption.getD (.itemNotAvailable t x)

variable {cfg s t x}

/- What the delegate answers for an item that is not in the cache. -/
theorem getItem_eq (hcache : s.messageCache.lookup x = none) :
    s.getItem cfg t x =
      if s.has t x then .ok (s.answerFor cfg t x) else .error .assertion := by
  unfold has answerFor getItem
  rw [hcache]
  by_cases ht : t = blockMessageType
  · simp only [ht, if_true]
    cases s.fetchBlockById x <;> rfl
  · simp only [ht, if_false]
    cases s.getRecentTransaction x <;> rfl

theorem fetchRequested_eq (replies : List (Message β τ) × Option (Message β τ)) :
    s.fetchRequested cfg t x replies =
      if s.has t x then .ok (replies.1 ++ [s.answerFor cfg t x],
        if t = blockMessageType then some (s.answerFor cfg t x) else replies.2)
      else .error .assertion := by
  unfold fetchRequested getMessage
  cases hcache : s.messageCache.lookup x with
  | some m =>
    rw [has, answerFor, hcache]
    rfl
  | none =>
    dsimp only
    rw [getItem_eq hcache]
    cases s.has t x <;> rfl

/-- What is queued by id is sent if it is still there; it is never answered as not available. -/
theorem getMessageForItem_eq :
    s.getMessageForItem cfg t x =
      if s.has t x then .ok (s.answerFor cfg t x) else .error .assertion := by
  unfold getMessageForItem getMessage
  cases hcache : s.messageCache.lookup x with
  | some m =>
    rw [has, answerFor, hcache]
    rfl
  | none =>
    dsimp only
    rw [getItem_eq hcache]
    cases s.has t x <;> rfl

/- The replies for a list of ids. -/
theorem fetchRequested_run {ids : List Hash} {replies r' : List (Message β τ) × Option (Message β τ)} :
    ids.foldlM (fun replies x => s.fetchRequested cfg t x replies) replies = .ok r' ↔
      (∀ x ∈ ids, s.has t x) ∧ r' = (replies.1 ++ ids.map (s.answerFor cfg t),
        if t = blockMessageType then (ids.getLast?.map (s.answerFor cfg t)).or replies.2
        else replies.2) := by
  induction ids generalizing replies with
  | nil =>
    have hnone : replies = (replies.1 ++ [].map (s.answerFor cfg t),
        if t = blockMessageType then (([] : List Hash).getLast?.map (s.answerFor cfg t)).or replies.2
        else replies.2) := by
      simp
    rw [← hnone]
    constructor
    · intro h
      cases h
      exact ⟨nofun, rfl⟩
    · intro ⟨_, h⟩
      rw [h]
      rfl
  | cons x ids ih =>
    rw [run_cons, fetchRequested_eq]
    by_cases hx : s.has t x
    · simp only [hx, if_true, Except.ok.injEq, exists_eq_left', ih, List.forall_mem_cons, true_and]
      have hlast : (if t = blockMessageType then (ids.getLast?.map (s.answerFor cfg t)).or
            (if t = blockMessageType then some (s.answerFor cfg t x) else replies.2)
          else if t = blockMessageType then some (s.answerFor cfg t x) else replies.2) =
          if t = blockMessageType then ((x :: ids).getLast?.map (s.answerFor cfg t)).or replies.2
          else replies.2 := by
        split
        · rw [List.getLast?_cons]
          cases ids.getLast? <;> rfl
        · rfl
      rw [hlast, List.map_cons, List.append_assoc, List.singleton_append]
    · simp [hx]

theorem send_queued (size : Message β τ → Nat) (q : SendQueue β τ) (l : List (Message β τ)) :
    (l.foldl (fun q m => q.send size m.queued) q).queuedMessages =
      q.queuedMessages ++ l.map Message.queued := by
  induction l generalizing q with
  | nil => exact (List.append_nil _).symm
  | cons m l ih =>
    rw [List.foldl_cons, ih, List.map_cons]
    show (q.queuedMessages ++ [m.queued]) ++ _ = _
    rw [List.append_assoc, List.singleton_append]

theorem sawBlock_ok {a : SyncPeer} {last : Option (Message β τ)} :
    (∃ a', s.sawBlock a last = .ok a') ↔ ∀ m ∈ last, m.isBlock := by
  cases last with
  | none => exact iff_of_true ⟨a, rfl⟩ nofun
  | some m =>
    cases m with
    | block m =>
      refine iff_of_true ⟨_, rfl⟩ fun m' hm => ?_
      cases hm
      rfl
    | _ =>
      refine iff_of_false (fun h => ?_) fun h => Bool.false_ne_true (h _ rfl)
      obtain ⟨a', h⟩ := h
      cases h

/- The delegate answers a request for a block with a block. -/
theorem answerFor_isBlock (hx : s.has blockMessageType x) :
    (s.answerFor cfg blockMessageType x).isBlock ↔
      ∀ m, s.messageCache.lookup x = some m → m.isBlock := by
  unfold answerFor
  cases hcache : s.messageCache.lookup x with
  | some m => simp
  | none =>
    have hblock : (s.fetchBlockById x).isSome := by
      unfold has at hx
      rw [hcache] at hx
      simpa using hx
    obtain ⟨b, hb⟩ := Option.isSome_iff_exists.1 hblock
    refine iff_of_true ?_ nofun
    show ((s.getItem cfg blockMessageType x).toOption.getD _).isBlock
    unfold getItem
    rw [if_pos rfl, hb]
    rfl

/- A store with one cached transaction, and two blocks in the chain. -/
def demoStore : ItemStore Nat Nat where
  messageCache := [(7, .trx 70)]
  fetchBlockById x := if x = 1 ∨ x = 2 then some x else none
  getRecentTransaction _ := none
  getBlockTime _ := 0

end ItemStore

end WeNode.Net
