import WeNode.Net.Node
import Mathlib.Data.List.Perm.Basic

/-!
# The backlog of sync blocks

libraries/net/node.cpp, `process_backlog_of_sync_blocks`, all of its rounds.  A block is handed over
by starting a call, which does not give way; where the delegate is asked for a synopsis in between,
no other handler is followed, and the loop ends there in any case.
-/

namespace WeNode.Net

variable {β : Type}

/-- The node with its calls of `send_sync_block_to_node_delegate` in progress, each with whether it
is ready. -/
structure SyncNode (β : Type) extends Node β where
  handleMessageCallsInProgress : List Bool := []
  suspendFetchingSyncBlocks : Bool := false
  syncItemsToFetchUpdated : Bool := false

namespace Backlog

/- The limits of the node, and the synopsis the delegate gives for a peer; none where the peer is on
a fork the delegate is unable to switch to. -/
structure Setting where
  maximumNumberOfBlocksToHandleAtOneTime : Nat
  maximumNumberOfSyncBlocksToPrefetch : Nat
  synopsis : Nat → Option (List Hash)

variable (σ : Setting) (n : SyncNode β)

/- The garbage collection at the start. -/
def collect : SyncNode β :=
  { n with
    handleMessageCallsInProgress := n.handleMessageCallsInProgress.filter fun ready => !ready }

def tooMany : Bool :=
  decide (σ.maximumNumberOfBlocksToHandleAtOneTime ≤ n.handleMessageCallsInProgress.length)

/- The received blocks with the new ones in front. -/
def pending : List (BlockMessage β) := n.newReceivedSyncItems.reverse ++ n.receivedSyncItems

/- The first block of the backlog that is the next one of an active peer. -/
def candidate : Option (BlockMessage β) := (pending n).find? n.potentialFirstBlock

/-- `peers_needing_next_batch`: the block was the last item of the peer. -/
def peersNeedingNextBatch (n : Node β) (m : BlockMessage β) : List Nat :=
  (n.peers.zipIdx.filter fun (a, _) => a.isActive &&
    decide (a.idsOfItemsToGet.head? = some m.blockId ∨ m.blockId ∈ a.idsOfItemsBeingProcessed) &&
    decide ((if a.idsOfItemsToGet.head? = some m.blockId then a.idsOfItemsToGet.tail
      else a.idsOfItemsToGet) = []) && decide (a.numberOfUnfetchedItemIds = 0) &&
    decide (a.idsOfItemsBeingProcessed.erase m.blockId = ∅)).map Prod.snd

/-- `fetch_next_batch_of_item_ids_from_peer` of each -/
def fetchNextBatches (is : List Nat) (n : Node β) : Node β :=
  is.foldl (fun n i => match σ.synopsis i with
    | some synopsis => n.fetchNextBatchOfItemIds i synopsis false
    | none => n.disconnectFromPeer i) n

/- What a round does with a block. -/
inductive Turn (β : Type) where
  | nothing
  | handed (m : BlockMessage β)
  | alreadyAccepted (m : BlockMessage β)

def Turn.block : Turn β → Option (BlockMessage β)
  | nothing => none
  | handed m => some m
  | alreadyAccepted m => some m

def Turn.handedOver : Turn β → Option (BlockMessage β)
  | handed m => some m
  | _ => none

/- The node after a block was handed over. -/
def handOver : SyncNode β :=
  { n with
    toNode := n.processBacklogOfSyncBlocks
    handleMessageCallsInProgress := n.handleMessageCallsInProgress ++ [false] }

/- The body of the loop, up to the test of the number of calls. -/
def round : SyncNode β × Turn β :=
  match candidate n with
  | none => ({ n with toNode := n.processBacklogOfSyncBlocks }, .nothing)
  | some m =>
    if m.blockId ∉ n.mostRecentBlocksAccepted then (handOver n, .handed m)
    else
      let node := fetchNextBatches σ (peersNeedingNextBatch n.toNode m) n.processBacklogOfSyncBlocks
      ({ n with toNode := node }, .alreadyAccepted m)

section

variable {σ n} {m : BlockMessage β}

theorem mem_pending (h : candidate n = some m) : m ∈ pending n := List.mem_of_find?_eq_some h

/- The peers behind a round that has found a block. -/
def pop (m : BlockMessage β) (a : Peer) : Peer :=
  if a.isActive then
    if a.idsOfItemsToGet.head? = some m.blockId then { a with
      idsOfItemsToGet := a.idsOfItemsToGet.tail
      idsOfItemsBeingProcessed := insert m.blockId a.idsOfItemsBeingProcessed } else a
  else a

/- The round looks for it after it has moved the new blocks. -/
theorem candidate_moved (n : SyncNode β) :
    (n.newReceivedSyncItems.reverse ++ n.receivedSyncItems).find?
      (Node.potentialFirstBlock { n.toNode with
        receivedSyncItems := n.newReceivedSyncItems.reverse ++ n.receivedSyncItems
        newReceivedSyncItems := [] }) = candidate n := rfl

theorem processBacklog_none (h : candidate n = none) :
    n.processBacklogOfSyncBlocks =
      { n.toNode with receivedSyncItems := pending n, newReceivedSyncItems := [] } := by
  unfold Node.processBacklogOfSyncBlocks
  dsimp only
  rw [candidate_moved, h]
  rfl

theorem processBacklog_handed (h : candidate n = some m)
    (hfresh : m.blockId ∉ n.mostRecentBlocksAccepted) :
    n.processBacklogOfSyncBlocks =
      { n.toNode with
        peers := n.peers.map (pop m)
        receivedSyncItems := (pending n).eraseP n.potentialFirstBlock
        newReceivedSyncItems := []
        handling := n.handling ++ [.sync m] } := by
  unfold Node.processBacklogOfSyncBlocks
  dsimp only
  rw [candidate_moved, h]
  dsimp only
  rw [if_pos hfresh]
  rfl

/- The block is still on the list of the peers where it is being processed. -/
theorem processBacklog_accepted (h : candidate n = some m)
    (hold : m.blockId ∈ n.mostRecentBlocksAccepted) :
    n.processBacklogOfSyncBlocks =
      { n.toNode with
        peers := (n.peers.map (pop m)).map fun a => if a.isActive then { a with
          idsOfItemsBeingProcessed := a.idsOfItemsBeingProcessed.erase m.blockId } else a
        receivedSyncItems := pending n
        newReceivedSyncItems := [] } := by
  unfold Node.processBacklogOfSyncBlocks
  dsimp only
  rw [candidate_moved, h]
  dsimp only
  rw [if_neg (not_not_intro hold)]
  rfl

theorem pending_handOver (h : candidate n = some m)
    (hfresh : m.blockId ∉ n.mostRecentBlocksAccepted) :
    (pending n).Perm (m :: pending (handOver n)) := by
  have hpending : pending (handOver n) = (pending n).eraseP n.potentialFirstBlock := by
    unfold pending handOver
    rw [processBacklog_handed h hfresh]
    rfl
  have hm : n.potentialFirstBlock m = true := List.find?_some h
  rw [hpending]
  obtain ⟨b, l₁, l₂, hnot, hb, hsplit, herase⟩ := List.exists_of_eraseP (mem_pending h) hm
  have hbm : b = m := by
    have hfound : candidate n = some b := by
      unfold candidate
      rw [hsplit, List.find?_append, List.find?_eq_none.2 hnot, Option.none_or,
        List.find?_cons_of_pos hb]
    exact Option.some.inj (hfound.symm.trans h)
  rw [herase, hsplit, hbm]
  exact List.perm_middle

/-- A round that hands a block over leaves fewer. -/
theorem round_shorter (h : (round σ n).2.handedOver.isSome = true) :
    (pending (round σ n).1).length < (pending n).length := by
  unfold round at h ⊢
  cases hm : candidate n with
  | none => simp [hm, Turn.handedOver] at h
  | some m =>
    by_cases hfresh : m.blockId ∉ n.mostRecentBlocksAccepted
    · simp only [if_pos hfresh]
      rw [(pending_handOver hm hfresh).length_eq]
      exact Nat.lt_succ_self _
    · simp [hm, hfresh, Turn.handedOver] at h

end

/-- `do { … } while ( block_processed_this_iteration )`, with what its rounds did -/
def rounds (n : SyncNode β) : SyncNode β × List (Turn β) :=
  let r := round σ n
  if tooMany σ r.1 then
    let suspend := decide (σ.maximumNumberOfSyncBlocksToPrefetch ≤ r.1.receivedSyncItems.length)
    ({ r.1 with
      suspendFetchingSyncBlocks := suspend || r.1.suspendFetchingSyncBlocks }, [r.2])
  else if _h : r.2.handedOver.isSome = true then
    let rest := rounds r.1
    (rest.1, r.2 :: rest.2)
  else (r.1, [r.2])
termination_by (pending n).length
decreasing_by exact round_shorter ‹_›

/-- `process_backlog_of_sync_blocks` -/
def processBacklogOfSyncBlocks (n : SyncNode β) : SyncNode β × List (Turn β) :=
  let n := collect n
  if tooMany σ n then (n, [])
  else
    let r := rounds σ { n with suspendFetchingSyncBlocks := false }
    let updated := r.1.syncItemsToFetchUpdated || !r.1.suspendFetchingSyncBlocks
    ({ r.1 with syncItemsToFetchUpdated := updated }, r.2)

/-! ### What is asked of a call -/

/-- With room left no received block is the next one of a peer; the blocks handed over or found
accepted are off the backlog, each handed over once, and those of a peer's list in its order. -/
structure Drained (n n' : SyncNode β) (turns : List (Turn β)) : Prop where
  none_left : n'.handleMessageCallsInProgress.length < σ.maximumNumberOfBlocksToHandleAtOneTime →
    ∀ m ∈ n'.receivedSyncItems, n'.potentialFirstBlock m = false
  removed : (pending n).Perm (turns.filterMap Turn.block ++ pending n')
  once : ((pending n).map (·.blockId)).Nodup →
    ((turns.filterMap Turn.handedOver).map (·.blockId)).Nodup
  in_order : ∀ (i : Nat) (a : Peer), n.peers[i]? = some a → a.isActive = true →
    ∃ (a' : Peer) (popped : List Hash), n'.peers[i]? = some a' ∧
      a.idsOfItemsToGet = popped ++ a'.idsOfItemsToGet ∧
      popped.Sublist ((turns.filterMap Turn.block).map (·.blockId))

/-- No round comes to a block that was accepted before. -/
inductive Undisturbed : SyncNode β → Prop
  | done {n : SyncNode β} (h : candidate n = none) : Undisturbed n
  | full {n : SyncNode β} {m : BlockMessage β} (h : candidate n = some m)
      (hfresh : m.blockId ∉ n.mostRecentBlocksAccepted) (hfull : tooMany σ (handOver n) = true) :
      Undisturbed n
  | next {n : SyncNode β} {m : BlockMessage β} (h : candidate n = some m)
      (hfresh : m.blockId ∉ n.mostRecentBlocksAccepted) (rest : Undisturbed (handOver n)) :
      Undisturbed n

section

variable {σ n} {m : BlockMessage β}

/-! ### One round -/

theorem round_nothing (h : candidate n = none) :
    round σ n = ({ n with toNode := n.processBacklogOfSyncBlocks }, .nothing) := by
  unfold round
  rw [h]

theorem round_handed (h : candidate n = some m) (hfresh : m.blockId ∉ n.mostRecentBlocksAccepted) :
    round σ n = (handOver n, .handed m) := by
  unfold round
  rw [h]
  dsimp only
  rw [if_pos hfresh]

theorem round_accepted (h : candidate n = some m) (hold : m.blockId ∈ n.mostRecentBlocksAccepted) :
    (round σ n).2 = .alreadyAccepted m ∧
      (round σ n).1.toNode
        = fetchNextBatches σ (peersNeedingNextBatch n.toNode m) n.processBacklogOfSyncBlocks := by
  unfold round
  rw [h]
  dsimp only
  rw [if_neg (not_not_intro hold)]
  exact ⟨rfl, rfl⟩

/- The backlog and the peers' lists of ids are the same. -/
structure SameLists (n n' : Node β) : Prop where
  received : n'.receivedSyncItems = n.receivedSyncItems
  new : n'.newReceivedSyncItems = n.newReceivedSyncItems
  lists : n'.peers.map (·.idsOfItemsToGet) = n.peers.map (·.idsOfItemsToGet)

theorem SameLists.trans {n₁ n₂ n₃ : Node β} (h : SameLists n₁ n₂) (h' : SameLists n₂ n₃) :
    SameLists n₁ n₃ :=
  ⟨h'.received.trans h.received, h'.new.trans h.new, h'.lists.trans h.lists⟩

theorem SameLists.modifyPeer (n : Node β) (i : Nat) {f : Peer → Peer}
    (hf : ∀ a, (f a).idsOfItemsToGet = a.idsOfItemsToGet) : SameLists n (n.modifyPeer i f) := by
  refine ⟨rfl, rfl, ?_⟩
  apply List.ext_getElem?
  intro j
  simp only [Node.modifyPeer, List.getElem?_map, List.getElem?_modify]
  cases n.peers[j]? with
  | none => split <;> rfl
  | some a =>
    split
    · exact congrArg some (hf a)
    · rfl

/- Asking for more ids changes neither the backlog nor the lists of ids. -/
theorem fetchNextBatches_sameLists (is : List Nat) (n : Node β) :
    SameLists n (fetchNextBatches σ is n) := by
  induction is generalizing n with
  | nil => exact ⟨rfl, rfl, rfl⟩
  | cons j is ih =>
    cases hs : σ.synopsis j with
    | none =>
      have hstep : fetchNextBatches σ (j :: is) n
          = fetchNextBatches σ is (n.disconnectFromPeer j) := by
        simp only [fetchNextBatches, List.foldl_cons, hs]
      have hgo : SameLists n (n.disconnectFromPeer j) := by
        unfold Node.disconnectFromPeer
        exact SameLists.modifyPeer n j fun _ => rfl
      rw [hstep]
      exact hgo.trans (ih _)
    | some synopsis =>
      have hstep : fetchNextBatches σ (j :: is) n
          = fetchNextBatches σ is (n.fetchNextBatchOfItemIds j synopsis false) := by
        simp only [fetchNextBatches, List.foldl_cons, hs]
      have hgo : SameLists n (n.fetchNextBatchOfItemIds j synopsis false) := by
        unfold Node.fetchNextBatchOfItemIds
        exact SameLists.modifyPeer n j fun _ => rfl
      rw [hstep]
      exact hgo.trans (ih _)

theorem round_entries (n : SyncNode β) :
    (pending n).Perm ((round σ n).2.handedOver.toList ++ pending (round σ n).1) ∧
      (round σ n).1.newReceivedSyncItems = [] := by
  cases hm : candidate n with
  | none =>
    have hpending : pending { n with toNode := n.processBacklogOfSyncBlocks } = pending n := by
      unfold pending
      rw [processBacklog_none hm]
      rfl
    rw [round_nothing hm, hpending, processBacklog_none hm]
    exact ⟨.refl _, rfl⟩
  | some m =>
    by_cases hfresh : m.blockId ∉ n.mostRecentBlocksAccepted
    · rw [round_handed hm hfresh]
      refine ⟨pending_handOver hm hfresh, ?_⟩
      unfold handOver
      rw [processBacklog_handed hm hfresh]
    · have hold := Decidable.not_not.1 hfresh
      obtain ⟨hturn, hnode⟩ := round_accepted (σ := σ) hm hold
      have hsame := fetchNextBatches_sameLists (σ := σ) (peersNeedingNextBatch n.toNode m)
        n.processBacklogOfSyncBlocks
      rw [← hnode] at hsame
      have hr := hsame.received
      have hn := hsame.new
      have hpending : pending (round σ n).1 = pending n := by
        rw [pending, hr, hn, processBacklog_accepted hm hold]
        rfl
      rw [hturn, hpending]
      refine ⟨.refl _, ?_⟩
      rw [hn, processBacklog_accepted hm hold]

/- A peer whose list has the block in front loses it, every other list stays. -/
theorem pop_ids (m : BlockMessage β) (a : Peer) (hactive : a.isActive = true) :
    ∃ popped : List Hash, a.idsOfItemsToGet = popped ++ (pop m a).idsOfItemsToGet ∧
      popped.Sublist [m.blockId] := by
  unfold pop
  rw [if_pos hactive]
  split
  · next hhead =>
    obtain ⟨x, xs, hids⟩ := List.exists_cons_of_ne_nil (l := a.idsOfItemsToGet) (by
      rintro hnil
      simp [hnil] at hhead)
    rw [hids] at hhead ⊢
    cases hhead
    exact ⟨[m.blockId], rfl, .refl _⟩
  · exact ⟨[], rfl, List.nil_sublist _⟩

theorem pop_isActive (m : BlockMessage β) (a : Peer) : (pop m a).isActive = a.isActive := by
  unfold pop
  split
  · split <;> rfl
  · rfl

theorem round_order (n : SyncNode β) {i : Nat} {a : Peer} (ha : n.peers[i]? = some a)
    (hactive : a.isActive = true) :
    ∃ (a' : Peer) (popped : List Hash), (round σ n).1.peers[i]? = some a' ∧
      a.idsOfItemsToGet = popped ++ a'.idsOfItemsToGet ∧
      popped.Sublist ((round σ n).2.block.toList.map (·.blockId)) ∧
      ((round σ n).2.handedOver.isSome = true → a'.isActive = true) := by
  cases hm : candidate n with
  | none =>
    rw [round_nothing hm]
    refine ⟨a, [], ?_, rfl, List.nil_sublist _, fun _ => hactive⟩
    rw [processBacklog_none hm]
    exact ha
  | some m =>
    obtain ⟨popped, hids, hsub⟩ := pop_ids m a hactive
    have hpopped : (n.peers.map (pop m))[i]? = some (pop m a) := by
      rw [List.getElem?_map, ha]
      rfl
    by_cases hfresh : m.blockId ∉ n.mostRecentBlocksAccepted
    · rw [round_handed hm hfresh]
      refine ⟨pop m a, popped, ?_, hids, hsub, fun _ => (pop_isActive m a).trans hactive⟩
      unfold handOver
      rw [processBacklog_handed hm hfresh]
      exact hpopped
    · have hold := Decidable.not_not.1 hfresh
      obtain ⟨hturn, hnode⟩ := round_accepted (σ := σ) hm hold
      have hsame := fetchNextBatches_sameLists (σ := σ) (peersNeedingNextBatch n.toNode m)
        n.processBacklogOfSyncBlocks
      have hids' : ((round σ n).1.peers[i]?).map (·.idsOfItemsToGet)
          = some (pop m a).idsOfItemsToGet := by
        rw [← List.getElem?_map, hnode, hsame.lists, processBacklog_accepted hm hold,
          List.getElem?_map, List.getElem?_map, hpopped]
        simp only [Option.map_some]
        split <;> rfl
      obtain ⟨a', ha', hlist⟩ := Option.map_eq_some_iff.1 hids'
      refine ⟨a', popped, ha', by rw [hlist]; exact hids, ?_, ?_⟩
      · rw [hturn]
        exact hsub
      · intro hhanded
        rw [hturn] at hhanded
        cases hhanded

/-! ### All rounds -/

theorem rounds_full (h : tooMany σ (round σ n).1 = true) :
    (rounds σ n).2 = [(round σ n).2] ∧ (rounds σ n).1.toNode = (round σ n).1.toNode ∧
      (rounds σ n).1.handleMessageCallsInProgress = (round σ n).1.handleMessageCallsInProgress := by
  rw [rounds]
  dsimp only
  rw [if_pos h]
  exact ⟨rfl, rfl, rfl⟩

theorem rounds_next (h : tooMany σ (round σ n).1 = false)
    (hturn : (round σ n).2.handedOver.isSome) :
    rounds σ n = ((rounds σ (round σ n).1).1, (round σ n).2 :: (rounds σ (round σ n).1).2) := by
  rw [rounds]
  dsimp only
  rw [h, if_neg Bool.false_ne_true, dif_pos hturn]

theorem rounds_last (h : tooMany σ (round σ n).1 = false)
    (hturn : ¬(round σ n).2.handedOver.isSome) :
    rounds σ n = ((round σ n).1, [(round σ n).2]) := by
  rw [rounds]
  dsimp only
  rw [h, if_neg Bool.false_ne_true, dif_neg hturn]

theorem pending_congr {n n' : SyncNode β} (h : n.toNode = n'.toNode) : pending n = pending n' := by
  unfold pending
  rw [h]

/-- The blocks handed over and those left are those there were. -/
theorem rounds_entries (n : SyncNode β) :
    (pending n).Perm ((rounds σ n).2.filterMap Turn.handedOver ++ pending (rounds σ n).1) ∧
      (rounds σ n).1.newReceivedSyncItems = [] := by
  induction hk : (pending n).length using Nat.strong_induction_on generalizing n with
  | _ k ih =>
  obtain ⟨hround, hnew⟩ := round_entries (σ := σ) n
  have hone : [(round σ n).2].filterMap Turn.handedOver = (round σ n).2.handedOver.toList := by
    cases hturn : (round σ n).2.handedOver <;> simp [hturn]
  cases hfull : tooMany σ (round σ n).1 with
  | true =>
    obtain ⟨hturns, hnode, -⟩ := rounds_full hfull
    rw [hturns, hone, pending_congr hnode, hnode]
    exact ⟨hround, hnew⟩
  | false =>
    by_cases hturn : (round σ n).2.handedOver.isSome
    · obtain ⟨hrest, hnew'⟩ := ih _ (hk ▸ round_shorter hturn) (round σ n).1 rfl
      have hcons : ((round σ n).2 :: (rounds σ (round σ n).1).2).filterMap Turn.handedOver
          = (round σ n).2.handedOver.toList ++
            (rounds σ (round σ n).1).2.filterMap Turn.handedOver := by
        cases hb : (round σ n).2.handedOver <;> simp [hb]
      rw [rounds_next hfull hturn]
      dsimp only
      rw [hcons, List.append_assoc]
      exact ⟨hround.trans (hrest.append_left _), hnew'⟩
    · rw [rounds_last hfull hturn]
      dsimp only
      rw [hone]
      exact ⟨hround, hnew⟩

/-- Each active peer's list loses its first blocks, in the order in which they come up. -/
theorem rounds_order (n : SyncNode β) {i : Nat} {a : Peer} (ha : n.peers[i]? = some a)
    (hactive : a.isActive = true) :
    ∃ (a' : Peer) (popped : List Hash), (rounds σ n).1.peers[i]? = some a' ∧
      a.idsOfItemsToGet = popped ++ a'.idsOfItemsToGet ∧
      popped.Sublist (((rounds σ n).2.filterMap Turn.block).map (·.blockId)) := by
  induction hk : (pending n).length using Nat.strong_induction_on generalizing n a with
  | _ k ih =>
  obtain ⟨a₁, popped, ha₁, hids, hsub, hstill⟩ := round_order (σ := σ) n ha hactive
  have hone : [(round σ n).2].filterMap Turn.block = (round σ n).2.block.toList := by
    cases hb : (round σ n).2.block <;> simp [hb]
  cases hfull : tooMany σ (round σ n).1 with
  | true =>
    obtain ⟨hturns, hnode, -⟩ := rounds_full hfull
    rw [hturns, hone, hnode]
    exact ⟨a₁, popped, ha₁, hids, hsub⟩
  | false =>
    by_cases hturn : (round σ n).2.handedOver.isSome
    · obtain ⟨a', more, ha', hids', hsub'⟩ := ih _ (hk ▸ round_shorter hturn) (round σ n).1 ha₁
        (hstill hturn) rfl
      have hcons : ((round σ n).2 :: (rounds σ (round σ n).1).2).filterMap Turn.block
          = (round σ n).2.block.toList ++ (rounds σ (round σ n).1).2.filterMap Turn.block := by
        cases hb : (round σ n).2.block <;> simp [hb]
      rw [rounds_next hfull hturn]
      dsimp only
      rw [hcons, List.map_append]
      refine ⟨a', popped ++ more, ha', ?_, hsub.append hsub'⟩
      rw [hids, hids', List.append_assoc]
    · rw [rounds_last hfull hturn]
      dsimp only
      rw [hone]
      exact ⟨a₁, popped, ha₁, hids, hsub⟩

/- No turn is that of a block accepted before. -/
def Clean (turns : List (Turn β)) : Prop := ∀ t ∈ turns, t.block = t.handedOver

theorem candidate_congr {n n' : SyncNode β} (h : n.toNode = n'.toNode) :
    candidate n = candidate n' := by
  unfold candidate
  rw [pending_congr h, h]

theorem tooMany_congr {n n' : SyncNode β}
    (h : n.handleMessageCallsInProgress = n'.handleMessageCallsInProgress) :
    tooMany σ n = tooMany σ n' := by
  unfold tooMany
  rw [h]

theorem candidate_nothing (h : candidate n = none) : candidate (round σ n).1 = none := by
  rw [round_nothing h]
  have hpending : pending { n with toNode := n.processBacklogOfSyncBlocks } = pending n := by
    unfold pending
    rw [processBacklog_none h]
    rfl
  unfold candidate
  rw [hpending]
  dsimp only
  rw [processBacklog_none h]
  exact h

theorem clean_singleton {t : Turn β} (h : t.block = t.handedOver) : Clean [t] := by
  intro t' ht'
  rw [List.mem_singleton.1 ht']
  exact h

theorem rounds_undisturbed (h : Undisturbed σ n) :
    Clean (rounds σ n).2 ∧
      (tooMany σ (rounds σ n).1 = false → candidate (rounds σ n).1 = none) := by
  induction h with
  | @done n h =>
    have hturn : (round σ n).2 = .nothing := by rw [round_nothing h]
    have hclean : Clean [(round σ n).2] := clean_singleton (by rw [hturn]; rfl)
    have hnone := candidate_nothing (σ := σ) h
    cases hfull : tooMany σ (round σ n).1 with
    | true =>
      obtain ⟨hturns, hnode, -⟩ := rounds_full hfull
      rw [hturns, candidate_congr hnode]
      exact ⟨hclean, fun _ => hnone⟩
    | false =>
      rw [rounds_last hfull (by rw [hturn]; simp [Turn.handedOver])]
      exact ⟨hclean, fun _ => hnone⟩
  | @full n m h hfresh hfull =>
    have hround := round_handed (σ := σ) h hfresh
    have hfull' : tooMany σ (round σ n).1 = true := by rwa [hround]
    obtain ⟨hturns, -, hcalls⟩ := rounds_full hfull'
    rw [hturns, tooMany_congr hcalls, hfull']
    refine ⟨clean_singleton ?_, fun h => by cases h⟩
    rw [hround]
    rfl
  | @next n m h hfresh _ ih =>
    have hround := round_handed (σ := σ) h hfresh
    cases hfull : tooMany σ (round σ n).1 with
    | true =>
      obtain ⟨hturns, -, hcalls⟩ := rounds_full hfull
      rw [hturns, tooMany_congr hcalls, hfull]
      refine ⟨clean_singleton ?_, fun h => by cases h⟩
      rw [hround]
      rfl
    | false =>
      rw [rounds_next hfull (by rw [hround]; rfl), hround]
      refine ⟨?_, ih.2⟩
      intro t ht
      rcases List.mem_cons.1 ht with hhead | hrest
      · rw [hhead]
        rfl
      · exact ih.1 t hrest

theorem rounds_head (n : SyncNode β) : (round σ n).2 ∈ (rounds σ n).2 := by
  rw [rounds]
  dsimp only
  split
  · exact List.mem_singleton_self _
  · split
    · exact List.mem_cons_self
    · exact List.mem_singleton_self _

theorem undisturbed_of_rounds (n : SyncNode β) (h : Clean (rounds σ n).2) : Undisturbed σ n := by
  induction hk : (pending n).length using Nat.strong_induction_on generalizing n with
  | _ k ih =>
  cases hm : candidate n with
  | none => exact .done hm
  | some m =>
    by_cases hfresh : m.blockId ∉ n.mostRecentBlocksAccepted
    · have hround := round_handed (σ := σ) hm hfresh
      cases hfull : tooMany σ (handOver n) with
      | true => exact .full hm hfresh hfull
      | false =>
        have hgo : (round σ n).2.handedOver.isSome := by rw [hround]; rfl
        have hshorter := round_shorter hgo
        have hnot : tooMany σ (round σ n).1 = false := by rwa [hround]
        rw [rounds_next hnot hgo] at h
        rw [hround] at hshorter h
        exact .next hm hfresh (ih _ (hk ▸ hshorter) (handOver n)
          (fun t ht => h t (List.mem_cons_of_mem _ ht)) rfl)
    · have hturn := (round_accepted (σ := σ) hm (Decidable.not_not.1 hfresh)).1
      have hhead := h _ (rounds_head n)
      rw [hturn] at hhead
      cases hhead

/- Blocks none of which was accepted before do not disturb. -/
theorem undisturbed_of_fresh (n : SyncNode β)
    (h : ∀ m ∈ pending n, m.blockId ∉ n.mostRecentBlocksAccepted) : Undisturbed σ n := by
  induction hk : (pending n).length using Nat.strong_induction_on generalizing n with
  | _ k ih =>
  cases hm : candidate n with
  | none => exact .done hm
  | some m =>
    have hfresh := h m (mem_pending hm)
    have hperm := pending_handOver hm hfresh
    have haccepted : (handOver n).mostRecentBlocksAccepted = n.mostRecentBlocksAccepted := by
      unfold handOver
      rw [processBacklog_handed hm hfresh]
    refine .next hm hfresh (ih _ ?_ (handOver n) ?_ rfl)
    · rw [← hk, hperm.length_eq]
      exact Nat.lt_succ_self _
    · intro m' hm'
      rw [haccepted]
      exact h m' (hperm.mem_iff.2 (List.mem_cons_of_mem _ hm'))

end

/-! ### One call -/

/- Where the loop starts. -/
def started (n : SyncNode β) : SyncNode β := { collect n with suspendFetchingSyncBlocks := false }

theorem clean_blocks {turns : List (Turn β)} (h : Clean turns) :
    turns.filterMap Turn.block = turns.filterMap Turn.handedOver :=
  List.filterMap_congr h

theorem handedOver_count (turns : List (Turn β)) :
    (turns.filterMap Turn.handedOver).length ≤ (turns.filterMap Turn.block).length := by
  induction turns with
  | nil => exact Nat.le_refl _
  | cons t turns ih =>
    cases t <;> simp only [List.filterMap_cons, Turn.handedOver, Turn.block, List.length_cons] <;>
      omega

theorem clean_of_count {turns : List (Turn β)}
    (h : (turns.filterMap Turn.block).length = (turns.filterMap Turn.handedOver).length) :
    Clean turns := by
  induction turns with
  | nil => exact fun t ht => by cases ht
  | cons t turns ih =>
    have hle := handedOver_count turns
    cases t with
    | nothing =>
      intro t ht
      rcases List.mem_cons.1 ht with hhead | hrest
      · rw [hhead]
        rfl
      · exact ih (by simpa [List.filterMap_cons, Turn.handedOver, Turn.block] using h) t hrest
    | handed m =>
      intro t ht
      rcases List.mem_cons.1 ht with hhead | hrest
      · rw [hhead]
        rfl
      · exact ih (by simpa [List.filterMap_cons, Turn.handedOver, Turn.block] using h) t hrest
    | alreadyAccepted m =>
      simp only [List.filterMap_cons, Turn.handedOver, Turn.block, List.length_cons] at h
      omega

theorem drained_full (h : tooMany σ (collect n) = true) :
    Drained σ n (processBacklogOfSyncBlocks σ n).1 (processBacklogOfSyncBlocks σ n).2 := by
  have hcall : processBacklogOfSyncBlocks σ n = (collect n, []) := by
    unfold processBacklogOfSyncBlocks
    dsimp only
    rw [if_pos h]
  rw [hcall]
  constructor
  · intro hroom
    exact absurd (of_decide_eq_true h) (Nat.not_le.2 hroom)
  · exact .refl _
  · exact fun _ => List.nodup_nil
  · exact fun i a ha _ => ⟨a, [], ha, rfl, List.nil_sublist _⟩

theorem call_rounds (h : tooMany σ (collect n) = false) :
    (processBacklogOfSyncBlocks σ n).2 = (rounds σ (started n)).2 ∧
      (processBacklogOfSyncBlocks σ n).1.toNode = (rounds σ (started n)).1.toNode ∧
      (processBacklogOfSyncBlocks σ n).1.handleMessageCallsInProgress
        = (rounds σ (started n)).1.handleMessageCallsInProgress := by
  unfold processBacklogOfSyncBlocks
  dsimp only
  rw [h, if_neg Bool.false_ne_true]
  exact ⟨rfl, rfl, rfl⟩

/- A peer that has the blocks 1 and 2 to get, both received; the first came by the normal path too
and was accepted. -/
def acceptedInFront : SyncNode Nat where
  peers := [{ connection := .active, idsOfItemsToGet := [1, 2] }]
  receivedSyncItems := [⟨1, 1⟩, ⟨2, 2⟩]
  mostRecentBlocksAccepted := [1]

def roomForTen : Setting where
  maximumNumberOfBlocksToHandleAtOneTime := 10
  maximumNumberOfSyncBlocksToPrefetch := 100
  synopsis _ := some []

end Backlog

end WeNode.Net
