import WeNode.Lib.Events
import WeNode.Net.SyncOffers
import Mathlib.Data.List.Chain

/-!
# The ids listed for a peer

What the merge of a list of ids leaves of the peer's list: a run of numbers, which shares nothing with
the blocks in processing and misses nothing that is new to the node.
-/

namespace WeNode.Net

/-- The numbers of the blocks follow each other. -/
def Consecutive {β : Type} (cfg : Config β) (l : List Hash) : Prop :=
  l.IsChain fun x y => cfg.blockNumber y = cfg.blockNumber x + 1

/- The same for numbers of 32 bits, which is what the handler checks. -/
def ConsecutiveWords {β : Type} (cfg : Config β) (l : List Hash) : Prop :=
  l.IsChain fun x y => cfg.blockNumber y = (cfg.blockNumber x + 1) % 2 ^ 32

/-- Some peer's block with this id has been handed to the delegate. -/
def Node.isProcessing {β : Type} (n : Node β) (x : Hash) : Prop :=
  ∃ b ∈ n.peers, x ∈ b.idsOfItemsBeingProcessed

section Numbers

variable {β : Type} {cfg : Config β} {l : List Hash}

theorem Consecutive.getElem {x : Hash} (h : Consecutive cfg (x :: l)) {i : Nat}
    (hi : i < (x :: l).length) : cfg.blockNumber (x :: l)[i] = cfg.blockNumber x + i := by
  induction i with
  | zero => rfl
  | succ i ih =>
    have hnext := List.isChain_iff_getElem.1 h i hi
    rw [hnext, ih (by omega)]
    omega

theorem Consecutive.nodup (h : Consecutive cfg l) : l.Nodup := by
  cases l with
  | nil => exact List.nodup_nil
  | cons x l =>
    refine List.nodup_iff_injective_getElem.2 fun i j hij => ?_
    have hi := h.getElem i.2
    have hj := h.getElem j.2
    have hnumber : cfg.blockNumber (x :: l)[i.1] = cfg.blockNumber (x :: l)[j.1] :=
      congrArg cfg.blockNumber hij
    omega

theorem ConsecutiveWords.getElem {x : Hash} (h : ConsecutiveWords cfg (x :: l))
    (hword : ∀ x, cfg.blockNumber x < 2 ^ 32) {i : Nat} (hi : i < (x :: l).length) :
    cfg.blockNumber (x :: l)[i] = (cfg.blockNumber x + i) % 2 ^ 32 := by
  induction i with
  | zero => exact (Nat.mod_eq_of_lt (hword _)).symm
  | succ i ih =>
    have hnext := List.isChain_iff_getElem.1 h i hi
    rw [hnext, ih (by omega)]
    omega

/-- The numbers follow each other unless they begin again from zero. -/
theorem ConsecutiveWords.consecutive_iff (h : ConsecutiveWords cfg l)
    (hword : ∀ x, cfg.blockNumber x < 2 ^ 32) :
    Consecutive cfg l ↔ ∀ x ∈ l.head?, cfg.blockNumber x + l.length ≤ 2 ^ 32 := by
  cases l with
  | nil => exact iff_of_true .nil nofun
  | cons x l =>
    have hhead : (∀ y ∈ (x :: l).head?, cfg.blockNumber y + (x :: l).length ≤ 2 ^ 32) ↔
        cfg.blockNumber x + l.length < 2 ^ 32 := by
      simp [Nat.lt_iff_add_one_le, Nat.add_assoc]
    rw [hhead]
    constructor
    · intro hcons
      have hend : l.length < (x :: l).length := by simp
      have hlast := hcons.getElem hend
      have hsmall := hword (x :: l)[l.length]
      rw [hlast] at hsmall
      exact hsmall
    · intro hfits
      refine List.isChain_iff_getElem.2 fun i hi => ?_
      have hi' : i + 1 < l.length + 1 := hi
      have hthis := h.getElem hword (i := i) (by omega)
      have hnext := h.getElem hword hi
      rw [hthis, hnext]
      omega

/- What the handler checks of a list. -/
theorem consecutiveWords_of_valid {synopsis : List Hash}
    (h : Node.validIds cfg synopsis l) : ConsecutiveWords cfg l := by
  cases l with
  | nil => exact .nil
  | cons x rest =>
    have hnumbers : rest.map cfg.blockNumber =
        (List.range' 1 rest.length).map (fun i => (cfg.blockNumber x + i) % 2 ^ 32) :=
      beq_iff_eq.1 (Bool.and_eq_true_iff.1 h).1
    have hrest : ∀ i (hi : i < rest.length),
        cfg.blockNumber rest[i] = (cfg.blockNumber x + (1 + i)) % 2 ^ 32 := fun i hi => by
      have hget := congrArg (·[i]?) hnumbers
      simpa [hi] using hget
    refine List.isChain_iff_getElem.2 fun i hi => ?_
    have hi' : i < rest.length := Nat.lt_of_succ_lt_succ hi
    show cfg.blockNumber rest[i] = _
    rw [hrest i hi']
    cases i with
    | zero => rfl
    | succ i =>
      show _ = (cfg.blockNumber rest[i] + 1) % 2 ^ 32
      rw [hrest i (by omega)]
      omega

end Numbers

namespace SyncPeer

/-- The part of the new ids that the handler appends. -/
def appended (d : Delegate) (m : IdsMessage) (a : SyncPeer) (first : Bool) : List Hash :=
  match m.itemHashesAvailable with
  | [] => []
  | x :: rest =>
    if a.idsOfItemsToGet = [] then
      if first then x :: rest else (x :: rest).dropWhile (d.hasItem m.itemType)
    else if x ∈ a.idsOfItemsToGet then x :: rest
    else rest

/- The part of the old ids that it keeps. -/
def kept (m : IdsMessage) (a : SyncPeer) : List Hash :=
  match m.itemHashesAvailable with
  | [] => a.idsOfItemsToGet
  | x :: _ => (popBack x a.idsOfItemsToGet).dropLast

variable {β : Type} {cfg : Config β} {d : Delegate} {m : IdsMessage} {a : SyncPeer} {first : Bool}

theorem popSeen_ids (t : ItemType) (l : List Hash) :
    (popSeen d t a l).2 = l.dropWhile (d.hasItem t) := by
  rw [(popSeen_toPeer t l).1, Node.popSeen, List.span_eq_takeWhile_dropWhile]

theorem merged_ids :
    (merged d m a first).idsOfItemsToGet = kept m a ++ appended d m a first := by
  show (mergeIds d m _ first).idsOfItemsToGet = _
  unfold mergeIds kept appended
  cases m.itemHashesAvailable with
  | nil => exact (List.append_nil _).symm
  | cons x rest =>
    dsimp only
    by_cases hempty : a.idsOfItemsToGet = []
    · have hnone : popBack x a.idsOfItemsToGet = [] := popBack_eq_nil.2 (hempty ▸ List.not_mem_nil)
      simp only [hempty, if_true]
      rw [← hempty, hnone]
      cases first with
      | true => rfl
      | false => exact popSeen_ids m.itemType (x :: rest)
    · simp only [hempty, if_false]
      by_cases hx : x ∈ a.idsOfItemsToGet
      · rw [if_pos hx]
        cases hkept : popBack x a.idsOfItemsToGet with
        | nil => exact absurd hx (popBack_eq_nil.1 hkept)
        | cons y kept => rfl
      · rw [if_neg hx, popBack_eq_nil.2 hx]
        rfl

theorem merged_processed :
    (merged d m a first).idsOfItemsBeingProcessed = a.idsOfItemsBeingProcessed := by
  show (mergeIds d m _ first).toPeer.idsOfItemsBeingProcessed = _
  rw [mergeIds_toPeer]
  unfold Node.appendIds
  split
  · rfl
  · split
    · split <;> rfl
    · split <;> rfl

theorem kept_subset : kept m a ⊆ a.idsOfItemsToGet := by
  unfold kept
  split
  · exact List.Subset.refl _
  · exact fun y hy => ( List.rdropWhile_prefix _ _).subset (List.dropLast_subset _ hy)

/- An id that is in the old list is the last of what is left of it. -/
theorem popBack_concat {x : Hash} {l : List Hash} (hx : x ∈ l) :
    popBack x l = (popBack x l).dropLast ++ [x] := by
  have hne : popBack x l ≠ [] := fun h => popBack_eq_nil.1 h hx
  have hlast : (popBack x l).getLast hne = x := by
    have hnot : ¬ ((popBack x l).getLast hne != x) = true := List.rdropWhile_last_not (· != x) l hne
    simpa using hnot
  calc popBack x l = (popBack x l).dropLast ++ [(popBack x l).getLast hne] :=
        (List.dropLast_append_getLast hne).symm
    _ = (popBack x l).dropLast ++ [x] := by rw [hlast]

/-- The merged list is a run of numbers exactly if the appended part is one. -/
theorem merged_consecutive (hold : Consecutive cfg a.idsOfItemsToGet) :
    Consecutive cfg (merged d m a first).idsOfItemsToGet ↔
      Consecutive cfg (appended d m a first) := by
  rw [merged_ids]
  unfold kept appended
  cases m.itemHashesAvailable with
  | nil => exact iff_of_true (by rwa [List.append_nil]) .nil
  | cons x rest =>
    by_cases hx : x ∈ a.idsOfItemsToGet
    · have hne : a.idsOfItemsToGet ≠ [] := List.ne_nil_of_mem hx
      simp only [hne, hx, if_false, if_true]
      refine List.isChain_split.trans ⟨And.right, fun h => ⟨?_, h⟩⟩
      rw [← popBack_concat hx]
      exact hold.prefix ( List.rdropWhile_prefix _ _)
    · simp only [popBack_eq_nil.2 hx, List.dropLast_nil, List.nil_append]

theorem appended_suffix : appended d m a first <:+ m.itemHashesAvailable := by
  unfold appended
  cases m.itemHashesAvailable with
  | nil => exact List.nil_suffix
  | cons x rest =>
    dsimp only
    split
    · split
      · exact List.suffix_rfl
      · exact List.dropWhile_suffix _
    · split
      · exact List.suffix_rfl
      · exact List.suffix_cons _ _

/-- Only ids that the delegate has, and the first id after a fork, are left out. -/
theorem mem_merged {x : Hash} (hx : x ∈ m.itemHashesAvailable) (hhas : d.hasItem m.itemType x = false)
    (hfirst : a.idsOfItemsToGet ≠ [] → some x = m.itemHashesAvailable.head? →
      x ∈ a.idsOfItemsToGet ∨ x ∈ m.itemHashesAvailable.tail) :
    x ∈ (merged d m a first).idsOfItemsToGet := by
  rw [merged_ids]
  refine List.mem_append_right _ ?_
  unfold appended
  cases hl : m.itemHashesAvailable with
  | nil =>
    rw [hl] at hx
    cases hx
  | cons y rest =>
    rw [hl] at hx hfirst
    dsimp only
    split
    · split
      · exact hx
      · rw [← List.takeWhile_append_dropWhile (p := d.hasItem m.itemType) (l := y :: rest)] at hx
        refine (List.mem_append.1 hx).resolve_left fun hseen => ?_
        simp [List.mem_takeWhile_imp hseen] at hhas
    · next hne =>
      split
      · exact hx
      · next hy =>
        rcases List.mem_cons.1 hx with rfl | hx
        · exact (hfirst hne rfl).resolve_left hy
        · exact hx

/- The first id is in the merged list because it was in the old one, or appears again. -/
theorem head_mem_merged {x : Hash} (hne : a.idsOfItemsToGet ≠ [])
    (hx : x ∈ m.itemHashesAvailable.head?) (hin : x ∈ (merged d m a first).idsOfItemsToGet) :
    x ∈ a.idsOfItemsToGet ∨ x ∈ m.itemHashesAvailable.tail := by
  by_cases hold : x ∈ a.idsOfItemsToGet
  · exact .inl hold
  · rw [merged_ids] at hin
    rcases List.mem_append.1 hin with hkept | happended
    · exact .inl (kept_subset hkept)
    · unfold appended at happended
      cases hl : m.itemHashesAvailable with
      | nil =>
        rw [hl] at hx
        cases hx
      | cons y rest =>
        rw [hl] at hx happended
        cases hx
        simp only [hne, hold, if_false] at happended
        exact .inr happended

/-- What the peer's list should be after a message. -/
structure MergedWell (cfg : Config β) (d : Delegate) (n : Node β) (m : IdsMessage) (a : SyncPeer) :
    Prop where
  consecutive : Consecutive cfg a.idsOfItemsToGet
  nodup : a.idsOfItemsToGet.Nodup
  fresh : ∀ x ∈ a.idsOfItemsToGet, x ∉ a.idsOfItemsBeingProcessed
  complete : ∀ x ∈ m.itemHashesAvailable, d.hasItem m.itemType x = false → ¬ n.isProcessing x →
    x ∈ a.idsOfItemsToGet

/-- The messages after which it is so: nothing that is appended is in processing or is numbered past
32 bits, and a first id that the list has lost, or of a list nobody asked for, is not new. -/
def MergesWell (cfg : Config β) (d : Delegate) (n : Node β) (m : IdsMessage) (a : SyncPeer)
    (first : Bool) : Prop :=
  if a.itemIdsRequestedFromPeer = none then
    ∀ x ∈ m.itemHashesAvailable, d.hasItem m.itemType x ∨ n.isProcessing x ∨ x ∈ a.idsOfItemsToGet
  else saysUpToDate d m a ∨
    (∀ x ∈ appended d m a first, x ∉ a.idsOfItemsBeingProcessed) ∧
    (∀ x ∈ (appended d m a first).head?,
      cfg.blockNumber x + (appended d m a first).length ≤ 2 ^ 32) ∧
    (a.idsOfItemsToGet ≠ [] → ∀ x ∈ m.itemHashesAvailable.head?, d.hasItem m.itemType x ∨
      n.isProcessing x ∨ x ∈ a.idsOfItemsToGet ∨ x ∈ m.itemHashesAvailable.tail)

theorem mergedWell_upToDate {n : Node β} (hold : Consecutive cfg a.idsOfItemsToGet)
    (hfresh : ∀ x ∈ a.idsOfItemsToGet, x ∉ a.idsOfItemsBeingProcessed) (hup : saysUpToDate d m a) :
    MergedWell cfg d n m { a with itemIdsRequestedFromPeer := none, weNeedSyncItemsFromPeer := false } := by
  obtain ⟨-, hknown, -, -⟩ := of_decide_eq_true hup
  refine ⟨hold, hold.nodup, hfresh, fun x hx hhas => ?_⟩
  rcases hknown with hnone | ⟨-, hall⟩
  · rw [hnone] at hx
    cases hx
  · rw [List.all_eq_true.1 hall x hx] at hhas
    cases hhas

theorem mergedWell_merged {n : Node β} {synopsis : List Hash}
    (hword : ∀ x, cfg.blockNumber x < 2 ^ 32)
    (hvalid : Node.validIds cfg synopsis m.itemHashesAvailable)
    (hold : Consecutive cfg a.idsOfItemsToGet)
    (hfresh : ∀ x ∈ a.idsOfItemsToGet, x ∉ a.idsOfItemsBeingProcessed) :
    MergedWell cfg d n m (merged d m a first) ↔
      (∀ x ∈ appended d m a first, x ∉ a.idsOfItemsBeingProcessed) ∧
      (∀ x ∈ (appended d m a first).head?,
        cfg.blockNumber x + (appended d m a first).length ≤ 2 ^ 32) ∧
      (a.idsOfItemsToGet ≠ [] → ∀ x ∈ m.itemHashesAvailable.head?, d.hasItem m.itemType x ∨
        n.isProcessing x ∨ x ∈ a.idsOfItemsToGet ∨ x ∈ m.itemHashesAvailable.tail) := by
  have hsuffix : appended d m a first <:+ m.itemHashesAvailable := appended_suffix
  have hwords := (consecutiveWords_of_valid hvalid).suffix hsuffix
  have hnumbers : Consecutive cfg (merged d m a first).idsOfItemsToGet ↔
      ∀ x ∈ (appended d m a first).head?,
        cfg.blockNumber x + (appended d m a first).length ≤ 2 ^ 32 :=
    (merged_consecutive hold).trans (ConsecutiveWords.consecutive_iff hwords hword)
  constructor
  · intro h
    refine ⟨fun x hx => ?_, hnumbers.1 h.consecutive, fun hne x hx => ?_⟩
    · rw [← @merged_processed d m a first]
      refine h.fresh x ?_
      rw [merged_ids]
      exact List.mem_append_right _ hx
    · by_cases hhas : d.hasItem m.itemType x
      · exact .inl hhas
      · by_cases hnew : n.isProcessing x
        · exact .inr (.inl hnew)
        · have hin := h.complete x (List.mem_of_head? hx) (by simpa using hhas) hnew
          exact .inr (.inr (head_mem_merged hne hx hin))
  · intro ⟨hprocessed, hfits, hfirst⟩
    have hcons := hnumbers.2 hfits
    refine ⟨hcons, hcons.nodup, fun x hx => ?_, fun x hx hhas hnew => ?_⟩
    · rw [merged_processed]
      rw [merged_ids] at hx
      rcases List.mem_append.1 hx with hx | hx
      · exact hfresh x (kept_subset hx)
      · exact hprocessed x hx
    · refine mem_merged hx hhas fun hne hhead => ?_
      rcases hfirst hne x hhead.symm with h | h | h
      · rw [h] at hhas
        cases hhas
      · exact absurd h hnew
      · exact h

/-- A list of ids that is not answered with a disconnect leaves the peer's list as it should be exactly
if the message is one of those described. -/
theorem lists_merged_iff {n : Node β} (hword : ∀ x, cfg.blockNumber x < 2 ^ 32)
    (hold : Consecutive cfg a.idsOfItemsToGet)
    (hfresh : ∀ x ∈ a.idsOfItemsToGet, x ∉ a.idsOfItemsBeingProcessed)
    (hkept : (onBlockchainItemIdsInventoryMessage cfg d m a first).2 = none) :
    MergedWell cfg d n m (onBlockchainItemIdsInventoryMessage cfg d m a first).1 ↔
      MergesWell cfg d n m a first := by
  unfold MergesWell
  cases hreq : a.itemIdsRequestedFromPeer with
  | none =>
    rw [message_ignored hreq, if_pos rfl]
    constructor
    · intro h x hx
      by_cases hhas : d.hasItem m.itemType x
      · exact .inl hhas
      · by_cases hnew : n.isProcessing x
        · exact .inr (.inl hnew)
        · exact .inr (.inr (h.complete x hx (by simpa using hhas) hnew))
    · intro h
      refine ⟨hold, hold.nodup, hfresh, fun x hx hhas hnew => ?_⟩
      rcases h x hx with hx | hx | hx
      · rw [hx] at hhas
        cases hhas
      · exact absurd hx hnew
      · exact hx
  | some synopsis =>
    rw [if_neg (by simp)]
    have hvalid : Node.validIds cfg synopsis m.itemHashesAvailable := by
      by_contra hnot
      rw [message_invalid hreq (by simpa using hnot)] at hkept
      cases hkept
    cases hup : saysUpToDate d m a with
    | true =>
      rw [message_upToDate hreq hvalid hup]
      exact iff_of_true (mergedWell_upToDate hold hfresh hup) (.inl rfl)
    | false =>
      rw [message_merged hreq hvalid hup]
      simp only [Bool.false_eq_true, false_or]
      exact mergedWell_merged hword hvalid hold hfresh

/-! ### Examples -/

/- Block numbers of 32 bits. -/
def wordConfig : Config Nat := { Config.demo with blockNumber := (· % 2 ^ 32) }

/- A peer that has offered three blocks, one of which has been handed to the delegate. -/
def listedPeer : SyncPeer :=
  { itemIdsRequestedFromPeer := some [5, 8], idsOfItemsToGet := [7, 8], idsOfItemsBeingProcessed := {6} }

/-- Its list is extended. -/
theorem list_extended :
    MergedWell wordConfig demoDelegate { peers := [listedPeer.toPeer] } ⟨0, .block, [8, 9, 10]⟩
      (onBlockchainItemIdsInventoryMessage wordConfig demoDelegate ⟨0, .block, [8, 9, 10]⟩
        listedPeer false).1 := by
  refine (lists_merged_iff (fun x => Nat.mod_lt _ (by decide)) ?_ (by decide) (by decide)).2 ?_
  · exact List.isChain_pair.2 (by decide)
  · refine .inr ⟨by decide, by decide, ?_⟩
    intro hne x hx
    cases hx
    exact .inr (.inr (.inl (by decide)))

/-- After its list has been cleared, a block that the delegate is working on is listed again. -/
theorem list_repeats : ∃ (n : Node Nat) (d : Delegate) (m : IdsMessage) (a : SyncPeer),
    n.peers[0]? = some a.toPeer ∧ a.idsOfItemsToGet = [] ∧ a.itemIdsRequestedFromPeer = some [5] ∧
    (onBlockchainItemIdsInventoryMessage wordConfig d m a
      (n.isFirstItemForOtherPeer 0 m.itemHashesAvailable)).2 = none ∧
    ¬ MergedWell wordConfig d n m (onBlockchainItemIdsInventoryMessage wordConfig d m a
      (n.isFirstItemForOtherPeer 0 m.itemHashesAvailable)).1 := by
  refine ⟨{ peers := [{ itemIdsRequestedFromPeer := some [5], idsOfItemsBeingProcessed := {6} }] },
    demoDelegate, ⟨0, .block, [5, 6]⟩,
    { itemIdsRequestedFromPeer := some [5], idsOfItemsBeingProcessed := {6} }, rfl, rfl, rfl,
    by decide, fun h => ?_⟩
  exact h.fresh 6 (by decide) (by decide)

/-- A run of the node to such a state: sync starts again with a peer while its block is handed to the
delegate, and the peer offers the block again. -/
theorem list_repeats_run : ∃ n : Node Nat,
    Lib.Reaches (fun n e => Node.step .demo n e) (fun _ _ => True) {} n ∧
    ∃ a ∈ n.peers, 1 ∈ a.idsOfItemsToGet ∧ 1 ∈ a.idsOfItemsBeingProcessed := by
  have h : (([.connect, .newPeer 0, .fetchNextBatch 0 [] false,
      .itemIds 0 [1] 0 (fun _ => false) true, .fetchSyncItems [0], .blockMessage 0 ⟨1, 1⟩,
      .processBacklog, .startSynchronizing 0, .fetchNextBatch 0 [] false,
      .itemIds 0 [1] 0 (fun _ => false) true] : List (Node.Event Nat)).foldlM
      (fun n e => if True then Node.step .demo n e else none) {}).map (fun n : Node Nat =>
        decide (∃ a ∈ n.peers, 1 ∈ a.idsOfItemsToGet ∧ 1 ∈ a.idsOfItemsBeingProcessed)) =
      some true := by
    decide
  obtain ⟨n, hrun, hn⟩ := Option.map_eq_some_iff.1 h
  exact ⟨n, .of_run hrun, of_decide_eq_true hn⟩

end SyncPeer

end WeNode.Net
