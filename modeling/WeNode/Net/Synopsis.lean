import WeNode.Fork.CommonAncestor
import WeNode.Net.IdLists
import Mathlib.Tactic

/-!
# Synopses of a chain

A synopsis names fewer and fewer of the blocks of a chain towards its beginning.  The application gives
it for the blocks it knows (app/application.cpp, `get_blockchain_synopsis`) and the node goes on with
the ids that the peer has listed (net/node.cpp, `create_blockchain_synopsis_for_peer`); both loops step
through the numbers of blocks, which have 32 bits.
-/

namespace WeNode.Net

/-! ### The numbers of a synopsis -/

/-- `low_block_num += (true_high_block_num - low_block_num + 2) / 2` -/
def nextBlockNum (top low : Nat) : Nat := (low + (top + 2 ^ 32 - low + 2) % 2 ^ 32 / 2) % 2 ^ 32

/-- The loop of a synopsis, which ends above `high`; `pick` says what it adds for a number. -/
def synopsisLoop {ι : Type} (pick : Nat → Option (List ι)) (high top : Nat) :
    Nat → Nat → Option (List ι)
  | 0, _ => none
  | rounds + 1, low => (pick low).bind fun xs =>
    if nextBlockNum top low ≤ high then
      (synopsisLoop pick high top rounds (nextBlockNum top low)).map (xs ++ ·)
    else some xs

/-- The numbers it steps through up to the top. -/
def halvingNumbers (top : Nat) : Nat → Nat → List Nat
  | 0, _ => []
  | rounds + 1, low => low ::
    if nextBlockNum top low ≤ top then halvingNumbers top rounds (nextBlockNum top low) else []

section Numbers

variable {ι : Type} {top low high n k rounds : Nat}

theorem nextBlockNum_eq (hlow : low ≤ top) (htop : top < 2 ^ 31) :
    nextBlockNum top low = low + (top - low + 2) / 2 := by
  have hdistance : (top + 2 ^ 32 - low + 2) % 2 ^ 32 = top - low + 2 := by omega
  rw [nextBlockNum, hdistance]
  omega

theorem nextBlockNum_gt (hlow : low ≤ top) (htop : top < 2 ^ 31) : low < nextBlockNum top low := by
  rw [nextBlockNum_eq hlow htop]
  omega

/- The distance to the top is halved. -/
theorem nextBlockNum_distance (hlow : low ≤ top) (htop : top < 2 ^ 31) (hk : top - low < 2 ^ (k + 1))
    (hnext : nextBlockNum top low ≤ top) : top - nextBlockNum top low < 2 ^ k := by
  rw [nextBlockNum_eq hlow htop] at *
  omega

theorem nextBlockNum_top (htop : top < 2 ^ 31) : top < nextBlockNum top top :=
  nextBlockNum_gt le_rfl htop

theorem mem_halvingNumbers (htop : top < 2 ^ 31) (hlow : low ≤ top)
    (h : n ∈ halvingNumbers top rounds low) : low ≤ n ∧ n ≤ top := by
  induction rounds generalizing low with
  | zero => cases h
  | succ rounds ih =>
    rcases List.mem_cons.1 h with rfl | h
    · exact ⟨le_rfl, hlow⟩
    · split at h
      · next hnext =>
        obtain ⟨hl, hr⟩ := ih hnext h
        exact ⟨(nextBlockNum_gt hlow htop).le.trans hl, hr⟩
      · cases h

theorem halvingNumbers_sorted (htop : top < 2 ^ 31) (hlow : low ≤ top) :
    (halvingNumbers top rounds low).Pairwise (· < ·) := by
  induction rounds generalizing low with
  | zero => exact .nil
  | succ rounds ih =>
    refine .cons (fun n hn => ?_) ?_
    · split at hn
      · next hnext => exact (nextBlockNum_gt hlow htop).trans_le (mem_halvingNumbers htop hnext hn).1
      · cases hn
    · split
      · next hnext => exact ih hnext
      · exact .nil

theorem halvingNumbers_above (htop : top < 2 ^ 31) (hlow : low ≤ top) (hn : n < low) :
    (halvingNumbers top rounds low).filter (· ≤ n) = [] := by
  refine List.filter_eq_nil_iff.2 fun m hm => ?_
  have hm := (mem_halvingNumbers htop hlow hm).1
  simp only [decide_eq_true_eq]
  omega

theorem halvingNumbers_last (htop : top < 2 ^ 31) (hlow : low ≤ top) (hk : top - low < 2 ^ k) :
    (halvingNumbers top (k + 1) low).getLast? = some top := by
  induction k generalizing low with
  | zero =>
    obtain rfl : low = top := by
      rw [Nat.pow_zero] at hk
      omega
    rw [halvingNumbers, if_neg (nextBlockNum_top htop).not_ge]
    rfl
  | succ k ih =>
    rw [halvingNumbers]
    split
    · next hnext =>
      rw [List.getLast?_cons, ih hnext (nextBlockNum_distance hlow htop hk hnext)]
      rfl
    · next hnext =>
      rw [nextBlockNum_eq hlow htop] at hnext
      obtain rfl : low = top := by omega
      rfl

/-- What the loop adds: the picks for the numbers up to `high`. -/
theorem synopsisLoop_eq {pick : Nat → Option (List ι)} {f : Nat → List ι} (htop : top < 2 ^ 31)
    (hhigh : high ≤ top) (hlow : low ≤ high) (hk : top - low < 2 ^ k)
    (hpick : ∀ n, low ≤ n → n ≤ high → pick n = some (f n)) :
    synopsisLoop pick high top (k + 1) low =
      some (((halvingNumbers top (k + 1) low).filter (· ≤ high)).flatMap f) := by
  induction k generalizing low with
  | zero =>
    obtain rfl : low = top := by
      rw [Nat.pow_zero] at hk
      omega
    have hstop : ¬ nextBlockNum low low ≤ high := by
      have hnext := nextBlockNum_top htop
      omega
    rw [synopsisLoop, hpick low le_rfl hlow, Option.bind_some, if_neg hstop, halvingNumbers,
      if_neg (nextBlockNum_top htop).not_ge]
    simp [hlow]
  | succ k ih =>
    have hbelow := hlow.trans hhigh
    rw [synopsisLoop, hpick low le_rfl hlow, Option.bind_some, halvingNumbers,
      List.filter_cons_of_pos (by simpa using hlow), List.flatMap_cons]
    split
    · next hnext =>
      have hgt := nextBlockNum_gt hbelow htop
      rw [ih hnext (nextBlockNum_distance hbelow htop hk (hnext.trans hhigh))
        fun n hn => hpick n (hgt.le.trans hn), if_pos (hnext.trans hhigh)]
      rfl
    · next hnext =>
      have hnone : (if nextBlockNum top low ≤ top then
          halvingNumbers top (k + 1) (nextBlockNum top low) else []).filter (· ≤ high) = [] := by
        split
        · next hle => exact halvingNumbers_above htop hle (by omega)
        · rfl
      rw [hnone, List.flatMap_nil, List.append_nil]

end Numbers

/-! ### The chain that a synopsis is about -/

/-- What the application asks the chain database; a request without an answer throws. -/
structure ChainView (ι : Type) where
  headBlockNum : Nat
  lastNonUndoableBlockNum : Nat
  getBlockIdForNum : Nat → Option ι
  getBlockIdsOnFork : ι → Option (List ι)

/- The answer for a block of a fork: its ancestors down to one of the main chain, by number. -/
structure ForkIds {ι : Type} (num : ι → Nat) (v : ChainView ι) (x : ι) (ids : List ι) : Prop where
  head : ids.head? = some x
  descends : ids.IsChain fun y z => num y = num z + 1
  long : 2 ≤ ids.length
  ancestor : ∀ y ∈ ids.getLast?, num y ≤ v.headBlockNum

/-- The views of chain databases: the main chain is numbered up to its head, and what is below the
last number that can be undone is part of it. -/
structure ChainView.Valid {ι : Type} (num : ι → Nat) (v : ChainView ι) : Prop where
  main : ∀ n, 0 < n → n ≤ v.headBlockNum → ∃ x, v.getBlockIdForNum n = some x ∧ num x = n
  none : ∀ n, n = 0 ∨ v.headBlockNum < n → v.getBlockIdForNum n = none
  undoable : v.lastNonUndoableBlockNum ≤ v.headBlockNum
  fork : ∀ x ids, v.getBlockIdsOnFork x = some ids → ForkIds num v x ids

/-- The numbers between which a synopsis is made, and the ids beyond the main chain. -/
structure SynopsisRange (ι : Type) where
  lowBlockNum : Nat
  nonForkHighBlockNum : Nat
  highBlockNum : Nat
  forkHistory : List ι

namespace ChainView

variable {ι : Type} [DecidableEq ι] (num : ι → Nat) (zero : ι) (v : ChainView ι)

/-- `is_included_block`, where it has an answer -/
def isIncludedBlock (x : ι) : Option Bool := (v.getBlockIdForNum (num x)).map (· = x)

/- The number of the common ancestor; a fork may go back to the beginning. -/
def forkNum (ids : List ι) : Nat :=
  if ids.getLastD zero = zero then 0 else num (ids.getLastD zero)

/- The range up to a reference block, or up to the head without one. -/
def synopsisRange (referencePoint : ι) : Option (SynopsisRange ι) :=
  let low := v.lastNonUndoableBlockNum
  if referencePoint = zero then some ⟨low, v.headBlockNum, v.headBlockNum, []⟩
  else
    (v.isIncludedBlock num referencePoint).bind fun included =>
      if included then
        some ⟨min low (num referencePoint), num referencePoint, num referencePoint, []⟩
      else
        (v.getBlockIdsOnFork referencePoint).bind fun ids =>
          let history := ids.dropLast.reverse
          let nonFork := forkNum num zero ids
          -- `block_older_than_undo_history`
          if nonFork < low then none
          else some ⟨low, nonFork, (nonFork + history.length) % 2 ^ 32, history⟩

/- The id of a number of the range. -/
def idInRange (r : SynopsisRange ι) (n : Nat) : Option ι :=
  if n ≤ r.nonForkHighBlockNum then v.getBlockIdForNum n
  else r.forkHistory[n - r.nonForkHighBlockNum - 1]?

/-- `get_blockchain_synopsis`; its loop may take as many rounds as given. -/
def getBlockchainSynopsis (rounds : Nat) (referencePoint : ι) (after : Nat) : Option (List ι) :=
  (v.synopsisRange num zero referencePoint).bind fun r =>
    -- "we have no blocks"
    if referencePoint = zero ∧ r.highBlockNum = 0 then some []
    else
      synopsisLoop (fun n => (v.idInRange r n).map ([·])) r.highBlockNum
        ((r.highBlockNum + after) % 2 ^ 32) rounds
        (if r.lowBlockNum = 0 then 1 else r.lowBlockNum)

/-- `create_blockchain_synopsis_for_peer`, for the ids listed for the peer -/
def createBlockchainSynopsisForPeer (rounds : Nat) (referencePoint : ι) (ids : List ι) :
    Option (List ι) :=
  (v.getBlockchainSynopsis num zero rounds referencePoint (ids.length % 2 ^ 32)).bind fun synopsis =>
    match ids with
    | [] => some synopsis
    | first :: _ =>
      let top := (num first + ids.length + 2 ^ 32 - 1) % 2 ^ 32
      (synopsisLoop (fun n =>
        if num first ≤ n then (ids[n - num first]?).map ([·]) else some []) top top rounds
        (match synopsis with
          | [] => 1
          | x :: _ => num x)).map (synopsis ++ ·)

/- The number of the reference block, or of the head. -/
def referenceNum (referencePoint : ι) : Nat :=
  if referencePoint = zero then v.headBlockNum else num referencePoint

/-- The chain up to the reference block and the ids listed after it, as a chain of its own. -/
def extended (referencePoint : ι) (ids : List ι) : ChainView ι where
  headBlockNum := v.referenceNum num zero referencePoint + ids.length
  lastNonUndoableBlockNum :=
    min v.lastNonUndoableBlockNum (v.referenceNum num zero referencePoint)
  getBlockIdForNum n :=
    if n ≤ v.referenceNum num zero referencePoint then
      (v.synopsisRange num zero referencePoint).bind fun r => v.idInRange r n
    else ids[n - v.referenceNum num zero referencePoint - 1]?
  getBlockIdsOnFork _ := none

end ChainView

section Forks

variable {ι : Type} {num : ι → Nat} {x : ι} {v : ChainView ι} {ids : List ι}

theorem ForkIds.getElem (h : ForkIds num v x ids) {i : Nat} (hi : i < ids.length) :
    num ids[i] + i = num x := by
  induction i with
  | zero =>
    have hhead := h.head
    rw [List.head?_eq_getElem?, List.getElem?_eq_getElem hi] at hhead
    exact congrArg num (Option.some.inj hhead)
  | succ i ih =>
    have hnext := List.isChain_iff_getElem.1 h.descends i hi
    have hi' := ih (by omega)
    omega

/- The ids above the common ancestor, in the order of their numbers. -/
theorem ForkIds.history (h : ForkIds num v x ids) {m : Nat} (hm : m < ids.length - 1) :
    ∃ y, ids.dropLast.reverse[m]? = some y ∧ num y + (ids.length - 2 - m) = num x := by
  have hpos : ids.length - 2 - m < ids.dropLast.length := by
    rw [List.length_dropLast]
    omega
  have hrev : ids.dropLast.length - 1 - m = ids.length - 2 - m := by
    rw [List.length_dropLast]
    omega
  refine ⟨ids[ids.length - 2 - m], ?_, h.getElem (by omega)⟩
  rw [List.getElem?_reverse (by rw [List.length_dropLast]; exact hm), hrev,
    List.getElem?_eq_getElem hpos, List.getElem_dropLast]

end Forks

section Ranges

variable {ι : Type} [DecidableEq ι] {num : ι → Nat} {zero x : ι} {v : ChainView ι}
  {r : SynopsisRange ι} {ids : List ι}

/-- The ids of the range are those of a chain that ends in the reference block. -/
structure RangeOk (num : ι → Nat) (zero : ι) (v : ChainView ι) (x : ι) (r : SynopsisRange ι) :
    Prop where
  low : r.lowBlockNum = min v.lastNonUndoableBlockNum (v.referenceNum num zero x)
  high : r.highBlockNum = v.referenceNum num zero x
  nonempty : x ≠ zero → 0 < r.highBlockNum
  ids : ∀ n, 0 < n → n ≤ r.highBlockNum → ∃ y, v.idInRange r n = some y ∧ num y = n

theorem ForkIds.range (hzero : num zero = 0) (hv : v.Valid num) (h : ForkIds num v x ids)
    (hx : x ≠ zero) (hword : num x < 2 ^ 32)
    (hlow : ¬ ChainView.forkNum num zero ids < v.lastNonUndoableBlockNum) :
    RangeOk num zero v x ⟨v.lastNonUndoableBlockNum, ChainView.forkNum num zero ids,
      (ChainView.forkNum num zero ids + ids.dropLast.reverse.length) % 2 ^ 32,
      ids.dropLast.reverse⟩ := by
  have hlong := h.long
  obtain ⟨a, ha⟩ : ∃ a, ids.getLast? = some a :=
    ⟨_, List.getLast?_eq_some_getLast (List.ne_nil_of_length_pos (by omega))⟩
  have hlast : ids.getLastD zero = a := by rw [List.getLastD_eq_getLast?, ha]; rfl
  -- the default id counts as number 0 in any case
  have hnum : ChainView.forkNum num zero ids = num a := by
    rw [ChainView.forkNum, hlast]
    split
    · next haz => rw [haz, hzero]
    · rfl
  rw [hnum] at hlow ⊢
  have hancestor : num a + (ids.length - 1) = num x := by
    rw [List.getLast?_eq_getElem?] at ha
    obtain ⟨hpos, rfl⟩ := List.getElem?_eq_some_iff.1 ha
    exact h.getElem hpos
  have hhead : num a ≤ v.headBlockNum := h.ancestor a ha
  have hlength : ids.dropLast.reverse.length = ids.length - 1 := by simp
  have hhigh : (num a + ids.dropLast.reverse.length) % 2 ^ 32 = num x := by
    rw [hlength, hancestor]
    exact Nat.mod_eq_of_lt hword
  have href : v.referenceNum num zero x = num x := if_neg hx
  rw [hhigh]
  refine ⟨?_, href.symm, fun _ => ?_, fun n hn hle => ?_⟩
  · rw [href]
    show v.lastNonUndoableBlockNum = _
    omega
  · show 0 < num x
    omega
  · have hle : n ≤ num x := hle
    unfold ChainView.idInRange
    dsimp only
    split
    · next hmain => exact hv.main n hn (hmain.trans hhead)
    · next hfork =>
      obtain ⟨y, hy, hnum⟩ := h.history (m := n - num a - 1) (by omega)
      exact ⟨y, hy, by omega⟩

theorem synopsisRange_ok (hzero : num zero = 0) (hv : v.Valid num) (hword : num x < 2 ^ 32)
    (h : v.synopsisRange num zero x = some r) : RangeOk num zero v x r := by
  unfold ChainView.synopsisRange at h
  dsimp only at h
  split at h
  · next hx =>
    cases h
    have href : v.referenceNum num zero x = v.headBlockNum := if_pos hx
    refine ⟨?_, href.symm, fun hne => absurd hx hne, fun n hn hle => ?_⟩
    · rw [href]
      exact (min_eq_left hv.undoable).symm
    · have hle : n ≤ v.headBlockNum := hle
      obtain ⟨y, hy, hnum⟩ := hv.main n hn hle
      exact ⟨y, (if_pos hle).trans hy, hnum⟩
  · next hx =>
    have href : v.referenceNum num zero x = num x := if_neg hx
    obtain ⟨included, hincluded, h⟩ := Option.bind_eq_some_iff.1 h
    split at h
    · next hmain =>
      cases h
      obtain ⟨y, hy, hsame⟩ := Option.map_eq_some_iff.1 hincluded
      -- a block of the main chain has one of its numbers
      have hnumber : ¬ (num x = 0 ∨ v.headBlockNum < num x) := fun hout => by
        rw [hv.none _ hout] at hy
        cases hy
      refine ⟨?_, href.symm, fun _ => ?_, fun n hn hle => ?_⟩
      · rw [href]
      · show 0 < num x
        omega
      · have hle : n ≤ num x := hle
        obtain ⟨z, hz, hnum⟩ := hv.main n hn (by omega)
        exact ⟨z, (if_pos hle).trans hz, hnum⟩
    · next hfork =>
      obtain ⟨ids, hids, h⟩ := Option.bind_eq_some_iff.1 h
      split at h
      · cases h
      · next hlow =>
        cases h
        exact (hv.fork x ids hids).range hzero hv hx hword hlow

end Ranges

/-! ### Completed synopses -/

section Lists

variable {ι : Type} {num : ι → Nat} {g : Nat → Option ι} {l : List Nat} {first : ι}
  {rest : List ι} {n : Nat}

/- A number of a sorted list is at most `n` or above it, and those come first. -/
theorem filter_split (hl : l.Pairwise (· < ·)) (n : Nat) :
    l.filter (· ≤ n) ++ l.filter (n + 1 ≤ ·) = l := by
  induction l with
  | nil => rfl
  | cons m l ih =>
    obtain ⟨hm, hl⟩ := List.pairwise_cons.1 hl
    by_cases hle : m ≤ n
    · rw [List.filter_cons_of_pos (by simpa using hle),
        List.filter_cons_of_neg (by simp only [decide_eq_true_eq]; omega), List.cons_append, ih hl]
    · have hnone : l.filter (· ≤ n) = [] := List.filter_eq_nil_iff.2 fun k hk => by
        have hmk := hm k hk
        simp only [decide_eq_true_eq]
        omega
      have hall : l.filter (n + 1 ≤ ·) = l := List.filter_eq_self.2 fun k hk => by
        have hmk := hm k hk
        simp only [decide_eq_true_eq]
        omega
      rw [List.filter_cons_of_neg (by simpa using hle), hnone,
        List.filter_cons_of_pos (by simp only [decide_eq_true_eq]; omega), hall, List.nil_append]

theorem flatMap_if {α : Type} {p : Nat → Prop} [DecidablePred p] {f : Nat → List α} :
    (l.flatMap fun n => if p n then f n else []) = (l.filter p).flatMap f := by
  induction l with
  | nil => rfl
  | cons n l ih =>
    rw [List.flatMap_cons, ih]
    by_cases hn : p n
    · rw [if_pos hn, List.filter_cons_of_pos (by simpa using hn), List.flatMap_cons]
    · rw [if_neg hn, List.filter_cons_of_neg (by simpa using hn), List.nil_append]

/- The ids listed, by their numbers. -/
theorem listed_getElem (hcons : (first :: rest).IsChain fun y z => num z = num y + 1)
    (hn : num first ≤ n) (hle : n < num first + (first :: rest).length) :
    ∃ y, (first :: rest)[n - num first]? = some y ∧ num y = n := by
  have hget : ∀ i (hi : i < (first :: rest).length), num (first :: rest)[i] = num first + i := by
    intro i hi
    induction i with
    | zero => rfl
    | succ i ih =>
      have hnext := List.isChain_iff_getElem.1 hcons i hi
      rw [hnext, ih (by omega)]
      omega
  have hi : n - num first < (first :: rest).length := by omega
  refine ⟨_, List.getElem?_eq_getElem hi, ?_⟩
  rw [hget _ hi]
  omega

theorem map_num_ids (h : ∀ n ∈ l, ∃ y, g n = some y ∧ num y = n) :
    (l.flatMap fun n => (g n).toList).map num = l := by
  induction l with
  | nil => rfl
  | cons n l ih =>
    obtain ⟨y, hy, hnum⟩ := h n (List.mem_cons_self ..)
    rw [List.flatMap_cons, hy, List.map_append, ih fun m hm => h m (List.mem_cons_of_mem _ hm)]
    exact congrArg (· :: l) hnum

end Lists

section Completed

variable {ι : Type} [DecidableEq ι] {num : ι → Nat} {zero x first : ι} {v : ChainView ι}
  {r : SynopsisRange ι} {rest : List ι} {k : Nat}

/-- The number that both loops start with. -/
def startNum (num : ι → Nat) (zero : ι) (v : ChainView ι) (x : ι) : Nat :=
  max 1 (min v.lastNonUndoableBlockNum (v.referenceNum num zero x))

theorem RangeOk.start (h : RangeOk num zero v x r) :
    (if r.lowBlockNum = 0 then 1 else r.lowBlockNum) = startNum num zero v x := by
  rw [startNum, ← h.low]
  split <;> omega

/-- The synopsis of the blocks that the application knows, which is empty for an empty chain. -/
theorem RangeOk.synopsis (h : RangeOk num zero v x r)
    (hr : v.synopsisRange num zero x = some r) {after : Nat}
    (hpos : 0 < after) (hafter : v.referenceNum num zero x + after < 2 ^ 31)
    (hk : 2 ^ 31 ≤ 2 ^ k) :
    v.getBlockchainSynopsis num zero (k + 1) x after = some
      (((halvingNumbers (v.referenceNum num zero x + after) (k + 1) (startNum num zero v x)).filter
        (· ≤ v.referenceNum num zero x)).flatMap fun n => (v.idInRange r n).toList) := by
  rw [ChainView.getBlockchainSynopsis, hr, Option.bind_some, h.start, h.high]
  split
  · next hempty =>
    -- no number is at most 0
    have hnone : (halvingNumbers (v.referenceNum num zero x + after) (k + 1)
        (startNum num zero v x)).filter (· ≤ v.referenceNum num zero x) = [] := by
      have hstart : startNum num zero v x = 1 := by
        rw [startNum, hempty.2]
        omega
      exact halvingNumbers_above hafter (by omega) (by omega)
    rw [hnone]
    rfl
  · next hsome =>
    have hpos : 0 < v.referenceNum num zero x := by
      by_cases hx : x = zero
      · exact Nat.pos_of_ne_zero fun h0 => hsome ⟨hx, h0⟩
      · exact h.high ▸ h.nonempty hx
    have hmod : (v.referenceNum num zero x + after) % 2 ^ 32 = v.referenceNum num zero x + after := by
      omega
    have hstart : startNum num zero v x ≤ v.referenceNum num zero x := by
      unfold startNum
      omega
    rw [hmod]
    refine synopsisLoop_eq hafter (by omega) hstart (by omega) fun n hn hle => ?_
    have hn' : 0 < n := by
      unfold startNum at hn
      omega
    obtain ⟨y, hy, -⟩ := h.ids n hn' (h.high ▸ hle)
    rw [hy]
    rfl

/-- The completed synopsis: what the application gives, and the ids listed for the numbers after. -/
theorem RangeOk.completed (h : RangeOk num zero v x r) (hr : v.synopsisRange num zero x = some r)
    (hcons : (first :: rest).IsChain fun y z => num z = num y + 1)
    (habove : v.referenceNum num zero x < num first)
    (hsmall : num first + (first :: rest).length ≤ 2 ^ 31) (hk : 2 ^ 31 ≤ 2 ^ k) :
    v.createBlockchainSynopsisForPeer num zero (k + 1) x (first :: rest) = some
      (((halvingNumbers (v.referenceNum num zero x + (first :: rest).length) (k + 1)
          (startNum num zero v x)).filter (· ≤ v.referenceNum num zero x)).flatMap
            (fun n => (v.idInRange r n).toList) ++
        ((halvingNumbers (num first + rest.length) (k + 1) (startNum num zero v x)).filter
          (num first ≤ ·)).flatMap fun n => ((first :: rest)[n - num first]?).toList) := by
  have hlength : (first :: rest).length = rest.length + 1 := List.length_cons
  have hmod : (first :: rest).length % 2 ^ 32 = (first :: rest).length := by omega
  have htop : (num first + (first :: rest).length + 2 ^ 32 - 1) % 2 ^ 32 = num first + rest.length := by
    omega
  have hstart : startNum num zero v x ≤ num first + rest.length := by
    unfold startNum
    omega
  rw [ChainView.createBlockchainSynopsisForPeer, hmod, h.synopsis hr (by omega) (by omega) hk,
    Option.bind_some]
  dsimp only
  rw [htop]
  -- the node goes on from the number that the application has started with
  have hlow : (match ((halvingNumbers (v.referenceNum num zero x + (first :: rest).length) (k + 1)
      (startNum num zero v x)).filter (· ≤ v.referenceNum num zero x)).flatMap
        (fun n => (v.idInRange r n).toList) with
      | [] => 1
      | y :: _ => num y) = startNum num zero v x := by
    by_cases hpos : 0 < v.referenceNum num zero x
    · have hle : startNum num zero v x ≤ v.referenceNum num zero x := by
        unfold startNum
        omega
      obtain ⟨y, hy, hnum⟩ := h.ids (startNum num zero v x) (by unfold startNum; omega) (h.high ▸ hle)
      rw [halvingNumbers, List.filter_cons_of_pos (by simpa using hle), List.flatMap_cons, hy]
      exact hnum
    · have hone : startNum num zero v x = 1 := by
        unfold startNum
        omega
      rw [halvingNumbers_above (by omega) (by omega) (by omega), hone]
      rfl
  rw [hlow, synopsisLoop_eq (f := fun n => if num first ≤ n then
    ((first :: rest)[n - num first]?).toList else []) (by omega) le_rfl hstart (by omega) ?_]
  · have hall : (halvingNumbers (num first + rest.length) (k + 1) (startNum num zero v x)).filter
        (· ≤ num first + rest.length) =
          halvingNumbers (num first + rest.length) (k + 1) (startNum num zero v x) :=
      List.filter_eq_self.2 fun n hn =>
        decide_eq_true (mem_halvingNumbers (by omega) hstart hn).2
    rw [Option.map_some, hall, flatMap_if]
  · intro n hn hle
    by_cases hfirst : num first ≤ n
    · obtain ⟨y, hy, -⟩ := listed_getElem hcons hfirst (by omega)
      rw [if_pos hfirst, if_pos hfirst, hy]
      rfl
    · rw [if_neg hfirst, if_neg hfirst]

/- The synopsis of a whole chain. -/
theorem synopsis_of_head {after rounds : Nat} (hhead : 0 < v.headBlockNum) :
    v.getBlockchainSynopsis num zero rounds zero after =
      synopsisLoop (fun n => (if n ≤ v.headBlockNum then v.getBlockIdForNum n else none).map ([·]))
        v.headBlockNum ((v.headBlockNum + after) % 2 ^ 32) rounds
        (if v.lastNonUndoableBlockNum = 0 then 1 else v.lastNonUndoableBlockNum) := by
  rw [ChainView.getBlockchainSynopsis, ChainView.synopsisRange, if_pos rfl, Option.bind_some]
  exact if_neg fun h => hhead.ne' h.2

/-- The halving rule on the chain that the listed ids extend. -/
theorem RangeOk.extended (h : RangeOk num zero v x r) (hr : v.synopsisRange num zero x = some r)
    (hcons : (first :: rest).IsChain fun y z => num z = num y + 1)
    (hnext : num first = v.referenceNum num zero x + 1)
    (hsmall : num first + (first :: rest).length ≤ 2 ^ 31) (hk : 2 ^ 31 ≤ 2 ^ k) :
    (v.extended num zero x (first :: rest)).getBlockchainSynopsis num zero (k + 1) zero 0 = some
      ((halvingNumbers (num first + rest.length) (k + 1) (startNum num zero v x)).flatMap fun n =>
        if n ≤ v.referenceNum num zero x then (v.idInRange r n).toList
        else ((first :: rest)[n - num first]?).toList) := by
  have hlength : (first :: rest).length = rest.length + 1 := List.length_cons
  have hstart : startNum num zero v x ≤ num first + rest.length := by
    unfold startNum
    omega
  have hlow : (if (v.extended num zero x (first :: rest)).lastNonUndoableBlockNum = 0 then 1
      else (v.extended num zero x (first :: rest)).lastNonUndoableBlockNum) =
        startNum num zero v x := by
    show (if min v.lastNonUndoableBlockNum (v.referenceNum num zero x) = 0 then 1
      else min v.lastNonUndoableBlockNum (v.referenceNum num zero x)) = _
    unfold startNum
    split <;> omega
  have hhigh : (v.extended num zero x (first :: rest)).headBlockNum = num first + rest.length := by
    show v.referenceNum num zero x + (first :: rest).length = _
    omega
  have htop : (num first + rest.length + 0) % 2 ^ 32 = num first + rest.length := by
    omega
  rw [synopsis_of_head (by omega), hlow, hhigh, htop, synopsisLoop_eq (f := fun n =>
    if n ≤ v.referenceNum num zero x then (v.idInRange r n).toList
    else ((first :: rest)[n - num first]?).toList) (by omega) le_rfl hstart (by omega) ?_]
  · rw [List.filter_eq_self.2 fun n hn =>
      decide_eq_true (mem_halvingNumbers (by omega) hstart hn).2]
  · intro n hn hle
    have hpos : 0 < n := by
      unfold startNum at hn
      omega
    rw [if_pos hle]
    show (if n ≤ v.referenceNum num zero x then
        (v.synopsisRange num zero x).bind fun r => v.idInRange r n
      else (first :: rest)[n - v.referenceNum num zero x - 1]?).map ([·]) = _
    by_cases href : n ≤ v.referenceNum num zero x
    · obtain ⟨y, hy, -⟩ := h.ids n hpos (h.high ▸ href)
      rw [if_pos href, if_pos href, hr, Option.bind_some, hy]
      rfl
    · obtain ⟨y, hy, -⟩ := listed_getElem hcons (n := n) (by omega) (by omega)
      have hindex : n - v.referenceNum num zero x - 1 = n - num first := by omega
      rw [if_neg href, if_neg href, hindex, hy]
      rfl

/-- A completed synopsis names blocks of rising numbers up to the last one listed; where the list goes
on from the reference block, it is the synopsis of the chain that the list extends. -/
theorem synopsis_completed (hzero : num zero = 0) (hv : v.Valid num)
    (haccepted : ∃ rounds, (v.getBlockchainSynopsis num zero rounds x ((first :: rest).length)).isSome)
    (hcons : (first :: rest).IsChain fun y z => num z = num y + 1)
    (habove : v.referenceNum num zero x < num first)
    (hsmall : ∀ y ∈ first :: rest, num y < 2 ^ 31) {rounds : Nat} (hrounds : 32 ≤ rounds) :
    ∃ l, v.createBlockchainSynopsisForPeer num zero rounds x (first :: rest) = some l ∧
      (l.map num).Pairwise (· < ·) ∧ l.getLast? = (first :: rest).getLast? ∧
      (num first = v.referenceNum num zero x + 1 →
        (v.extended num zero x (first :: rest)).getBlockchainSynopsis num zero rounds zero 0 =
          some l) := by
  obtain ⟨k, rfl⟩ : ∃ k, rounds = k + 1 := ⟨rounds - 1, by omega⟩
  have hk : 2 ^ 31 ≤ 2 ^ k := Nat.pow_le_pow_right (by decide) (by omega)
  have hlength : (first :: rest).length = rest.length + 1 := List.length_cons
  have hlast : num first + (first :: rest).length ≤ 2 ^ 31 := by
    obtain ⟨y, hy, hnum⟩ := listed_getElem hcons (n := num first + rest.length) (by omega) (by omega)
    have hy := hsmall y (List.mem_of_getElem? hy)
    omega
  obtain ⟨r, hr⟩ : ∃ r, v.synopsisRange num zero x = some r := by
    obtain ⟨rounds, hsome⟩ := haccepted
    obtain ⟨l, hl⟩ := Option.isSome_iff_exists.1 hsome
    obtain ⟨r, hr, -⟩ := Option.bind_eq_some_iff.1 hl
    exact ⟨r, hr⟩
  have hword : num x < 2 ^ 32 := by
    by_cases hx : x = zero
    · rw [hx, hzero]
      decide
    · have href : v.referenceNum num zero x = num x := if_neg hx
      omega
  have hok := synopsisRange_ok hzero hv hword hr
  have hstart : startNum num zero v x ≤ num first + rest.length := by
    unfold startNum
    omega
  have hstart' : startNum num zero v x ≤ v.referenceNum num zero x + (first :: rest).length := by
    unfold startNum
    omega
  refine ⟨_, hok.completed hr hcons habove hlast hk, ?_, ?_, fun hnext => ?_⟩
  · rw [List.map_append, map_num_ids (fun n hn => ?_), map_num_ids (fun n hn => ?_)]
    · refine List.pairwise_append.2 ⟨(halvingNumbers_sorted (by omega) hstart').filter _,
        (halvingNumbers_sorted (by omega) hstart).filter _, fun m hm n hn => ?_⟩
      have hm := (List.mem_filter.1 hm).2
      have hn := (List.mem_filter.1 hn).2
      simp only [decide_eq_true_eq] at hm hn
      omega
    · obtain ⟨hn, hfirst⟩ := List.mem_filter.1 hn
      have hn := (mem_halvingNumbers (by omega) hstart hn).2
      exact listed_getElem hcons (of_decide_eq_true hfirst) (by omega)
    · obtain ⟨hn, hle⟩ := List.mem_filter.1 hn
      have hn := (mem_halvingNumbers (by omega) hstart' hn).1
      exact hok.ids n (by unfold startNum at hn; omega) (hok.high ▸ of_decide_eq_true hle)
  · obtain ⟨init, hinit⟩ := List.getLast?_eq_some_iff.1
      (halvingNumbers_last (k := k) (by omega) hstart (by omega))
    have hend : (first :: rest)[num first + rest.length - num first]? = (first :: rest).getLast? := by
      rw [List.getLast?_eq_getElem?, hlength]
      congr 1
      omega
    obtain ⟨y, hy, -⟩ := listed_getElem hcons (n := num first + rest.length) (by omega) (by omega)
    rw [hinit, List.filter_append, List.filter_cons_of_pos (by simp), List.filter_nil,
      List.flatMap_append, List.flatMap_singleton, hy, ← hend, hy]
    simp
  · have hsame : v.referenceNum num zero x + (first :: rest).length = num first + rest.length := by
      omega
    rw [hok.extended hr hcons hnext hlast hk, hsame]
    refine congrArg some ?_
    have hsplit := filter_split (@halvingNumbers_sorted _ _ (k + 1) (by omega) hstart)
      (v.referenceNum num zero x)
    rw [← hsplit, List.flatMap_append, hsplit, hnext]
    refine congrArg₂ _ (List.flatMap_congr fun n hn => ?_) (List.flatMap_congr fun n hn => ?_)
    · have hn := (List.mem_filter.1 hn).2
      simp only [decide_eq_true_eq] at hn
      rw [if_pos hn]
    · have hn := (List.mem_filter.1 hn).2
      simp only [decide_eq_true_eq] at hn
      rw [if_neg (by omega)]

end Completed

/-! ### The fork database -/

section ForkDatabase

open WeNode.Fork

variable {τ : Type} {hash : SignedBlock τ → Nat} {db : ForkDatabase τ} {v : ChainView BlockId}

/-- `database::get_block_ids_on_fork`, for the head of the main chain -/
def blockIdsOnFork (db : ForkDatabase τ) (headBlockId headOfFork : BlockId) : Option (List BlockId) :=
  (db.fetchBranchFrom headBlockId headOfFork).bind fun branches =>
    branches.1.getLast?.map fun a => branches.2.map (·.id) ++ [a.data.previous]

/-- What the fork database answers are the ids of a fork. -/
theorem blockIdsOnFork_forkIds (h : db.Built hash) {t x : ForkItem τ} {ids : List BlockId}
    (ht : t ∈ db.index) (hx : x ∈ db.index) (hhead : t.num ≤ v.headBlockNum)
    (hids : blockIdsOnFork db t.id x.id = some ids) : ForkIds BlockId.num v x.id ids := by
  obtain ⟨base, hroot⟩ := h.rooted
  obtain ⟨⟨first, second⟩, hfetch, hids⟩ := Option.bind_eq_some_iff.1 hids
  obtain ⟨a, ha, rfl⟩ := Option.map_eq_some_iff.1 hids
  have hf := hroot.fetched ht hx hfetch
  obtain ⟨a', b, ha', hb, hmeet⟩ := hf.meet
  obtain rfl : a' = a := Option.some.inj (ha'.symm.trans ha)
  have ha := List.mem_of_getLast? ha'
  have hstored := hf.first_path.stored a' ha
  have hprevious := hroot.sound.previous_num hstored
  have hhead' := hf.second_path.head
  refine ⟨?_, ?_, ?_, fun y hy => ?_⟩
  · rw [List.head?_append, List.head?_map, hhead']
    rfl
  · rw [List.isChain_append]
    refine ⟨?_, .singleton _, fun y hy z hz => ?_⟩
    · refine (List.isChain_map _).2 (hf.second_path.parents.imp_of_mem_imp fun y z hy hz hid => ?_)
      have hy := hf.second_path.stored y hy
      rw [hid, hroot.sound.id_num hy]
      exact (hroot.sound.previous_num hy).symm
    · cases hz
      rw [List.getLast?_map, hb] at hy
      cases hy
      have hb := hf.second_path.stored b (List.mem_of_getLast? hb)
      rw [hmeet, hroot.sound.id_num hb]
      exact (hroot.sound.previous_num hb).symm
  · have hpos := List.length_pos_of_mem (List.mem_of_head? hhead')
    show 2 ≤ (second.map (·.id) ++ [a'.data.previous]).length
    rw [List.length_append, List.length_map, List.length_singleton]
    omega
  · rw [List.getLast?_concat] at hy
    cases hy
    have hle : a'.num ≤ t.num := hroot.ancestor_num_le (hf.first_path.ancestor a' ha)
    show a'.data.previous.num ≤ v.headBlockNum
    omega

end ForkDatabase

/-! ### Examples -/

/- A chain of five blocks with a fork of two after its second; a block's number is its id without
the hundreds. -/
def forkedChain : ChainView Nat where
  headBlockNum := 5
  lastNonUndoableBlockNum := 2
  getBlockIdForNum n := if 0 < n ∧ n ≤ 5 then some n else none
  getBlockIdsOnFork x := if x = 104 then some [104, 103, 2] else none

theorem forkedChain_valid : forkedChain.Valid (· % 100) where
  main n hn hle := by
    have hle : n ≤ 5 := hle
    exact ⟨n, if_pos ⟨hn, hle⟩, Nat.mod_eq_of_lt (by omega)⟩
  none n hn := if_neg fun h => by
    rcases hn with rfl | hn
    · exact absurd h.1 (by decide)
    · exact absurd hn (Nat.not_lt.2 h.2)
  undoable := by decide
  fork x ids h := by
    have h : (if x = 104 then some [104, 103, 2] else none) = some ids := h
    split at h
    · next hx =>
      cases h
      subst hx
      exact ⟨rfl, by decide, by decide, by decide⟩
    · cases h

/-- Two blocks that a peer has listed after the fork. -/
theorem synopsis_of_fork :
    (forkedChain.extended (· % 100) 0 104 [105, 106]).getBlockchainSynopsis (· % 100) 0 32 0 0 =
      some [2, 105, 106] := by
  obtain ⟨l, hl, -, -, hext⟩ := @synopsis_completed _ _ (· % 100) 0 104 105 _ [106] rfl
    forkedChain_valid ⟨32, by decide⟩ (by decide) (by decide) (by decide) _ (le_refl 32)
  have hcomputed : forkedChain.createBlockchainSynopsisForPeer (· % 100) 0 32 104 [105, 106] =
      some [2, 105, 106] := by decide
  rw [hcomputed] at hl
  exact (hext rfl).trans hl.symm

end WeNode.Net
