import Mathlib.Data.Nat.Pairing
import WeNode.Lib.HashTree
import WeNode.Chain.Block

/-!
# The merkle root of a block

libraries/protocol/block.cpp, `signed_block::calculate_merkle_root`: the levels are computed in one
vector, with 32-bit positions.  A loop that does not end in its fuel gives `none`.
-/

namespace WeNode.Protocol

open WeNode.Chain WeNode.Lib

/- The hash functions: `merkle_digest`, the digest of a pair and the checksum of a digest. -/
structure MerkleHashes (Tx Digest Checksum : Type) where
  merkleDigest : Tx → Digest
  hashPair : Digest × Digest → Digest
  checksum : Digest → Checksum

namespace MerkleHashes

variable {Tx Digest Checksum : Type} (H : MerkleHashes Tx Digest Checksum)

/-- `ids[i]` -/
def digestAt [Inhabited Digest] (ids : List Digest) (i : UInt32) : Digest :=
  ids[i.toNat]?.getD default

/-- `for( uint32_t i = 0; i < transactions.size(); ++i )`, from `i` on -/
def fillIds (transactions : List Tx) : Nat → UInt32 → List Digest → Option (List Digest)
  | 0, _, _ => none
  | fuel + 1, i, ids =>
    match transactions[i.toNat]? with
    | some tx => fillIds transactions fuel (i + 1) (ids.set i.toNat (H.merkleDigest tx))
    | none => some ids

/-- `for( uint32_t i = 0; i < i_max; i += 2 )`: the vector and `k` after it -/
def hashPairs [Inhabited Digest] (iMax : UInt32) :
    Nat → UInt32 → UInt32 → List Digest → Option (List Digest × UInt32)
  | 0, _, _, _ => none
  | fuel + 1, i, k, ids =>
    if i < iMax then
      hashPairs iMax fuel (i + 2) (k + 1)
        (ids.set k.toNat (H.hashPair (digestAt ids i, digestAt ids (i + 1))))
    else some (ids, k)

/-- `while( current_number_of_hashes > 1 )` -/
def hashLevels [Inhabited Digest] : Nat → UInt64 → List Digest → Option (List Digest)
  | 0, _, _ => none
  | fuel + 1, currentNumberOfHashes, ids =>
    if 1 < currentNumberOfHashes then do
      let iMax := (currentNumberOfHashes - (currentNumberOfHashes &&& 1)).toUInt32
      let (ids, k) ← H.hashPairs iMax fuel 0 0 ids
      if currentNumberOfHashes &&& 1 ≠ 0 then
        hashLevels fuel (k + 1).toUInt64 (ids.set k.toNat (digestAt ids iMax))
      else hashLevels fuel k.toUInt64 ids
    else some ids

/-- `signed_block::calculate_merkle_root` -/
def calculateMerkleRoot [Inhabited Digest] [Inhabited Checksum] (fuel : Nat)
    (transactions : List Tx) : Option Checksum :=
  if transactions.length = 0 then some default
  else do
    let ids ← H.fillIds transactions fuel 0 (List.replicate transactions.length default)
    let ids ← H.hashLevels fuel (UInt64.ofNat ids.length) ids
    return H.checksum (digestAt ids 0)

/- The root as the tree over the digests has it; no transactions have the checksum's default. -/
def merkleRoot [Inhabited Checksum] : List Tx → Checksum
  | [] => default
  | tx :: txs =>
    H.checksum ((HashTree.ofLeaves (H.merkleDigest tx) (txs.map H.merkleDigest)).hash H.hashPair)

/-! ### The digests of the transactions -/

theorem fillIds_ok (transactions : List Tx) (hfew : transactions.length < 2 ^ 32) (fuel : Nat)
    (i : UInt32) (ids : List Digest) (hi : i.toNat ≤ transactions.length)
    (hfuel : transactions.length < fuel + i.toNat) (hlen : ids.length = transactions.length)
    (hdone : ids.take i.toNat = (transactions.take i.toNat).map H.merkleDigest) :
    H.fillIds transactions fuel i ids = some (transactions.map H.merkleDigest) := by
  induction fuel generalizing i ids with
  | zero => omega
  | succ fuel ih =>
    unfold fillIds
    by_cases hlt : i.toNat < transactions.length
    · have hnext : (i + 1).toNat = i.toNat + 1 := by
        rw [UInt32.toNat_add]
        exact Nat.mod_eq_of_lt (by change i.toNat + 1 < 2 ^ 32; omega)
      rw [List.getElem?_eq_getElem hlt]
      apply ih
      · omega
      · omega
      · rw [List.length_set, hlen]
      · rw [hnext, List.take_succ_eq_append_getElem (by rw [List.length_set]; omega),
          List.take_set_of_le (Nat.le_refl _), hdone, List.getElem_set_self,
          List.take_succ_eq_append_getElem hlt, List.map_append]
        rfl
    · have heq : i.toNat = transactions.length := by omega
      rw [List.getElem?_eq_none (by omega)]
      rw [heq, List.take_length, ← hlen, List.take_length] at hdone
      rw [← hdone]

/- With 2 ^ 32 transactions `i` runs past the last position and back to the first. -/
theorem fillIds_endless (transactions : List Tx) (hmany : 2 ^ 32 ≤ transactions.length) (fuel : Nat)
    (i : UInt32) (ids : List Digest) : H.fillIds transactions fuel i ids = none := by
  induction fuel generalizing i ids with
  | zero => rfl
  | succ fuel ih =>
    have hlt : i.toNat < transactions.length := Nat.lt_of_lt_of_le i.toNat_lt hmany
    unfold fillIds
    rw [List.getElem?_eq_getElem hlt]
    exact ih _ _

/- The loop returns only after its last turn, so there was room for it. -/
theorem fillIds_room (transactions : List Tx) (hfew : transactions.length < 2 ^ 32) (fuel : Nat)
    (i : UInt32) (ids ids' : List Digest) (hi : i.toNat ≤ transactions.length)
    (h : H.fillIds transactions fuel i ids = some ids') :
    transactions.length < fuel + i.toNat := by
  induction fuel generalizing i ids with
  | zero => cases h
  | succ fuel ih =>
    unfold fillIds at h
    by_cases hlt : i.toNat < transactions.length
    · have hnext : (i + 1).toNat = i.toNat + 1 := by
        rw [UInt32.toNat_add]
        exact Nat.mod_eq_of_lt (by change i.toNat + 1 < 2 ^ 32; omega)
      rw [List.getElem?_eq_getElem hlt] at h
      have hroom := ih _ _ (by omega) h
      omega
    · omega

/-! ### Lists with the same root -/

theorem merkleRoot_inj [Inhabited Checksum] {H : MerkleHashes Tx Digest Checksum}
    (hpair : Function.Injective H.hashPair) (hchecksum : Function.Injective H.checksum)
    {a b : List Tx} (ha : a ≠ []) (hb : b ≠ [])
    (hleaf : ∀ tx ∈ a ++ b, H.merkleDigest tx ∉ Set.range H.hashPair)
    (h : H.merkleRoot a = H.merkleRoot b) : a.map H.merkleDigest = b.map H.merkleDigest := by
  obtain ⟨x, xs, rfl⟩ := List.exists_cons_of_ne_nil ha
  obtain ⟨y, ys, rfl⟩ := List.exists_cons_of_ne_nil hb
  have hleaves : ∀ txs : List Tx, (∀ tx ∈ txs, H.merkleDigest tx ∉ Set.range H.hashPair) →
      ∀ d ∈ txs.map H.merkleDigest, d ∉ Set.range H.hashPair := by
    intro txs htxs d hd
    obtain ⟨tx, htx, rfl⟩ := List.mem_map.1 hd
    exact htxs tx htx
  exact HashTree.ofLeaves_inj hpair
    (hleaves (x :: xs) fun tx htx => hleaf tx (List.mem_append_left _ htx))
    (hleaves (y :: ys) fun tx htx => hleaf tx (List.mem_append_right _ htx)) (hchecksum h)

/- With the root from here, the root in a header fixes the digests of the block's transactions, the
listed blocks apart. -/
theorem checkMerkle_binds (hashes : MerkleHashes Transaction Digest Hash) {env : Env}
    (henv : ∀ b : Block, env.merkleRoot b = hashes.merkleRoot b.transactions)
    (hpair : Function.Injective hashes.hashPair) (hchecksum : Function.Injective hashes.checksum)
    {a b : Block} (ha : a.transactions ≠ []) (hb : b.transactions ≠ [])
    (hleaf : ∀ tx ∈ a.transactions ++ b.transactions,
      hashes.merkleDigest tx ∉ Set.range hashes.hashPair)
    (hla : (Database.blockNum a, env.merkleRoot a) ∉ sharedDbMerkle)
    (hlb : (Database.blockNum b, env.merkleRoot b) ∉ sharedDbMerkle)
    (hca : Database.checkMerkle env a = .ok ()) (hcb : Database.checkMerkle env b = .ok ())
    (h : a.transactionMerkleRoot = b.transactionMerkleRoot) :
    a.transactions.map hashes.merkleDigest = b.transactions.map hashes.merkleDigest := by
  have hra : a.transactionMerkleRoot = env.merkleRoot a := (require_ok hca).resolve_right hla
  have hrb : b.transactionMerkleRoot = env.merkleRoot b := (require_ok hcb).resolve_right hlb
  apply merkleRoot_inj hpair hchecksum ha hb hleaf
  rw [← henv, ← henv, ← hra, ← hrb, h]

/-! ### One level in place -/

/- After `j` pairs: their hashes in front, the hashes still to be paired where they were. -/
structure Half (start ids : List Digest) (j : Nat) : Prop where
  length_eq : ids.length = start.length
  paired : ids.take j = HashTree.pairHashes H.hashPair (start.take (2 * j))
  untouched : ids.drop (2 * j) = start.drop (2 * j)

variable {H}

theorem Half.start (start : List Digest) : H.Half start start 0 :=
  ⟨rfl, rfl, rfl⟩

theorem Half.getElem?_eq {start ids : List Digest} {j i : Nat} (h : H.Half start ids j)
    (hi : 2 * j ≤ i) : ids[i]? = start[i]? := by
  have hdrop := congrArg (fun l => l[i - 2 * j]?) h.untouched
  simp only [List.getElem?_drop] at hdrop
  rwa [show 2 * j + (i - 2 * j) = i by omega] at hdrop

theorem Half.step {start ids : List Digest} {j : Nat} (h : H.Half start ids j)
    (hj : 2 * j + 1 < start.length) :
    H.Half start (ids.set j (H.hashPair (start[2 * j], start[2 * j + 1]))) (j + 1) := by
  have hlen := h.length_eq
  constructor
  · rw [List.length_set, hlen]
  · have heven : (start.take (2 * j)).length % 2 = 0 := by
      rw [List.length_take]
      omega
    have htwo : start.take (2 * (j + 1))
        = start.take (2 * j) ++ [start[2 * j], start[2 * j + 1]] := by
      rw [show 2 * (j + 1) = 2 * j + 1 + 1 by omega, List.take_succ_eq_append_getElem hj,
        List.take_succ_eq_append_getElem (by omega), List.append_assoc]
      rfl
    rw [List.take_succ_eq_append_getElem (by rw [List.length_set]; omega),
      List.take_set_of_le (Nat.le_refl _), h.paired, List.getElem_set_self, htwo,
      HashTree.pairHashes_append _ _ heven]
    rfl
  · rw [List.drop_set_of_lt (by omega), show 2 * (j + 1) = 2 * j + 2 by omega, ← List.drop_drop,
      h.untouched, List.drop_drop]

theorem Half.odd {start ids : List Digest} {m : Nat} (h : H.Half start ids m)
    (hm : 2 * m < start.length) :
    (ids.set m start[2 * m]).take (m + 1)
      = HashTree.pairHashes H.hashPair (start.take (2 * m + 1)) := by
  have hlen := h.length_eq
  have heven : (start.take (2 * m)).length % 2 = 0 := by
    rw [List.length_take]
    omega
  rw [List.take_succ_eq_append_getElem (by rw [List.length_set]; omega),
    List.take_set_of_le (Nat.le_refl _), h.paired, List.getElem_set_self,
    List.take_succ_eq_append_getElem hm, HashTree.pairHashes_append _ _ heven]
  rfl

variable (H) [Inhabited Digest]

theorem hashPairs_ok (start : List Digest) (m : Nat) (iMax : UInt32) (hm : 2 * m ≤ start.length)
    (hmax : iMax.toNat = 2 * m) (fuel : Nat) (i k : UInt32) (ids : List Digest)
    (hk : k.toNat ≤ m) (hi : i.toNat = 2 * k.toNat) (hfuel : m < fuel + k.toNat)
    (h : H.Half start ids k.toNat) :
    ∃ ids' k', H.hashPairs iMax fuel i k ids = some (ids', k') ∧ k'.toNat = m ∧
      H.Half start ids' m := by
  have hwide : 2 * m < 2 ^ 32 := by
    rw [← hmax]
    exact iMax.toNat_lt
  induction fuel generalizing i k ids with
  | zero => omega
  | succ fuel ih =>
    unfold hashPairs
    by_cases hlt : k.toNat < m
    · have hmore : i < iMax := by
        rw [UInt32.lt_iff_toNat_lt]
        omega
      have hk1 : (k + 1).toNat = k.toNat + 1 := by
        rw [UInt32.toNat_add]
        exact Nat.mod_eq_of_lt (by change k.toNat + 1 < 2 ^ 32; omega)
      have hi1 : (i + 1).toNat = 2 * k.toNat + 1 := by
        rw [UInt32.toNat_add, hi]
        exact Nat.mod_eq_of_lt (by change 2 * k.toNat + 1 < 2 ^ 32; omega)
      have hi2 : (i + 2).toNat = 2 * k.toNat + 2 := by
        rw [UInt32.toNat_add, hi]
        exact Nat.mod_eq_of_lt (by change 2 * k.toNat + 2 < 2 ^ 32; omega)
      have hj : 2 * k.toNat + 1 < start.length := by omega
      have hread : digestAt ids i = start[2 * k.toNat] := by
        unfold digestAt
        rw [hi, h.getElem?_eq (Nat.le_refl _), List.getElem?_eq_getElem]
        rfl
      have hread1 : digestAt ids (i + 1) = start[2 * k.toNat + 1] := by
        unfold digestAt
        rw [hi1, h.getElem?_eq (by omega), List.getElem?_eq_getElem]
        rfl
      have hstep := h.step hj
      rw [← hk1] at hstep
      rw [if_pos hmore, hread, hread1]
      exact ih _ _ _ (by omega) (by omega) (by omega) hstep
    · have hkm : k.toNat = m := by omega
      have hdone : ¬ i < iMax := by
        rw [UInt32.lt_iff_toNat_lt]
        omega
      rw [if_neg hdone]
      exact ⟨ids, k, rfl, hkm, hkm ▸ h⟩

/-! ### All levels -/

theorem and_one (n : UInt64) : (n &&& 1).toNat = n.toNat % 2 := by
  rw [UInt64.toNat_and]
  exact Nat.and_one_is_mod _

theorem digestAt_zero {ids : List Digest} {d : Digest} {ds : List Digest} {n : Nat}
    (h : ids.take n = d :: ds) : digestAt ids 0 = d := by
  unfold digestAt
  cases ids with
  | nil => simp at h
  | cons a as =>
    cases n with
    | zero => simp at h
    | succ n =>
      rw [List.take_succ_cons] at h
      exact (List.cons.inj h).1

theorem hashLevels_ok (t : HashTree Digest) (ts : List (HashTree Digest)) (fuel : Nat)
    (n : UInt64) (ids : List Digest) (hn : n.toNat = ts.length + 1) (hfew : n.toNat < 2 ^ 32)
    (hfuel : n.toNat < fuel)
    (hids : ids.take n.toNat = (t :: ts).map (HashTree.hash H.hashPair)) :
    ∃ ids', H.hashLevels fuel n ids = some ids' ∧
      digestAt ids' 0 = (HashTree.build t ts).hash H.hashPair := by
  induction t, ts using HashTree.build.induct generalizing fuel n ids with
  | case1 t =>
    obtain ⟨fuel, rfl⟩ : ∃ f, fuel = f + 1 := ⟨fuel - 1, by omega⟩
    have hone : ¬ 1 < n := by
      rw [UInt64.lt_iff_toNat_lt, hn]
      exact Nat.lt_irrefl 1
    refine ⟨ids, ?_, ?_⟩
    · unfold hashLevels
      rw [if_neg hone]
    · rw [HashTree.build]
      exact digestAt_zero hids
  | case2 t r rest ih =>
    obtain ⟨fuel, rfl⟩ : ∃ f, fuel = f + 1 := ⟨fuel - 1, by omega⟩
    rw [List.length_cons] at hn
    have hmore : 1 < n := by
      rw [UInt64.lt_iff_toNat_lt, hn]
      change 1 < rest.length + 1 + 1
      omega
    have hlen : n.toNat ≤ ids.length := by
      have hboth := congrArg List.length hids
      simp only [List.length_take, List.length_map, List.length_cons] at hboth
      omega
    have hle : (n &&& 1) ≤ n := by
      rw [UInt64.le_iff_toNat_le, and_one]
      exact Nat.mod_le _ _
    have hmax : (n - (n &&& 1)).toUInt32.toNat = 2 * (n.toNat / 2) := by
      rw [UInt64.toNat_toUInt32, UInt64.toNat_sub_of_le _ _ hle, and_one,
        Nat.mod_eq_of_lt (by omega)]
      omega
    obtain ⟨ids', k, hpairs, hk, hhalf⟩ := H.hashPairs_ok ids (n.toNat / 2) _ (by omega) hmax fuel
      0 0 ids (Nat.zero_le _) rfl (by change _ < fuel + 0; omega) (Half.start ids)
    have hup : HashTree.pairHashes H.hashPair (ids.take n.toNat)
        = (HashTree.node t r :: HashTree.pairUp rest).map (HashTree.hash H.hashPair) := by
      rw [hids, ← HashTree.map_hash_pairUp]
      rfl
    have hcount := HashTree.pairUp_length rest
    rw [HashTree.build_cons]
    unfold hashLevels
    rw [if_pos hmore]
    simp only [hpairs, Option.bind_eq_bind, Option.bind_some]
    by_cases hodd : n &&& 1 ≠ 0
    · have hmod : n.toNat % 2 ≠ 0 := by
        rw [← and_one]
        exact fun h0 => hodd (UInt64.toNat_inj.1 h0)
      have hread : digestAt ids' (n - (n &&& 1)).toUInt32 = ids[2 * (n.toNat / 2)] := by
        unfold digestAt
        rw [hmax, hhalf.getElem?_eq (Nat.le_refl _), List.getElem?_eq_getElem (by omega)]
        rfl
      have hk1 : (k + 1).toNat = n.toNat / 2 + 1 := by
        rw [UInt32.toNat_add, hk]
        exact Nat.mod_eq_of_lt (by change n.toNat / 2 + 1 < 2 ^ 32; omega)
      have hn1 : (k + 1).toUInt64.toNat = n.toNat / 2 + 1 := by
        rw [UInt32.toNat_toUInt64, hk1]
      have hlevel := hhalf.odd (by omega)
      rw [show 2 * (n.toNat / 2) + 1 = n.toNat by omega, hup] at hlevel
      rw [if_pos hodd, hread, hk]
      exact ih fuel _ _ (by omega) (by omega) (by omega) (by rw [hn1]; exact hlevel)
    · have hmod : n.toNat % 2 = 0 := by
        rw [← and_one, Decidable.not_not.1 hodd]
        rfl
      have hn1 : k.toUInt64.toNat = n.toNat / 2 := by
        rw [UInt32.toNat_toUInt64, hk]
      have hlevel := hhalf.paired
      rw [show 2 * (n.toNat / 2) = n.toNat by omega, hup] at hlevel
      rw [if_neg hodd]
      exact ih fuel _ _ (by omega) (by omega) (by omega) (by rw [hn1]; exact hlevel)

variable [Inhabited Checksum]

/-- With room for `transactions.size()` turns in each loop, the root is that of the tree. -/
theorem calculateMerkleRoot_ok (transactions : List Tx) (hfew : transactions.length < 2 ^ 32)
    (fuel : Nat) (hfuel : transactions.length < fuel) :
    H.calculateMerkleRoot fuel transactions = some (H.merkleRoot transactions) := by
  cases transactions with
  | nil => rfl
  | cons tx txs =>
    have hfill := H.fillIds_ok (tx :: txs) hfew fuel 0
      (List.replicate (tx :: txs).length default) (Nat.zero_le _) hfuel List.length_replicate rfl
    have hsize : (UInt64.ofNat (tx :: txs).length).toNat = (tx :: txs).length :=
      UInt64.toNat_ofNat_of_lt' (by change _ < 2 ^ 64; omega)
    have hids : ((tx :: txs).map H.merkleDigest).take (UInt64.ofNat (tx :: txs).length).toNat
        = (HashTree.leaf (H.merkleDigest tx) :: (txs.map H.merkleDigest).map HashTree.leaf).map
            (HashTree.hash H.hashPair) := by
      rw [hsize, ← List.length_map (f := H.merkleDigest), List.take_length]
      simp [HashTree.hash]
    obtain ⟨ids, hlevels, hroot⟩ := H.hashLevels_ok (HashTree.leaf (H.merkleDigest tx))
      ((txs.map H.merkleDigest).map HashTree.leaf) fuel (UInt64.ofNat (tx :: txs).length)
      ((tx :: txs).map H.merkleDigest) (by rw [hsize]; simp) (by rw [hsize]; exact hfew)
      (by rw [hsize]; exact hfuel) hids
    unfold calculateMerkleRoot
    rw [if_neg (by simp)]
    simp only [hfill, Option.bind_eq_bind, Option.bind_some, List.length_map, hlevels, hroot]
    rfl

/-! ### What the function returns -/

theorem calculateMerkleRoot_some {transactions : List Tx} {fuel : Nat} {root : Checksum}
    (h : H.calculateMerkleRoot fuel transactions = some root) :
    root = H.merkleRoot transactions := by
  cases transactions with
  | nil => exact (Option.some.inj h).symm
  | cons tx txs =>
    cases hfill : H.fillIds (tx :: txs) fuel 0 (List.replicate (tx :: txs).length default) with
    | none =>
      unfold calculateMerkleRoot at h
      rw [if_neg (by simp), hfill] at h
      cases h
    | some ids =>
      have hfew : (tx :: txs).length < 2 ^ 32 := by
        by_contra hmany
        rw [H.fillIds_endless (tx :: txs) (Nat.le_of_not_lt hmany)] at hfill
        cases hfill
      have hroom := H.fillIds_room (tx :: txs) hfew fuel 0 _ ids (Nat.zero_le _) hfill
      have hok := H.calculateMerkleRoot_ok (tx :: txs) hfew fuel hroom
      exact Option.some.inj (h.symm.trans hok)

/-- The root is that of the tree over the digests, and non-empty lists with the same root have the
same digests. -/
theorem calculateMerkleRoot_binds :
    (∀ transactions : List Tx, transactions.length < 2 ^ 32 →
      ∀ fuel, transactions.length < fuel →
        H.calculateMerkleRoot fuel transactions = some (H.merkleRoot transactions)) ∧
    (Function.Injective H.hashPair → Function.Injective H.checksum →
      ∀ a b : List Tx, a ≠ [] → b ≠ [] →
        (∀ tx ∈ a ++ b, H.merkleDigest tx ∉ Set.range H.hashPair) →
        ∀ fuel fuel' root, H.calculateMerkleRoot fuel a = some root →
          H.calculateMerkleRoot fuel' b = some root →
          a.map H.merkleDigest = b.map H.merkleDigest) := by
  constructor
  · intro transactions hfew fuel hfuel
    exact H.calculateMerkleRoot_ok transactions hfew fuel hfuel
  · intro hpair hchecksum a b ha hb hleaf fuel fuel' root hra hrb
    have hroot : H.merkleRoot a = H.merkleRoot b :=
      (H.calculateMerkleRoot_some hra).symm.trans (H.calculateMerkleRoot_some hrb)
    exact merkleRoot_inj hpair hchecksum ha hb hleaf hroot

/- Hashes on numbers without collisions: the digests even, the hashes of pairs odd. -/
def numbers : MerkleHashes Nat Nat Nat where
  merkleDigest tx := 2 * tx
  hashPair p := 2 * Nat.pair p.1 p.2 + 1
  checksum d := d + 1

theorem numbers_hashPair_injective : Function.Injective numbers.hashPair := by
  intro p q h
  have hpair : Nat.pair p.1 p.2 = Nat.pair q.1 q.2 := by
    simp only [numbers] at h
    omega
  obtain ⟨h1, h2⟩ := Nat.pair_eq_pair.1 hpair
  exact Prod.ext h1 h2

theorem numbers_leaf (tx : Nat) : numbers.merkleDigest tx ∉ Set.range numbers.hashPair := by
  rintro ⟨p, hp⟩
  simp only [numbers] at hp
  omega

theorem calculateMerkleRoot_binds_three :
    numbers.calculateMerkleRoot 4 [1, 2, 3] = some (numbers.merkleRoot [1, 2, 3]) ∧
      [1, 2, 3].map numbers.merkleDigest = [1, 2, 3].map numbers.merkleDigest :=
  ⟨numbers.calculateMerkleRoot_binds.1 [1, 2, 3] (by decide) 4 (by decide),
    numbers.calculateMerkleRoot_binds.2 numbers_hashPair_injective (fun _ _ => Nat.succ.inj)
      [1, 2, 3] [1, 2, 3] (List.cons_ne_nil _ _) (List.cons_ne_nil _ _)
      (fun tx _ => numbers_leaf tx) 4 4 (numbers.merkleRoot [1, 2, 3])
      (numbers.calculateMerkleRoot_ok [1, 2, 3] (by decide) 4 (by decide))
      (numbers.calculateMerkleRoot_ok [1, 2, 3] (by decide) 4 (by decide))⟩

/-- The root of no transactions is no checksum of a digest, and for 2 ^ 32 transactions the function
does not return. -/
theorem calculateMerkleRoot_limits :
    (numbers.calculateMerkleRoot 1 [] = some 0 ∧ ¬ ∃ d, numbers.checksum d = 0) ∧
      ¬ ∃ fuel root, numbers.calculateMerkleRoot fuel (List.replicate (2 ^ 32) 5) = some root := by
  refine ⟨⟨rfl, ?_⟩, ?_⟩
  · rintro ⟨d, hd⟩
    cases hd
  · rintro ⟨fuel, root, h⟩
    have hmany : 2 ^ 32 ≤ (List.replicate (2 ^ 32) 5).length :=
      Nat.le_of_eq List.length_replicate.symm
    have hne : (List.replicate (2 ^ 32) 5).length ≠ 0 := by
      omega
    unfold calculateMerkleRoot at h
    rw [if_neg hne, numbers.fillIds_endless _ hmany] at h
    cases h

end MerkleHashes

end WeNode.Protocol
