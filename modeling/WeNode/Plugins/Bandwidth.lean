import WeNode.Chain.Config
import Mathlib.Tactic

/-!
# Bandwidth rationing

plugins/witness/witness_plugin.cpp: the reserve ratio, which follows the average size of blocks, and the
bandwidth that an account has used.  The products mix words of 32, 64 and 128 bits; `Int.bmod` reads a
number as a signed word.
-/

namespace WeNode.Plugins

open WeNode.Chain (maxBlockSize blockInterval minBlockSizeLimit)

def bandwidthAverageWindowSeconds : Nat := 60 * 60 * 24 * 7
def bandwidthPrecision : Nat := 1000000
def maxReserveRatio : Nat := 20000
def reserveRatioPrecision : Nat := 10000
def reserveRatioMinIncrement : Int := 5000
def distanceCalcPrecision : Int := 10000

/-- `reserve_ratio_object` -/
structure ReserveRatio where
  averageBlockSize : Int
  currentReserveRatio : Int
  maxVirtualBandwidth : Nat
deriving DecidableEq

/-- A block that has been applied, with what the plugin reads of the chain then. -/
structure AppliedBlock where
  packSize : Nat
  maximumBlockSize : Nat
  headBlockNum : Nat

namespace ReserveRatio

/-- The object of the first block.  The product of the two constants is one of `int`s. -/
def create : ReserveRatio where
  averageBlockSize := 0
  currentReserveRatio := maxReserveRatio * reserveRatioPrecision
  maxVirtualBandwidth :=
    ((Int.bmod (maxBlockSize * maxReserveRatio) (2 ^ 32) % 2 ^ 128).toNat * bandwidthPrecision *
      bandwidthAverageWindowSeconds) % 2 ^ 128 / blockInterval

/-- `( 99 * r.average_block_size + fc::raw::pack_size( b ) ) / 100`, a product of `int`s and a sum of
64-bit words -/
def nextAverage (average : Int) (size : Nat) : Int :=
  Int.bmod ((Int.bmod (99 * average) (2 ^ 32) + size) % 2 ^ 64 / 100) (2 ^ 32)

/- How far the average is from a quarter of the limit. -/
def distance (average : Int) (maximumBlockSize : Nat) : Int :=
  ((average - (maximumBlockSize / 4 : Nat)) * distanceCalcPrecision).tdiv (maximumBlockSize / 4 : Nat)

/- The ratio for a distance, at least 1 and at most the greatest ratio. -/
def nextRatio (ratio distance : Int) : Int :=
  if 0 < distance then
    max (ratio - (Int.bmod (ratio * distance) (2 ^ 64)).tdiv (distance + distanceCalcPrecision))
      reserveRatioPrecision
  else
    min (ratio + max reserveRatioMinIncrement
      ((Int.bmod (ratio * distance) (2 ^ 64)).tdiv (distance - distanceCalcPrecision)))
      (maxReserveRatio * reserveRatioPrecision : Nat)

/- The bandwidth for a limit and a ratio, in words of 128 bits. -/
def virtualBandwidth (maximumBlockSize : Nat) (ratio : Int) : Nat :=
  maximumBlockSize * (ratio % 2 ^ 128).toNat % 2 ^ 128 *
    (bandwidthPrecision * bandwidthAverageWindowSeconds) % 2 ^ 128 /
      (blockInterval * reserveRatioPrecision)

/-- The object after a later block. -/
def update (r : ReserveRatio) (b : AppliedBlock) : ReserveRatio :=
  let average := nextAverage r.averageBlockSize b.packSize
  if b.headBlockNum % 20 = 0 then
    let ratio := nextRatio r.currentReserveRatio (distance average b.maximumBlockSize)
    { averageBlockSize := average
      currentReserveRatio := ratio
      maxVirtualBandwidth := virtualBandwidth b.maximumBlockSize ratio }
  else { r with averageBlockSize := average }

/-- `witness_plugin_impl::on_block` -/
def onBlock (r : Option ReserveRatio) (b : AppliedBlock) : Option ReserveRatio :=
  match r with
  | none => some create
  | some r => some (r.update b)

/-- The object after a sequence of blocks. -/
def after (bs : List AppliedBlock) : Option ReserveRatio := bs.foldl onBlock none

end ReserveRatio

/-! ### Accounts -/

/-- `account_bandwidth_object` -/
structure AccountBandwidth where
  averageBandwidth : Nat := 0
  lifetimeBandwidth : Nat := 0
  lastBandwidthUpdate : Nat := 0

/-- The bandwidth used after a transaction of the given size. -/
def AccountBandwidth.use (a : AccountBandwidth) (now trxSize : Nat) : AccountBandwidth :=
  let trxBandwidth := trxSize * bandwidthPrecision
  let delta := now - a.lastBandwidthUpdate
  let old := if bandwidthAverageWindowSeconds < delta then 0
    else (bandwidthAverageWindowSeconds - delta) * a.averageBandwidth / bandwidthAverageWindowSeconds
  { averageBandwidth := old + trxBandwidth
    lifetimeBandwidth := a.lifetimeBandwidth + trxBandwidth
    lastBandwidthUpdate := now }

/-- The test of `update_account_bandwidth`, on words of 128 bits -/
def hasBandwidth (r : ReserveRatio) (a : AccountBandwidth) (effectiveSCORE totalSCORE : Nat) : Bool :=
  (a.averageBandwidth * totalSCORE) % 2 ^ 128 < (effectiveSCORE * r.maxVirtualBandwidth) % 2 ^ 128

namespace ReserveRatio

/-! ### What is documented -/

/-- The bandwidth for a block size limit and a reserve ratio, rounded down. -/
def documented (limit : Nat) (ratio : Int) : Nat :=
  limit * ratio.toNat * bandwidthPrecision * bandwidthAverageWindowSeconds /
    (blockInterval * reserveRatioPrecision)

/-- The rationing over a sequence of blocks: the average lies between 0 and the largest block, the ratio
within its limits, every value stored is the documented one for some block size limit, and accounts are
let through by the exact comparison. -/
structure Exact (bs : List AppliedBlock) : Prop where
  average : ∀ pre r, pre <+: bs → after pre = some r → 0 ≤ r.averageBlockSize ∧
    ∀ largest : Nat, (∀ b ∈ pre, b.packSize ≤ largest) → r.averageBlockSize ≤ largest
  ratio : ∀ pre r, pre <+: bs → after pre = some r →
    (reserveRatioPrecision : Int) ≤ r.currentReserveRatio ∧
      r.currentReserveRatio ≤ (maxReserveRatio * reserveRatioPrecision : Nat)
  stored : ∀ pre b r, pre ++ [b] <+: bs → after (pre ++ [b]) = some r →
    (pre = [] ∨ b.headBlockNum % 20 = 0) →
    ∃ limit, r.maxVirtualBandwidth = documented limit r.currentReserveRatio
  accounts : ∀ pre r, pre <+: bs → after pre = some r →
    ∀ (a : AccountBandwidth) (now trxSize effectiveSCORE totalSCORE : Nat), 0 < totalSCORE →
      (hasBandwidth r (a.use now trxSize) effectiveSCORE totalSCORE ↔
        (a.use now trxSize).averageBandwidth * totalSCORE < effectiveSCORE * r.maxVirtualBandwidth)

/-- The first value stored is that of no block size limit at all. -/
theorem create_not_documented (limit : Nat) :
    create.maxVirtualBandwidth ≠ documented limit create.currentReserveRatio := by
  have hcreate : create.maxVirtualBandwidth = 234881024 * (1000000 * 604800) := by decide
  have hratio : create.currentReserveRatio.toNat = 200000000 := by decide
  rw [hcreate, documented, hratio]
  show _ ≠ limit * 200000000 * 1000000 * 604800 / 10000
  omega

theorem nextAverage_range (average : Int) (size : Nat) :
    -2 ^ 31 ≤ nextAverage average size ∧ nextAverage average size < 2 ^ 31 := by
  have hlow := Int.le_bmod (x := (Int.bmod (99 * average) (2 ^ 32) + size) % 2 ^ 64 / 100)
    (m := 2 ^ 32) (by decide)
  have hhigh := Int.bmod_lt (x := (Int.bmod (99 * average) (2 ^ 32) + size) % 2 ^ 64 / 100)
    (m := 2 ^ 32) (by decide)
  unfold nextAverage
  omega

/-- The largest average of which 99 fit into an `int`. -/
def greatestAverage : Nat := 21691753

theorem nextAverage_between {average : Int} {size largest : Nat} (hpos : 0 ≤ average)
    (haverage : average ≤ largest) (hsize : size ≤ largest) (hlargest : largest ≤ greatestAverage) :
    0 ≤ nextAverage average size ∧ nextAverage average size ≤ largest := by
  unfold greatestAverage at hlargest
  have hproduct : Int.bmod (99 * average) (2 ^ 32) = 99 * average := by
    rw [Int.bmod_eq_iff (by decide)]
    omega
  have hsum : (99 * average + size) % 2 ^ 64 = 99 * average + size :=
    Int.emod_eq_of_lt (by omega) (by omega)
  have hquotient : Int.bmod ((99 * average + size) / 100) (2 ^ 32) = (99 * average + size) / 100 := by
    rw [Int.bmod_eq_iff (by decide)]
    omega
  rw [nextAverage, hproduct, hsum, hquotient]
  omega

theorem distance_le {average : Int} {limit : Nat} (haverage : average < 2 ^ 31)
    (hlimit : minBlockSizeLimit ≤ limit) : distance average limit ≤ 1310720000 := by
  have hquarter : 16384 ≤ limit / 4 := by
    unfold minBlockSizeLimit at hlimit
    omega
  unfold distance distanceCalcPrecision
  rcases Int.le_total 0 ((average - (limit / 4 : Nat)) * 10000) with hpos | hneg
  · rw [Int.tdiv_eq_ediv_of_nonneg hpos]
    exact Int.ediv_le_of_le_mul (by omega) (by omega)
  · have hquotient := Int.tdiv_nonneg (Int.neg_nonneg_of_nonpos hneg)
      (Int.natCast_nonneg (limit / 4))
    rw [Int.neg_tdiv] at hquotient
    omega

theorem ratio_limits : ((maxReserveRatio * reserveRatioPrecision : Nat) : Int) = 200000000 ∧
    (reserveRatioPrecision : Int) = 10000 := by decide

theorem nextRatio_between {ratio d : Int} (hlow : (reserveRatioPrecision : Int) ≤ ratio)
    (hhigh : ratio ≤ (maxReserveRatio * reserveRatioPrecision : Nat)) (hd : d ≤ 1310720000) :
    (reserveRatioPrecision : Int) ≤ nextRatio ratio d ∧
      nextRatio ratio d ≤ (maxReserveRatio * reserveRatioPrecision : Nat) := by
  rw [ratio_limits.2] at hlow
  rw [ratio_limits.1] at hhigh
  unfold nextRatio reserveRatioMinIncrement distanceCalcPrecision
  rw [ratio_limits.1, ratio_limits.2]
  split
  · next hpos =>
    have hproduct : 0 ≤ ratio * d := Int.mul_nonneg (by omega) (by omega)
    have hsmall : ratio * d ≤ 200000000 * 1310720000 := Int.mul_le_mul hhigh hd (by omega) (by omega)
    have hword : Int.bmod (ratio * d) (2 ^ 64) = ratio * d :=
      Int.bmod_eq_of_le_mul_two (by omega) (by omega)
    have hless : 0 ≤ (ratio * d).tdiv (d + 10000) := Int.tdiv_nonneg hproduct (by omega)
    rw [hword]
    omega
  · omega

theorem virtualBandwidth_documented {limit : Nat} {ratio : Int} (hlimit : limit < 2 ^ 32)
    (hlow : (reserveRatioPrecision : Int) ≤ ratio)
    (hhigh : ratio ≤ (maxReserveRatio * reserveRatioPrecision : Nat)) :
    virtualBandwidth limit ratio = documented limit ratio := by
  rw [ratio_limits.2] at hlow
  rw [ratio_limits.1] at hhigh
  have hratio : ratio % 2 ^ 128 = ratio := Int.emod_eq_of_lt (by omega) (by omega)
  have hproduct : limit * ratio.toNat ≤ 2 ^ 32 * 200000000 :=
    Nat.mul_le_mul hlimit.le (by omega)
  unfold virtualBandwidth documented
  rw [hratio, Nat.mod_eq_of_lt (a := limit * ratio.toNat) (by omega), Nat.mul_assoc _ bandwidthPrecision]
  show _ * 604800000000 % _ / 10000 = _ * 604800000000 / 10000
  rw [Nat.mod_eq_of_lt (by omega)]

/-- The test of an account compares the exact products where they fit into 128 bits. -/
theorem hasBandwidth_iff {r : ReserveRatio} {a : AccountBandwidth} {effectiveSCORE totalSCORE : Nat}
    (hused : a.averageBandwidth * totalSCORE < 2 ^ 128)
    (hshare : effectiveSCORE * r.maxVirtualBandwidth < 2 ^ 128) :
    hasBandwidth r a effectiveSCORE totalSCORE ↔
      a.averageBandwidth * totalSCORE < effectiveSCORE * r.maxVirtualBandwidth := by
  rw [hasBandwidth, Nat.mod_eq_of_lt hused, Nat.mod_eq_of_lt hshare, decide_eq_true_eq]

/-- What every block keeps: the average of blocks that an `int` can hold 99 times, and the ratio. -/
structure Kept (largest : Nat) (r : ReserveRatio) : Prop where
  average : 0 ≤ r.averageBlockSize ∧ r.averageBlockSize ≤ largest
  ratio : (reserveRatioPrecision : Int) ≤ r.currentReserveRatio ∧
    r.currentReserveRatio ≤ (maxReserveRatio * reserveRatioPrecision : Nat)

variable {largest : Nat} {b : AppliedBlock} {bs : List AppliedBlock} {r : ReserveRatio}

theorem create_kept : create.Kept largest :=
  ⟨⟨le_rfl, Int.natCast_nonneg _⟩, by decide, by decide⟩

theorem Kept.update (h : r.Kept largest) (hlargest : largest ≤ greatestAverage)
    (hsize : b.packSize ≤ largest) (hlimit : minBlockSizeLimit ≤ b.maximumBlockSize)
    (hword : b.maximumBlockSize < 2 ^ 32) :
    (r.update b).Kept largest ∧ (b.headBlockNum % 20 = 0 →
      (r.update b).maxVirtualBandwidth =
        documented b.maximumBlockSize (r.update b).currentReserveRatio) := by
  have haverage := nextAverage_between h.average.1 h.average.2 hsize hlargest
  have hratio := nextRatio_between h.ratio.1 h.ratio.2 (distance_le
    (nextAverage_range r.averageBlockSize b.packSize).2 hlimit)
  unfold ReserveRatio.update
  dsimp only
  split
  · exact ⟨⟨haverage, hratio⟩, fun _ => virtualBandwidth_documented hword hratio.1 hratio.2⟩
  · next hnot => exact ⟨⟨haverage, h.ratio⟩, fun h => absurd h hnot⟩

/-- Over blocks of moderate size, all but the value stored first is as documented: the average and the
ratio stay within their limits, and every later value is that of the block size limit. -/
theorem kept_after (hlargest : largest ≤ greatestAverage) (hbs : ∀ b ∈ bs, b.packSize ≤ largest ∧
      minBlockSizeLimit ≤ b.maximumBlockSize ∧ b.maximumBlockSize < 2 ^ 32)
    (h : after bs = some r) : r.Kept largest := by
  have hrun : ∀ (l : List AppliedBlock) (r₀ : Option ReserveRatio), (∀ b ∈ l, b ∈ bs) →
      (∀ r ∈ r₀, r.Kept largest) → ∀ r ∈ l.foldl onBlock r₀, r.Kept largest := by
    intro l
    induction l with
    | nil => exact fun r₀ _ hr₀ => hr₀
    | cons b l ih =>
      intro r₀ hl hr₀
      refine ih _ (fun c hc => hl c (List.mem_cons_of_mem _ hc)) fun r hr => ?_
      obtain ⟨hsize, hlimit, hword⟩ := hbs b (hl b (List.mem_cons_self ..))
      cases r₀ with
      | none =>
        cases hr
        exact create_kept
      | some r₁ =>
        cases hr
        exact ((hr₀ r₁ rfl).update hlargest hsize hlimit hword).1
  exact hrun bs none (fun _ hb => hb) nofun r h

end ReserveRatio

end WeNode.Plugins
