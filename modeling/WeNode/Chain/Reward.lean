import WeNode.Chain.Objects

/-!
# Reward curves and payouts

libraries/chain/util/reward.cpp, libraries/chain/include/node/chain/util/reward.hpp and
libraries/chain/include/node/chain/compound.hpp.
-/

namespace WeNode.Chain

open WeNode.Lib

def two256 : Nat := two128 * two128

/-- `calc_percent_reward` -/
def calcPercentReward (percent multiply shift : Nat) (currentSupply : Int) : Result Int := do
  let reward := u128Mul (u128 currentSupply) (percent * multiply)
  let reward := u128Add reward (2 ^ (shift - 1))
  return ofUint64 (← toUint64 (reward / 2 ^ shift))

/- The place of the highest bit set; 0 has it in place 0. -/
def findMsb (u : Nat) : Nat := Nat.log2 u

/-- `approx_sqrt` -/
def approxSqrt (x : Nat) : Nat :=
  if x = 0 then 0
  else
    let msbX := findMsb x
    let msbZ := msbX / 2
    let msbZbit := 2 ^ msbZ
    let mantissaX := x % 2 ^ msbX
    let mantissaZhi := if msbX % 2 = 1 then msbZbit else 0
    let mantissaZlo := mantissaX / 2 ^ (msbX - msbZ) % two64
    let mantissaZ := (mantissaZhi ||| mantissaZlo) / 2
    msbZbit ||| mantissaZ

/-- `evaluate_reward_curve` -/
def evaluateRewardCurve (scoreReward : Nat) (curve : CurveId := .quadratic)
    (contentConstant : Nat := contentConstantHF0) : Result Nat :=
  match curve with
  | .quadratic =>
    let plus := u128Add scoreReward contentConstant
    .ok (u128Sub (u128Mul plus plus) (u128Mul contentConstant contentConstant))
  | .quadraticCuration =>
    let twoAlpha := u128Mul contentConstant 2
    u128Div (scoreReward % two64 * two64) (u128Add twoAlpha scoreReward)
  | .linear => .ok scoreReward
  | .squareRoot => .ok (approxSqrt scoreReward)

/-- `comment_reward_context` -/
structure CommentRewardContext where
  scoreReward : Int := 0
  rewardWeight : Nat := 0
  maxTSD : Asset := .coin 0
  totalSCOREreward2 : Nat := 0
  totalRewardFundTME : Int := 0
  currentTMEprice : Price := .null
  rewardCurve : CurveId := .quadratic
  contentConstant : Nat := contentConstantHF0

/-- `is_comment_payout_dust` -/
def isCommentPayoutDust (p : Price) (payout : Nat) : Result Bool := do
  let tsd ← toTSD p (.coin (ofUint64 payout))
  tsd.lt (.usd minPayoutTSD)

/-- `get_SCORE_reward`; the products are taken in 256 bits. -/
def getSCOREreward (ctx : CommentRewardContext) : Result Nat := do
  require (0 < ctx.scoreReward) "ctx.SCOREreward > 0"
  require (0 < ctx.totalSCOREreward2) "ctx.totalSCOREreward2 > 0"
  let rf := (ctx.totalRewardFundTME % (two256 : Int)).toNat
  let claim ← evaluateRewardCurve (u128 ctx.scoreReward) ctx.rewardCurve ctx.contentConstant
  let claim := claim * ctx.rewardWeight / percent100
  let payout := rf * claim % two256 / ctx.totalSCOREreward2
  require (payout < 9223372036854775808)
    "payout_u256 <= u256( uint64_t( std::numeric_limits<int64_t>::max() ) )"
  let payout := if ← isCommentPayoutDust ctx.currentTMEprice payout then 0 else payout
  let maxTME ← toTME ctx.currentTMEprice ctx.maxTSD
  return min payout (asUint64 maxTME.amount)

/-! ### Liquidity rewards -/

namespace LiquidityRewardBalance

def isPositive (r : LiquidityRewardBalance) : Bool :=
  decide (0 < r.tmeVolume) && decide (0 < r.tsdVolume)

/- The product of two `int64_t` is taken in 64 bits. -/
def volumeWeight (r : LiquidityRewardBalance) : Nat :=
  if r.isPositive then u128 (wrap64 (r.tmeVolume * r.tsdVolume)) else 0

def minVolumeWeight (r : LiquidityRewardBalance) : Nat :=
  if r.isPositive then u128 (min r.tmeVolume r.tsdVolume) else 0

def updateWeight (r : LiquidityRewardBalance) (hf9 : Bool) : LiquidityRewardBalance :=
  { r with weight := if hf9 then r.minVolumeWeight else r.volumeWeight }

end LiquidityRewardBalance

end WeNode.Chain
