import WeNode.Chain.Balances

/-!
# Order matching

libraries/chain/database.cpp: `apply_order` to `cancel_order` (3124-3293) and
`clear_expired_orders` (3307-3317).
-/

namespace WeNode.Chain

open WeNode.Lib

namespace Database

def getLimitOrderById (d : Database) (id : Nat) : Result LimitOrder :=
  found (d.limitOrders.find fun o => o.id == id)

def removeLimitOrder (d : Database) (id : Nat) : Database :=
  { d with limitOrders := d.limitOrders.remove fun o => o.id == id }

/-- `adjust_liquidity_reward` -/
def adjustLiquidityReward (d : Database) (owner : Nat) (volume : Asset) (isSdb : Bool) :
    Result Database := do
  let now := d.headBlockTime
  let add (r : LiquidityRewardBalance) : LiquidityRewardBalance :=
    if isSdb then { r with tsdVolume := wrap64 (r.tsdVolume + volume.amount) }
    else { r with tmeVolume := wrap64 (r.tmeVolume + volume.amount) }
  match d.liquidityRewards.find fun r => r.owner == owner with
  | some _ =>
    let rewards ← d.liquidityRewards.modify .notFound (fun r => r.owner == owner) fun r =>
      let r := if liquidityTimeoutSec ≤ d.secondsSince r.lastUpdate
        then { r with tsdVolume := 0, tmeVolume := 0, weight := 0 } else r
      .ok { (add r).updateWeight (d.hasHardfork 10) with lastUpdate := now }
    return { d with liquidityRewards := rewards }
  | none =>
    return { d with liquidityRewards := d.liquidityRewards.create fun id =>
      { (add { id := id, owner := owner }).updateWeight (d.hasHardfork 9) with
        lastUpdate := now } }

/-- `cancel_order` -/
def cancelOrder (d : Database) (id : Nat) : Result Database := do
  let order ← d.getLimitOrderById id
  let d ← d.adjustBalance order.seller order.amountForSale
  return d.removeLimitOrder id

/-- `fill_order`: whether the order left the book -/
def fillOrder (d : Database) (id : Nat) (pays receives : Asset) :
    Result (Database × Bool) := do
  let order ← d.getLimitOrderById id
  require (order.amountForSale.symbol = pays.symbol)
    "order.amount_for_sale().symbol == pays.symbol"
  require (pays.symbol ≠ receives.symbol) "pays.symbol != receives.symbol"
  let d ← d.adjustBalance order.seller receives
  if pays = order.amountForSale then return (d.removeLimitOrder id, true)
  let d ← d.modifyLimitOrder id fun o => do
    return { o with forSale := ← safeSub o.forSale pays.amount }
  let order ← d.getLimitOrderById id
  -- what is left is too small to be sold at the price of the order
  if (← order.amountToReceive).amount = 0 then do
    let d ← d.cancelOrder id
    return (d, true)
  else return (d, false)

/- The volume both sides of a match earn liquidity rewards for. -/
def rewardLiquidity (d : Database) (newOrder oldOrder : LimitOrder)
    (newReceives oldReceives : Asset) : Result Database := do
  let age := d.secondsSince oldOrder.created
  if !d.hasHardfork 12 ∧
      ((minLiquidityRewardPeriodSec ≤ age ∧ !d.hasHardfork 10) ∨
        (minLiquidityRewardPeriodSecHF10 ≤ age ∧ d.hasHardfork 10)) then do
    let isSdb := oldReceives.symbol != symbolCoin
    let volume := if isSdb then newReceives else oldReceives
    let oldSeller ← d.getAccount oldOrder.seller
    let newSeller ← d.getAccount newOrder.seller
    let d ← d.adjustLiquidityReward oldSeller.id volume isSdb
    d.adjustLiquidityReward newSeller.id (← volume.neg) isSdb
  else return d

/- What the new and the old order receive at a match. -/
def matchAmounts (newForSale oldForSale : Asset) (price : Price) : Result (Asset × Asset) := do
  if ← newForSale.le (← oldForSale.mul price) then
    return (← newForSale.mul price, newForSale)
  else
    return (oldForSale, ← oldForSale.mul price)

/-- `match`: bit 0 is set where the new order left the book, bit 1 where the old one did. -/
def matchOrders (d : Database) (newId oldId : Nat) : Result (Database × Bool × Bool) := do
  let newOrder ← d.getLimitOrderById newId
  let oldOrder ← d.getLimitOrderById oldId
  let price := oldOrder.sellPrice
  let newForSale := newOrder.amountForSale
  let oldForSale := oldOrder.amountForSale
  let (newReceives, oldReceives) ← matchAmounts newForSale oldForSale price
  let d ← d.rewardLiquidity newOrder oldOrder newReceives oldReceives
  let (d, newGone) ← d.fillOrder newId oldReceives newReceives
  let (d, oldGone) ← d.fillOrder oldId newReceives oldReceives
  return (d, newGone, oldGone)

/- The matching goes on as long as only the old order was filled. -/
def matchLoop (newId : Nat) : List LimitOrder → Database → Result Database
  | [], d => .ok d
  | old :: rest, d => do
    let (d, newGone, _) ← d.matchOrders newId old.id
    if newGone then return d else matchLoop newId rest d

/- The orders of the book a new order may be matched with, in the order of `by_price`. -/
def candidates (d : Database) (sellPrice : Price) : List LimitOrder :=
  let maxPrice := sellPrice.inverse
  let first := Price.max maxPrice.base.symbol maxPrice.quote.symbol
  (d.limitOrders.rows.filter fun o =>
    !o.sellPrice.gt first && !maxPrice.gt o.sellPrice).insertionSort
      fun a b => a.sellPrice.gt b.sellPrice ∨ !b.sellPrice.gt a.sellPrice ∧ a.id ≤ b.id

/-- `apply_order`: whether the new order was filled -/
def applyOrder (d : Database) (id : Nat) : Result (Database × Bool) := do
  let order ← d.getLimitOrderById id
  let d ← matchLoop id (d.candidates order.sellPrice) d
  return (d, (d.limitOrders.find fun o => o.id == id).isNone)

/-- `clear_expired_orders` -/
def clearExpiredOrders (d : Database) : Result Database :=
  (sortOn (·.expiration) (·.id) (d.limitOrders.rows.filter fun o =>
    decide (o.expiration < d.headBlockTime))).foldlM (fun d o => d.cancelOrder o.id) d

end Database

end WeNode.Chain
