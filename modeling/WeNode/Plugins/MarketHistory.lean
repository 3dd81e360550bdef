import Mathlib.Algebra.Order.BigOperators.Group.List
import Mathlib.Data.List.Induction
import Mathlib.Data.Prod.Lex
import Mathlib.Tactic.Linarith
import Mathlib.Tactic.Ring
import WeNode.Chain.Asset
import WeNode.Chain.Objects
import WeNode.Lib.Attempts
import WeNode.Lib.FlatMap

/-!
# Market history

libraries/plugins/market_history/market_history_plugin.cpp (26-151) and market_history_plugin.hpp
(64-125): the fills of the internal market, summarised for windows of several sizes.
-/

namespace WeNode.Plugins

open WeNode.Lib WeNode.Chain

/-- `fill_order_operation` -/
structure FillOrderOperation where
  currentOwner : Name := 0
  currentOrderid : Nat := 0
  currentPays : Asset
  openOwner : Name := 0
  openOrderid : Nat := 0
  openPays : Asset
deriving DecidableEq

/-- `bucket_object`; `seconds` and `open` are its key. -/
structure Bucket where
  highTME : Int
  highTSD : Int
  lowTME : Int
  lowTSD : Int
  openTME : Int
  openTSD : Int
  closeTME : Int
  closeTSD : Int
  TMEvolume : Int
  TSDvolume : Int
deriving DecidableEq

/-- The objects of the plugin: `order_history_object` and `bucket_object`. -/
structure MarketHistory where
  orders : List (Time × FillOrderOperation) := []
  buckets : FlatMap (Nat ×ₗ Nat) Bucket := {}

/- No option sets these: those that the plugin looks for have other names than those it declares. -/
def trackedBuckets : List Nat := [15, 60, 300, 3600, 86400]
def maximumHistoryPerBucketSize : Nat := 1000

namespace FillOrderOperation

variable (o : FillOrderOperation)

/- The side of the trade that is paid in TME, and the other one. -/
def payTME : Asset := if o.openPays.symbol = symbolCoin then o.openPays else o.currentPays
def payTSD : Asset := if o.openPays.symbol = symbolCoin then o.currentPays else o.openPays

end FillOrderOperation

namespace Bucket

variable (b : Bucket) (o : FillOrderOperation)

def high : Price := ⟨.usd b.highTSD, .coin b.highTME⟩
def low : Price := ⟨.usd b.lowTSD, .coin b.lowTME⟩

def ofFill : Bucket where
  highTME := o.payTME.amount
  highTSD := o.payTSD.amount
  lowTME := o.payTME.amount
  lowTSD := o.payTSD.amount
  openTME := o.payTME.amount
  openTSD := o.payTSD.amount
  closeTME := o.payTME.amount
  closeTSD := o.payTSD.amount
  TMEvolume := o.payTME.amount
  TSDvolume := o.payTSD.amount

def raiseHigh : Bucket :=
  if b.high.lt ⟨o.payTSD, o.payTME⟩ then
    { b with highTME := o.payTME.amount, highTSD := o.payTSD.amount }
  else b

def reduceLow : Bucket :=
  if b.low.gt ⟨o.payTSD, o.payTME⟩ then
    { b with lowTME := o.payTME.amount, lowTSD := o.payTSD.amount }
  else b

def add : Attempt Bucket Bucket := do
  let volumeTME ← Attempt.orThrow (safeAdd b.TMEvolume o.payTME.amount) b
  let volumeTSD ← Attempt.orThrow (safeAdd b.TSDvolume o.payTSD.amount)
    { b with TMEvolume := volumeTME }
  let b := { b with
    TMEvolume := volumeTME
    TSDvolume := volumeTSD
    closeTME := o.payTME.amount
    closeTSD := o.payTSD.amount }
  return (b.raiseHigh o).reduceLow o

end Bucket

section Update

variable (now : Time) (o : FillOrderOperation)

/- The time as seconds of 32 bits -/
def cutoff (bucket : Nat) : Nat :=
  (((now : Int) - (bucket * maximumHistoryPerBucketSize % two32 : Nat)) % (two32 : Int)).toNat

def openOf (bucket : Nat) : Nat := now / bucket * bucket

def updateBucket (m : FlatMap (Nat ×ₗ Nat) Bucket) (bucket : Nat) :
    Attempt (FlatMap (Nat ×ₗ Nat) Bucket) (FlatMap (Nat ×ₗ Nat) Bucket) :=
  let key := toLex (bucket, openOf now bucket)
  match m.get key with
  | none => .ok (m.insert (key, .ofFill o))
  | some b =>
    match b.add o with
    | .error left => .error (left.map fun b => m.set key b)
    | .ok b => .ok ((m.set key b).eraseWhile (toLex (bucket, 0)) fun k =>
        decide ((ofLex k).1 = bucket ∧ (ofLex k).2 < cutoff now bucket))

/-- `update_market_histories`, after an operation.  What the plugin throws is caught. -/
def MarketHistory.update (s : MarketHistory) : MarketHistory where
  orders := s.orders ++ [(now, o)]
  buckets := match (trackedBuckets.foldlM (updateBucket now o) s.buckets).left with
    | some m => m
    | none => s.buckets

end Update

/-- The market after fills at their times. -/
def MarketHistory.run (fills : List (Time × FillOrderOperation)) : MarketHistory :=
  fills.foldl (fun s f => s.update f.1 f.2) {}

/-! ### Fills and their summaries -/

/-- What is traded in a fill. -/
structure Fill where
  TME : Int
  TSD : Int
deriving DecidableEq

def FillOrderOperation.fill (o : FillOrderOperation) : Fill := ⟨o.payTME.amount, o.payTSD.amount⟩

/-- A fill of amounts, in one of the two directions. -/
structure FillOrderOperation.Trades (o : FillOrderOperation) : Prop where
  symbols : o.openPays.symbol = symbolCoin ∧ o.currentPays.symbol = symbolUsd ∨
    o.openPays.symbol = symbolUsd ∧ o.currentPays.symbol = symbolCoin
  openPays : 0 < o.openPays.amount ∧ o.openPays.amount ≤ int64Max
  currentPays : 0 < o.currentPays.amount ∧ o.currentPays.amount ≤ int64Max

instance (o : FillOrderOperation) : Decidable o.Trades :=
  decidable_of_iff ((o.openPays.symbol = symbolCoin ∧ o.currentPays.symbol = symbolUsd ∨
      o.openPays.symbol = symbolUsd ∧ o.currentPays.symbol = symbolCoin) ∧
    (0 < o.openPays.amount ∧ o.openPays.amount ≤ int64Max) ∧
    0 < o.currentPays.amount ∧ o.currentPays.amount ≤ int64Max)
    ⟨fun h => ⟨h.1, h.2.1, h.2.2⟩, fun h => ⟨h.symbols, h.openPays, h.currentPays⟩⟩

namespace Fill

def Positive (f : Fill) : Prop := (0 < f.TME ∧ f.TME ≤ int64Max) ∧ 0 < f.TSD ∧ f.TSD ≤ int64Max

/-- The TSD that a fill pays for a TME are not more than those of another. -/
def AtMost (f g : Fill) : Prop := f.TSD * g.TME ≤ g.TSD * f.TME

variable {f g h : Fill}

theorem AtMost.refl (f : Fill) : f.AtMost f := le_refl _

theorem not_atMost (h : ¬ f.AtMost g) : g.AtMost f := (not_le.1 h).le

theorem AtMost.trans (hfg : f.AtMost g) (hgh : g.AtMost h) (hf : f.Positive) (hg : g.Positive)
    (hh : h.Positive) : f.AtMost h := by
  have hstep : f.TSD * h.TME * g.TME ≤ h.TSD * f.TME * g.TME := by
    calc f.TSD * h.TME * g.TME = f.TSD * g.TME * h.TME := by ring
      _ ≤ g.TSD * f.TME * h.TME := mul_le_mul_of_nonneg_right hfg hh.1.1.le
      _ = g.TSD * h.TME * f.TME := by ring
      _ ≤ h.TSD * g.TME * f.TME := mul_le_mul_of_nonneg_right hgh hf.1.1.le
      _ = h.TSD * f.TME * g.TME := by ring
  exact le_of_mul_le_mul_right hstep hg.1.1

def price (f : Fill) : Price := ⟨.usd f.TSD, .coin f.TME⟩

theorem cross_price (hf : f.Positive) (hg : g.Positive) : Price.cross f.price g.price =
    ((g.TME * f.TSD).toNat, (f.TME * g.TSD).toNat) := by
  unfold Price.cross price
  exact Prod.ext (u128Mul_of_nonneg ⟨hg.1.1.le, hg.1.2⟩ ⟨hf.2.1.le, hf.2.2⟩)
    (u128Mul_of_nonneg ⟨hf.1.1.le, hf.1.2⟩ ⟨hg.2.1.le, hg.2.2⟩)

/- The comparison of prices in 128 bits is that of the fills. -/
theorem price_lt (hf : f.Positive) (hg : g.Positive) :
    f.price.lt g.price = true ↔ ¬ g.AtMost f := by
  have hpos := mul_pos hf.1.1 hg.2.1
  unfold Price.lt AtMost
  rw [cross_price hf hg]
  simp only [price, Asset.usd, Asset.coin, lt_irrefl, if_false, decide_eq_true_eq, not_le]
  rw [Int.toNat_lt_toNat hpos, mul_comm g.TME, mul_comm f.TME]

theorem price_gt (hf : f.Positive) (hg : g.Positive) :
    f.price.gt g.price = true ↔ ¬ f.AtMost g := by
  have hpos := mul_pos hg.1.1 hf.2.1
  have hle : f.price.le g.price = true ↔ f.AtMost g := by
    unfold Price.le Price.eq Price.lt AtMost
    rw [cross_price hf hg]
    simp only [price, Asset.usd, Asset.coin, lt_irrefl, if_false, beq_self_eq_true, Bool.true_and,
      Bool.or_eq_true, beq_iff_eq, decide_eq_true_eq]
    rw [mul_comm f.TSD, mul_comm g.TSD]
    omega
  unfold Price.gt
  rw [Bool.not_eq_true', ← hle, Bool.not_eq_true]

end Fill

theorem FillOrderOperation.Trades.fill {o : FillOrderOperation} (h : o.Trades) :
    o.payTME = .coin o.fill.TME ∧ o.payTSD = .usd o.fill.TSD ∧ o.fill.Positive := by
  unfold FillOrderOperation.fill FillOrderOperation.payTME FillOrderOperation.payTSD Fill.Positive
  rcases h.symbols with ⟨ho, hc⟩ | ⟨ho, hc⟩
  · rw [if_pos ho, if_pos ho]
    exact ⟨congrArg (Asset.mk o.openPays.amount) ho, congrArg (Asset.mk o.currentPays.amount) hc,
      h.openPays, h.currentPays⟩
  · have hne : o.openPays.symbol ≠ symbolCoin := by
      rw [ho]
      decide
    rw [if_neg hne, if_neg hne]
    exact ⟨congrArg (Asset.mk o.currentPays.amount) hc, congrArg (Asset.mk o.openPays.amount) ho,
      h.currentPays, h.openPays⟩

/-- A bucket says of some fills: how much was traded, the first and the last one, and ones of the
greatest and of the least price. -/
structure Bucket.Summarises (b : Bucket) (fills : List Fill) : Prop where
  TMEvolume : b.TMEvolume = (fills.map Fill.TME).sum
  TSDvolume : b.TSDvolume = (fills.map Fill.TSD).sum
  first : fills.head? = some ⟨b.openTME, b.openTSD⟩
  last : fills.getLast? = some ⟨b.closeTME, b.closeTSD⟩
  high : ⟨b.highTME, b.highTSD⟩ ∈ fills
  highest : ∀ f ∈ fills, f.AtMost ⟨b.highTME, b.highTSD⟩
  low : ⟨b.lowTME, b.lowTSD⟩ ∈ fills
  lowest : ∀ f ∈ fills, Fill.AtMost ⟨b.lowTME, b.lowTSD⟩ f

theorem amounts_nonneg {fills : List Fill} {amount : Fill → Int} (h : ∀ f ∈ fills, 0 ≤ amount f) :
    0 ≤ (fills.map amount).sum := by
  refine List.sum_nonneg fun x hx => ?_
  obtain ⟨f, hf, rfl⟩ := List.mem_map.1 hx
  exact h f hf

namespace Bucket

variable {b : Bucket} {o : FillOrderOperation} {fills : List Fill}

theorem ofFill_summarises (o : FillOrderOperation) : (ofFill o).Summarises [o.fill] where
  TMEvolume := (List.sum_singleton ..).symm
  TSDvolume := (List.sum_singleton ..).symm
  first := rfl
  last := rfl
  high := List.mem_singleton_self _
  highest _ hf := List.mem_singleton.1 hf ▸ Fill.AtMost.refl _
  low := List.mem_singleton_self _
  lowest _ hf := List.mem_singleton.1 hf ▸ Fill.AtMost.refl _

theorem safeAdd_nonneg {x y : Int} (hx : 0 ≤ x) (hy : 0 ≤ y) (h : x + y ≤ int64Max) :
    safeAdd x y = .ok (x + y) := by
  have hmin : ¬ x + y < int64Min := by
    unfold int64Min
    omega
  unfold safeAdd share
  rw [if_neg (not_lt.2 h), if_neg hmin]

theorem forall_with {P : Fill → Prop} {x : Fill} (h : ∀ f ∈ fills, P f) (hx : P x) :
    ∀ f ∈ fills ++ [x], P f :=
  List.forall_mem_append.2 ⟨h, List.forall_mem_singleton.2 hx⟩

theorem add_summarises (h : b.Summarises fills) (hpos : ∀ f ∈ fills, f.Positive) (ho : o.Trades)
    (hTME : ((fills ++ [o.fill]).map Fill.TME).sum ≤ int64Max)
    (hTSD : ((fills ++ [o.fill]).map Fill.TSD).sum ≤ int64Max) :
    ∃ b', b.add o = .ok b' ∧ b'.Summarises (fills ++ [o.fill]) := by
  obtain ⟨hpayTME, hpayTSD, hfill⟩ := ho.fill
  have hsumTME : ((fills ++ [o.fill]).map Fill.TME).sum = b.TMEvolume + o.payTME.amount := by
    simp [h.TMEvolume, hpayTME, Asset.coin]
  have hsumTSD : ((fills ++ [o.fill]).map Fill.TSD).sum = b.TSDvolume + o.payTSD.amount := by
    simp [h.TSDvolume, hpayTSD, Asset.usd]
  have hvolumeTME : 0 ≤ b.TMEvolume := by
    rw [h.TMEvolume]
    exact amounts_nonneg fun f hf => (hpos f hf).1.1.le
  have hvolumeTSD : 0 ≤ b.TSDvolume := by
    rw [h.TSDvolume]
    exact amounts_nonneg fun f hf => (hpos f hf).2.1.le
  have hTME' : safeAdd b.TMEvolume o.payTME.amount = .ok (b.TMEvolume + o.payTME.amount) :=
    safeAdd_nonneg hvolumeTME hfill.1.1.le (hsumTME ▸ hTME)
  have hTSD' : safeAdd b.TSDvolume o.payTSD.amount = .ok (b.TSDvolume + o.payTSD.amount) :=
    safeAdd_nonneg hvolumeTSD hfill.2.1.le (hsumTSD ▸ hTSD)
  have hfirst : (fills ++ [o.fill]).head? = some ⟨b.openTME, b.openTSD⟩ := by
    rw [List.head?_append, h.first]
    rfl
  have hlast : (fills ++ [o.fill]).getLast? = some ⟨o.payTME.amount, o.payTSD.amount⟩ :=
    List.getLast?_concat
  have hprice : (⟨o.payTSD, o.payTME⟩ : Price) = o.fill.price := by
    rw [hpayTME, hpayTSD]
    rfl
  have hnew : o.fill ∈ fills ++ [o.fill] := List.mem_append_right _ (List.mem_singleton_self _)
  have hgreatest : b.high.lt ⟨o.payTSD, o.payTME⟩ = true ↔ ¬ o.fill.AtMost ⟨b.highTME, b.highTSD⟩ := by
    rw [hprice, show b.high = Fill.price ⟨b.highTME, b.highTSD⟩ from rfl]
    exact Fill.price_lt (hpos _ h.high) hfill
  have hleast : b.low.gt ⟨o.payTSD, o.payTME⟩ = true ↔
      ¬ Fill.AtMost ⟨b.lowTME, b.lowTSD⟩ o.fill := by
    rw [hprice, show b.low = Fill.price ⟨b.lowTME, b.lowTSD⟩ from rfl]
    exact Fill.price_gt (hpos _ h.low) hfill
  refine ⟨((Bucket.mk b.highTME b.highTSD b.lowTME b.lowTSD b.openTME b.openTSD o.payTME.amount
    o.payTSD.amount (b.TMEvolume + o.payTME.amount)
    (b.TSDvolume + o.payTSD.amount)).raiseHigh o).reduceLow o, ?_, ?_⟩
  · unfold add
    rw [hTME', hTSD']
    rfl
  · have hold : ∀ f ∈ fills, f ∈ fills ++ [o.fill] := fun f => List.mem_append_left _
    have hnewLow : ¬ Fill.AtMost ⟨b.lowTME, b.lowTSD⟩ o.fill →
        ∀ f ∈ fills ++ [o.fill], o.fill.AtMost f := fun hn =>
      forall_with (fun f hf => (Fill.not_atMost hn).trans (h.lowest f hf) hfill (hpos _ h.low)
        (hpos f hf)) (.refl _)
    unfold raiseHigh
    split
    · next hc =>
      have hhigh : ∀ f ∈ fills ++ [o.fill], f.AtMost o.fill :=
        forall_with (fun f hf => (h.highest f hf).trans (Fill.not_atMost (hgreatest.1 hc))
          (hpos f hf) (hpos _ h.high) hfill) (.refl _)
      unfold reduceLow
      split
      · next hc' =>
        exact ⟨hsumTME.symm, hsumTSD.symm, hfirst, hlast, hnew, hhigh, hnew, hnewLow (hleast.1 hc')⟩
      · next hc' =>
        exact ⟨hsumTME.symm, hsumTSD.symm, hfirst, hlast, hnew, hhigh, hold _ h.low,
          forall_with h.lowest (not_not.1 (mt hleast.2 hc'))⟩
    · next hc =>
      have hhigh : ∀ f ∈ fills ++ [o.fill], f.AtMost ⟨b.highTME, b.highTSD⟩ :=
        forall_with h.highest (not_not.1 (mt hgreatest.2 hc))
      unfold reduceLow
      split
      · next hc' =>
        exact ⟨hsumTME.symm, hsumTSD.symm, hfirst, hlast, hold _ h.high, hhigh, hnew,
          hnewLow (hleast.1 hc')⟩
      · next hc' =>
        exact ⟨hsumTME.symm, hsumTSD.symm, hfirst, hlast, hold _ h.high, hhigh, hold _ h.low,
          forall_with h.lowest (not_not.1 (mt hleast.2 hc'))⟩

end Bucket

/-! ### Windows -/

/-- The fills from the start of a window on and before its end. -/
def fillsIn (fills : List (Time × FillOrderOperation)) (seconds start : Nat) : List Fill :=
  (fills.filter fun f => decide (start ≤ f.1 ∧ f.1 < start + seconds)).map fun f => f.2.fill

section Windows

variable {fills : List (Time × FillOrderOperation)} {m : FlatMap (Nat ×ₗ Nat) Bucket}
  {o : FillOrderOperation} {now seconds start : Nat}

theorem fillsIn_append (fills fills' : List (Time × FillOrderOperation)) (seconds start : Nat) :
    fillsIn (fills ++ fills') seconds start =
      fillsIn fills seconds start ++ fillsIn fills' seconds start := by
  unfold fillsIn
  rw [List.filter_append, List.map_append]

theorem openOf_le : openOf now seconds ≤ now := Nat.div_mul_le_self now seconds

theorem dvd_openOf : seconds ∣ openOf now seconds := Nat.dvd_mul_left seconds (now / seconds)

theorem lt_openOf (hs : 0 < seconds) : now < openOf now seconds + seconds := Nat.lt_div_mul_add hs

/- A fill is in one of the windows of a size. -/
theorem fillsIn_append_fill (hs : 0 < seconds) (hd : seconds ∣ start) :
    fillsIn (fills ++ [(now, o)]) seconds start =
      fillsIn fills seconds start ++ if start = openOf now seconds then [o.fill] else [] := by
  rw [fillsIn_append]
  refine congrArg (fillsIn fills seconds start ++ ·) ?_
  have hiff : start ≤ now ∧ now < start + seconds ↔ start = openOf now seconds := by
    refine ⟨fun h => ?_, fun h => h ▸ ⟨openOf_le, lt_openOf hs⟩⟩
    obtain ⟨c, rfl⟩ := hd
    have hdiv : now / seconds = c := by
      refine Nat.div_eq_of_lt_le ?_ ?_
      · rw [mul_comm]
        exact h.1
      · rw [mul_comm, mul_add_one]
        exact h.2
    rw [openOf, hdiv, mul_comm]
  unfold fillsIn
  split
  · next h => simp [hiff.2 h]
  · next h => simp [mt hiff.1 h]

theorem fillsIn_positive (h : ∀ f ∈ fills, f.2.Trades) :
    ∀ f ∈ fillsIn fills seconds start, f.Positive := by
  intro f hf
  obtain ⟨g, hg, rfl⟩ := List.mem_map.1 hf
  exact (h g (List.mem_of_mem_filter hg)).fill.2.2

theorem cutoff_eq (h : seconds * 1000 ≤ now) (hnow : now < two32) :
    cutoff now seconds = now - seconds * 1000 := by
  unfold two32 at hnow
  have hlength : seconds * maximumHistoryPerBucketSize % two32 = seconds * 1000 :=
    Nat.mod_eq_of_lt (h.trans_lt hnow)
  have hsub : ((now : Int) - (seconds * 1000 : Nat)) % (two32 : Int) = now - (seconds * 1000 : Nat) := by
    refine Int.emod_eq_of_lt (by omega) ?_
    unfold two32
    omega
  unfold cutoff
  rw [hlength, hsub]
  exact Int.toNat_sub now (seconds * 1000)

/-! ### The buckets of one size -/

/-- The buckets of a size are summaries of their windows, and none is missing from the last cutoff
on. -/
structure Keeps (fills : List (Time × FillOrderOperation)) (m : FlatMap (Nat ×ₗ Nat) Bucket)
    (seconds : Nat) : Prop where
  summaries : ∀ start b, m.get (toLex (seconds, start)) = some b →
    seconds ∣ start ∧ b.Summarises (fillsIn fills seconds start)
  stored : ∀ start, seconds ∣ start → fillsIn fills seconds start ≠ [] →
    (∀ f ∈ fills.getLast?, cutoff f.1 seconds ≤ start) → (m.get (toLex (seconds, start))).isSome

/-- No bucket of the size is lost from a time on. -/
def Retains (m m' : FlatMap (Nat ×ₗ Nat) Bucket) (seconds time : Nat) : Prop :=
  ∀ start, (m.get (toLex (seconds, start))).isSome → time ≤ start →
    (m'.get (toLex (seconds, start))).isSome

/-- The fills go on with one more, which is not too much for its bucket of the size. -/
structure Continues (fills : List (Time × FillOrderOperation)) (now : Time)
    (o : FillOrderOperation) (seconds : Nat) : Prop where
  size : 0 < seconds
  first : ∀ f ∈ fills, seconds * 1000 ≤ f.1
  order : ∀ f ∈ fills, f.1 ≤ now
  span : seconds * 1000 ≤ now ∧ now < two32
  trades : (∀ f ∈ fills, f.2.Trades) ∧ o.Trades
  TME : ((fillsIn fills seconds (openOf now seconds) ++ [o.fill]).map Fill.TME).sum ≤ int64Max
  TSD : ((fillsIn fills seconds (openOf now seconds) ++ [o.fill]).map Fill.TSD).sum ≤ int64Max

theorem Keeps.congr {m' : FlatMap (Nat ×ₗ Nat) Bucket} (h : Keeps fills m seconds)
    (hsame : ∀ start, m'.get (toLex (seconds, start)) = m.get (toLex (seconds, start))) :
    Keeps fills m' seconds where
  summaries start := by
    rw [hsame]
    exact h.summaries start
  stored start := by
    rw [hsame]
    exact h.stored start

/- The cutoff of the last fill is before that of the next one. -/
theorem Continues.cutoff_le (h : Continues fills now o seconds) {f : Time × FillOrderOperation}
    (hf : f ∈ fills) : cutoff f.1 seconds ≤ cutoff now seconds := by
  have hle := h.order f hf
  rw [cutoff_eq (h.first f hf) (hle.trans_lt h.span.2), cutoff_eq h.span.1 h.span.2]
  exact Nat.sub_le_sub_right hle _

/- The bucket of the moment is after every cutoff. -/
theorem Continues.cutoff_le_open (h : Continues fills now o seconds) :
    cutoff now seconds ≤ openOf now seconds := by
  have hlt : now < openOf now seconds + seconds := lt_openOf h.size
  have hsize := h.size
  rw [cutoff_eq h.span.1 h.span.2]
  omega

/- A bucket that is not there is of a window without fills. -/
theorem Keeps.none_before (h : Keeps fills m seconds) (hc : Continues fills now o seconds)
    (hnone : m.get (toLex (seconds, openOf now seconds)) = none) :
    fillsIn fills seconds (openOf now seconds) = [] := by
  by_contra hne
  have hsome := h.stored (openOf now seconds) dvd_openOf hne fun f hf =>
    (hc.cutoff_le (List.mem_of_getLast? hf)).trans hc.cutoff_le_open
  rw [hnone] at hsome
  cases hsome

/- What the loop erases are the buckets of the size before the cutoff. -/
theorem get_erased {time : Nat} {k : Nat ×ₗ Nat} :
    (m.eraseWhile (toLex (seconds, 0)) fun k =>
      decide ((ofLex k).1 = seconds ∧ (ofLex k).2 < time)).get k =
      if (ofLex k).1 = seconds ∧ (ofLex k).2 < time then none else m.get k := by
  have hdown : ∀ i j : Nat ×ₗ Nat, toLex (seconds, 0) ≤ i → i < j →
      decide ((ofLex j).1 = seconds ∧ (ofLex j).2 < time) = true →
        decide ((ofLex i).1 = seconds ∧ (ofLex i).2 < time) = true := by
    intro i j hi hij hj
    obtain ⟨hj₁, hj₂⟩ := of_decide_eq_true hj
    rw [Prod.Lex.le_iff] at hi
    rw [Prod.Lex.lt_iff] at hij
    simp only [ofLex_toLex] at hi
    exact decide_eq_true (by omega)
  rw [FlatMap.get_eraseWhile hdown]
  refine if_congr ?_ rfl rfl
  rw [decide_eq_true_eq]
  refine and_iff_right_of_imp fun hk => ?_
  rw [Prod.Lex.le_iff]
  simp only [ofLex_toLex]
  omega

/- What is asked of the buckets of a size after a fill. -/
theorem Keeps.of_get {m' : FlatMap (Nat ×ₗ Nat) Bucket} {b : Bucket} (h : Keeps fills m seconds)
    (hc : Continues fills now o seconds)
    (hown : m'.get (toLex (seconds, openOf now seconds)) = some b)
    (hb : b.Summarises (fillsIn fills seconds (openOf now seconds) ++ [o.fill]))
    (hrest : ∀ start, start ≠ openOf now seconds →
      m'.get (toLex (seconds, start)) = m.get (toLex (seconds, start)) ∨
        start < cutoff now seconds ∧ m'.get (toLex (seconds, start)) = none) :
    Keeps (fills ++ [(now, o)]) m' seconds ∧ Retains m m' seconds (cutoff now seconds) := by
  refine ⟨⟨fun start c hget => ?_, fun start hd hne hcut => ?_⟩, fun start hsome hcut => ?_⟩
  · by_cases hs : start = openOf now seconds
    · subst hs
      rw [hown] at hget
      cases hget
      rw [fillsIn_append_fill hc.size dvd_openOf, if_pos rfl]
      exact ⟨dvd_openOf, hb⟩
    · rcases hrest start hs with he | ⟨-, he⟩
      · rw [he] at hget
        obtain ⟨hd, hsum⟩ := h.summaries start c hget
        rw [fillsIn_append_fill hc.size hd, if_neg hs, List.append_nil]
        exact ⟨hd, hsum⟩
      · rw [he] at hget
        cases hget
  · have hcut' : cutoff now seconds ≤ start := hcut (now, o) List.getLast?_concat
    by_cases hs : start = openOf now seconds
    · rw [hs, hown]
      rfl
    · rw [fillsIn_append_fill hc.size hd, if_neg hs, List.append_nil] at hne
      have hsome := h.stored start hd hne fun f hf =>
        (hc.cutoff_le (List.mem_of_getLast? hf)).trans hcut'
      rcases hrest start hs with he | ⟨hlt, -⟩
      · rwa [he]
      · exact absurd hlt (not_lt.2 hcut')
  · by_cases hs : start = openOf now seconds
    · rw [hs, hown]
      rfl
    · rcases hrest start hs with he | ⟨hlt, -⟩
      · rwa [he]
      · exact absurd hlt (not_lt.2 hcut)

/- One fill in the buckets of one size. -/
theorem Keeps.update (h : Keeps fills m seconds) (hc : Continues fills now o seconds) :
    ∃ m', updateBucket now o m seconds = .ok m' ∧
      (Keeps (fills ++ [(now, o)]) m' seconds ∧ Retains m m' seconds (cutoff now seconds)) ∧
      ∀ k, (ofLex k).1 ≠ seconds → m'.get k = m.get k := by
  have hkey : ∀ {start}, start ≠ openOf now seconds →
      toLex (seconds, start) ≠ toLex (seconds, openOf now seconds) := fun hne he =>
    hne (Prod.mk.inj (toLex.injective he)).2
  have hsize : ∀ {k : Nat ×ₗ Nat}, (ofLex k).1 ≠ seconds →
      k ≠ toLex (seconds, openOf now seconds) := fun hne he => hne (he ▸ rfl)
  cases hget : m.get (toLex (seconds, openOf now seconds)) with
  | none =>
    have hins := FlatMap.get_insert (b := Bucket.ofFill o) hget
    refine ⟨m.insert (toLex (seconds, openOf now seconds), .ofFill o), ?_,
      h.of_get (b := .ofFill o) hc ?_ ?_ ?_, ?_⟩
    · unfold updateBucket
      simp only [hget]
    · rw [hins, if_pos rfl]
    · rw [h.none_before hc hget]
      exact Bucket.ofFill_summarises o
    · intro start hs
      rw [hins, if_neg (hkey hs)]
      exact Or.inl rfl
    · intro k hk
      rw [hins, if_neg (hsize hk)]
  | some b =>
    obtain ⟨b', hadd, hsum⟩ := Bucket.add_summarises (h.summaries _ _ hget).2
      (fillsIn_positive hc.trades.1) hc.trades.2 hc.TME hc.TSD
    have hset := FlatMap.get_set (b := b') hget
    refine ⟨(m.set (toLex (seconds, openOf now seconds)) b').eraseWhile (toLex (seconds, 0)) fun k =>
      decide ((ofLex k).1 = seconds ∧ (ofLex k).2 < cutoff now seconds), ?_, h.of_get hc ?_ hsum ?_, ?_⟩
    · unfold updateBucket
      simp only [hget, hadd]
    · have hkept : ¬ ((ofLex (toLex (seconds, openOf now seconds))).1 = seconds ∧
          (ofLex (toLex (seconds, openOf now seconds))).2 < cutoff now seconds) := fun hlt =>
        absurd hc.cutoff_le_open (not_le.2 hlt.2)
      rw [get_erased, if_neg hkept, hset, if_pos rfl]
    · intro start hs
      rw [get_erased, hset, if_neg (hkey hs)]
      split
      · next hlt => exact Or.inr ⟨hlt.2, rfl⟩
      · exact Or.inl rfl
    · intro k hk
      rw [get_erased, if_neg (fun hlt => hk hlt.1), hset, if_neg (hsize hk)]

/-! ### All sizes -/

/- One fill in the buckets of every size of a list. -/
theorem update_all {sizes : List Nat} (hn : sizes.Nodup)
    (h : ∀ s ∈ sizes, Keeps fills m s ∧ Continues fills now o s) :
    ∃ m', sizes.foldlM (updateBucket now o) m = .ok m' ∧
      (∀ s ∈ sizes, Keeps (fills ++ [(now, o)]) m' s ∧ Retains m m' s (cutoff now s)) ∧
      ∀ k, (ofLex k).1 ∉ sizes → m'.get k = m.get k := by
  induction sizes generalizing m with
  | nil => exact ⟨m, rfl, nofun, fun _ _ => rfl⟩
  | cons s sizes ih =>
    obtain ⟨hs, hn⟩ := List.nodup_cons.1 hn
    obtain ⟨hkeeps, hc⟩ := h s (List.mem_cons_self ..)
    obtain ⟨m₁, hm₁, ⟨hkeeps₁, hretains₁⟩, hsame₁⟩ := hkeeps.update hc
    have hbefore : ∀ s' ∈ sizes, ∀ start,
        m₁.get (toLex (s', start)) = m.get (toLex (s', start)) :=
      fun s' hs' start => hsame₁ _ fun he => hs (he ▸ hs')
    obtain ⟨m₂, hm₂, hall, hsame₂⟩ := ih hn fun s' hs' =>
      ⟨(h s' (List.mem_cons_of_mem s hs')).1.congr (hbefore s' hs'),
        (h s' (List.mem_cons_of_mem s hs')).2⟩
    have hafter : ∀ start, m₂.get (toLex (s, start)) = m₁.get (toLex (s, start)) :=
      fun start => hsame₂ _ hs
    refine ⟨m₂, ?_, fun s' hs' => ?_, fun k hk => ?_⟩
    · rw [List.foldlM_cons, hm₁]
      exact hm₂
    · rcases List.mem_cons.1 hs' with rfl | hs'
      · refine ⟨hkeeps₁.congr hafter, fun start hsome hcut => ?_⟩
        rw [hafter]
        exact hretains₁ start hsome hcut
      · refine ⟨(hall s' hs').1, fun start hsome hcut => ?_⟩
        exact (hall s' hs').2 start (hbefore s' hs' start ▸ hsome) hcut
    · rw [hsame₂ k fun hmem => hk (List.mem_cons_of_mem s hmem),
        hsame₁ k fun he => hk (he ▸ List.mem_cons_self ..)]

end Windows

/-- Fills at the times of a chain, with volumes that fit into the buckets. -/
structure Orderly (fills : List (Time × FillOrderOperation)) : Prop where
  order : fills.Pairwise fun f g => f.1 ≤ g.1
  times : ∀ f ∈ fills, genesisTime ≤ f.1 ∧ f.1 < two32
  trades : ∀ f ∈ fills, f.2.Trades
  volumes : ∀ s ∈ trackedBuckets, ∀ start, s ∣ start →
    ((fillsIn fills s start).map Fill.TME).sum ≤ int64Max ∧
      ((fillsIn fills s start).map Fill.TSD).sum ≤ int64Max

namespace Orderly

variable {fills fills' : List (Time × FillOrderOperation)} {f : Time × FillOrderOperation} {s : Nat}

theorem of_append (h : Orderly (fills ++ fills')) : Orderly fills where
  order := (List.pairwise_append.1 h.order).1
  times f hf := h.times f (List.mem_append_left _ hf)
  trades f hf := h.trades f (List.mem_append_left _ hf)
  volumes s hs start hd := by
    have hpos : ∀ f ∈ fillsIn fills' s start, f.Positive :=
      fillsIn_positive fun f hf => h.trades f (List.mem_append_right _ hf)
    have hTME := amounts_nonneg fun f hf => (hpos f hf).1.1.le
    have hTSD := amounts_nonneg fun f hf => (hpos f hf).2.1.le
    have hsum := h.volumes s hs start hd
    rw [fillsIn_append, List.map_append, List.map_append, List.sum_append, List.sum_append] at hsum
    omega

/- Of every size, the greatest of which goes back less far than the genesis. -/
theorem continues (h : Orderly (fills ++ [f])) (hs : s ∈ trackedBuckets) :
    Continues fills f.1 f.2 s := by
  have hsize : 0 < s ∧ s * 1000 ≤ genesisTime := by
    revert s
    decide
  obtain ⟨now, o⟩ := f
  have hmem : (now, o) ∈ fills ++ [(now, o)] := List.mem_append_right _ (List.mem_singleton_self _)
  have hsum := h.volumes s hs (openOf now s) dvd_openOf
  rw [fillsIn_append_fill hsize.1 dvd_openOf, if_pos rfl] at hsum
  refine ⟨hsize.1, fun g hg => ?_, fun g hg => ?_, ?_, ?_, hsum.1, hsum.2⟩
  · exact hsize.2.trans (h.times g (List.mem_append_left _ hg)).1
  · exact (List.pairwise_append.1 h.order).2.2 g hg _ (List.mem_singleton_self _)
  · exact ⟨hsize.2.trans (h.times _ hmem).1, (h.times _ hmem).2⟩
  · exact ⟨fun g hg => h.trades g (List.mem_append_left _ hg), h.trades _ hmem⟩

end Orderly

/-! ### The market -/

section Market

variable {fills : List (Time × FillOrderOperation)} {f : Time × FillOrderOperation}

/-- The buckets after fills: those of every size, and no others. -/
structure Kept (fills : List (Time × FillOrderOperation)) (m : FlatMap (Nat ×ₗ Nat) Bucket) :
    Prop where
  sizes : ∀ s ∈ trackedBuckets, Keeps fills m s
  others : ∀ k, (ofLex k).1 ∉ trackedBuckets → m.get k = none

theorem Kept.update {s : MarketHistory} (h : Kept fills s.buckets) (ho : Orderly (fills ++ [f])) :
    Kept (fills ++ [f]) (s.update f.1 f.2).buckets ∧ ∀ seconds ∈ trackedBuckets,
      Retains s.buckets (s.update f.1 f.2).buckets seconds (cutoff f.1 seconds) := by
  have hn : trackedBuckets.Nodup := by decide
  obtain ⟨m, hm, hall, hsame⟩ := update_all hn fun size hs => ⟨h.sizes size hs, ho.continues hs⟩
  have hbuckets : (s.update f.1 f.2).buckets = m := by
    unfold MarketHistory.update
    simp only [hm, Attempt.left]
  rw [hbuckets]
  refine ⟨⟨fun size hs => (hall size hs).1, fun k hk => ?_⟩, fun size hs => (hall size hs).2⟩
  rw [hsame k hk]
  exact h.others k hk

theorem run_append : MarketHistory.run (fills ++ [f]) = (MarketHistory.run fills).update f.1 f.2 := by
  unfold MarketHistory.run
  rw [List.foldl_append]
  rfl

theorem run_kept (h : Orderly fills) : Kept fills (MarketHistory.run fills).buckets := by
  induction fills using List.reverseRecOn with
  | nil => exact ⟨fun _ _ => ⟨nofun, fun _ _ hne => absurd rfl hne⟩, fun _ _ => rfl⟩
  | append_singleton fills f ih =>
    rw [run_append]
    exact ((ih h.of_append).update h).1

/-- Of fills whose volumes fit into the buckets: every bucket is the summary of exactly the fills of
its window, there is one for every window with a fill from the last cutoff on, and a fill removes
only buckets before its own cutoff. -/
theorem market_history (h : Orderly fills) :
    (∀ seconds start b,
      (MarketHistory.run fills).buckets.get (toLex (seconds, start)) = some b →
        seconds ∈ trackedBuckets ∧ seconds ∣ start ∧ b.Summarises (fillsIn fills seconds start)) ∧
    (∀ seconds ∈ trackedBuckets, ∀ start, seconds ∣ start → fillsIn fills seconds start ≠ [] →
      (∀ f ∈ fills.getLast?, cutoff f.1 seconds ≤ start) →
        ((MarketHistory.run fills).buckets.get (toLex (seconds, start))).isSome) ∧
    ∀ pre f post, fills = pre ++ f :: post → ∀ seconds start,
      ((MarketHistory.run pre).buckets.get (toLex (seconds, start))).isSome →
        cutoff f.1 seconds ≤ start →
          ((MarketHistory.run (pre ++ [f])).buckets.get (toLex (seconds, start))).isSome := by
  have hkept := run_kept h
  have htracked : ∀ {m fills}, Kept fills m → ∀ seconds start,
      (m.get (toLex (seconds, start))).isSome → seconds ∈ trackedBuckets := by
    intro m fills hm seconds start hsome
    by_contra hnot
    rw [hm.others (toLex (seconds, start)) hnot] at hsome
    cases hsome
  refine ⟨fun seconds start b hb => ?_, fun seconds hs => (hkept.sizes seconds hs).stored, ?_⟩
  · have hs := htracked hkept seconds start (Option.isSome_of_mem hb)
    exact ⟨hs, (hkept.sizes seconds hs).summaries start b hb⟩
  · rintro pre f post rfl seconds start hsome hcut
    have hsplit : Orderly ((pre ++ [f]) ++ post) := by simpa using h
    have hpre := hsplit.of_append
    have hbefore := run_kept hpre.of_append
    rw [run_append]
    exact (hbefore.update hpre).2 seconds (htracked hbefore seconds start hsome) start hsome hcut

/- Two fills of a minute, one in each direction. -/
def sale : Time × FillOrderOperation :=
  (1548124980, { currentPays := .usd 3000, openPays := .coin 1000 })

def purchase : Time × FillOrderOperation :=
  (1548125000, { currentPays := .coin 2000, openPays := .usd 5000 })

theorem market_history_demo :
    ∃ b, (MarketHistory.run [sale, purchase]).buckets.get (toLex (60, 1548124980)) = some b ∧
      b.Summarises [⟨1000, 3000⟩, ⟨2000, 5000⟩] := by
  have hvolumes : ∀ s start, ((fillsIn [sale, purchase] s start).map Fill.TME).sum ≤ int64Max ∧
      ((fillsIn [sale, purchase] s start).map Fill.TSD).sum ≤ int64Max := by
    intro s start
    unfold fillsIn
    rw [List.filter_cons, List.filter_cons, List.filter_nil]
    split <;> split <;> decide
  have horderly : Orderly [sale, purchase] :=
    ⟨by decide, by decide, by decide, fun s _ start _ => hvolumes s start⟩
  obtain ⟨hsummaries, hstored, -⟩ := market_history horderly
  obtain ⟨b, hb⟩ := Option.isSome_iff_exists.1
    (hstored 60 (by decide) 1548124980 (by decide) (by decide) (by decide))
  exact ⟨b, hb, (hsummaries 60 1548124980 b hb).2.2⟩

/-- A fill of 2^62 TME. -/
def great (now : Time) (TSD : Int) : Time × FillOrderOperation :=
  (now, { currentPays := .usd TSD, openPays := .coin 4611686018427387904 })

/-- Two fills whose volumes do not fit: the addition throws, and the bucket stays that of the first. -/
theorem volumes_overflow :
    (∀ f ∈ [great 1548124980 1, great 1548124981 2], f.2.Trades) ∧
    ∃ b, (MarketHistory.run [great 1548124980 1, great 1548124981 2]).buckets.get
        (toLex (15, 1548124980)) = some b ∧
      ¬ b.Summarises (fillsIn [great 1548124980 1, great 1548124981 2] 15 1548124980) := by
  have hb : (MarketHistory.run [great 1548124980 1, great 1548124981 2]).buckets.get
      (toLex (15, 1548124980)) = some (.ofFill (great 1548124980 1).2) := by decide
  refine ⟨by decide, _, hb, fun h => ?_⟩
  exact absurd h.TMEvolume (by decide)

end Market

end WeNode.Plugins
