import WeNode.Chain.Arithmetic
import WeNode.Chain.Config

/-!
# Assets and prices

libraries/protocol/include/node/protocol/asset.hpp, libraries/protocol/asset.cpp (116-185) and
libraries/chain/include/node/chain/util/asset.hpp.
-/

namespace WeNode.Chain

/- `SYMBOL_COIN`, `SYMBOL_USD` and `SYMBOL_SCORE`: the number of decimals, then the letters -/
def symbolCoin : Nat := 0x454d5403
def symbolUsd : Nat := 0x44535403
def symbolScore : Nat := 0x45524f435306

structure Asset where
  amount : Int
  symbol : Nat
deriving DecidableEq, Repr

structure Price where
  base : Asset
  quote : Asset
deriving DecidableEq, Repr

def Asset.coin (amount : Int) : Asset := ⟨amount, symbolCoin⟩
def Asset.usd (amount : Int) : Asset := ⟨amount, symbolUsd⟩
def Asset.score (amount : Int) : Asset := ⟨amount, symbolScore⟩

/- The letters of a symbol up to the first zero byte. -/
def symbolLetters : Nat → Nat → List Nat
  | 0, _ => []
  | fuel + 1, n => if n % 256 = 0 then [] else n % 256 :: symbolLetters fuel (n / 256)

/-- `symbol_name` -/
def symbolName (symbol : Nat) : Result (List Nat) := do
  require (symbol / 2 ^ 56 = 0) "a[7] == 0"
  return symbolLetters 6 (symbol / 256)

namespace Asset

def add (a b : Asset) : Result Asset := do
  require (a.symbol = b.symbol) "symbol == o.symbol"
  return ⟨← safeAdd a.amount b.amount, a.symbol⟩

def sub (a b : Asset) : Result Asset := do
  require (a.symbol = b.symbol) "symbol == o.symbol"
  return ⟨← safeSub a.amount b.amount, a.symbol⟩

def neg (a : Asset) : Result Asset := do
  return ⟨← safeNeg a.amount, a.symbol⟩

/- `a < b`; the comparison throws where the symbols differ. -/
def lt (a b : Asset) : Result Bool := do
  require (a.symbol = b.symbol) "a.symbol == b.symbol"
  return decide (a.amount < b.amount)

def le (a b : Asset) : Result Bool :=
  if a = b then .ok true else a.lt b

def ge (a b : Asset) : Result Bool := do
  return !(← a.lt b)

def gt (a b : Asset) : Result Bool := do
  return !(← a.le b)

end Asset

namespace Price

/- `price()`, and `~p` -/
def null : Price := ⟨.coin 0, .coin 0⟩
def inverse (p : Price) : Price := ⟨p.quote, p.base⟩

/- The cross products that the comparisons compare. -/
def cross (a b : Price) : Nat × Nat :=
  (u128Mul (u128 b.quote.amount) (u128 a.base.amount),
    u128Mul (u128 a.quote.amount) (u128 b.base.amount))

def eq (a b : Price) : Bool :=
  a.base.symbol == b.base.symbol && a.quote.symbol == b.quote.symbol &&
    (cross a b).1 == (cross a b).2

def lt (a b : Price) : Bool :=
  if a.base.symbol < b.base.symbol then true
  else if b.base.symbol < a.base.symbol then false
  else if a.quote.symbol < b.quote.symbol then true
  else if b.quote.symbol < a.quote.symbol then false
  else decide ((cross a b).1 < (cross a b).2)

def le (a b : Price) : Bool := eq a b || lt a b
def gt (a b : Price) : Bool := !le a b

def isNull (p : Price) : Bool := eq p null

/- `price::max` -/
def max (base quote : Nat) : Price := ⟨⟨maxSCOREsupply, base⟩, ⟨1, quote⟩⟩

def validate (p : Price) : Result Unit := do
  require (0 < p.base.amount) "base.amount > share_type(0)"
  require (0 < p.quote.amount) "quote.amount > share_type(0)"
  let base ← symbolName p.base.symbol
  let quote ← symbolName p.quote.symbol
  require (base ≠ quote) "base.symbol_name() != quote.symbol_name()"

end Price

/- `base / quote` -/
def Asset.div (base quote : Asset) : Result Price := do
  let b ← symbolName base.symbol
  let q ← symbolName quote.symbol
  require (b ≠ q) "base.symbol_name() != quote.symbol_name()"
  return ⟨base, quote⟩

/- The amount `a * num / den` in 128 bits; `asset( result.to_uint64(), .. )` keeps 64 of them. -/
def convert (a num den : Int) : Result Int := do
  require (0 < den) "amount.value > 0"
  let result ← u128Div (u128Mul (u128 a) (u128 num)) (u128 den)
  require (result < two64) "result.hi == 0"
  return ofUint64 result

/- The quotient is taken of the numbers themselves; only narrowing it can change it. -/
theorem convert_quotient {a num den : Int} (ha : 0 ≤ a ∧ a ≤ int64Max)
    (hnum : 0 ≤ num ∧ num ≤ int64Max) (hden : 0 < den ∧ den ≤ int64Max) :
    0 ≤ a * num / den ∧ convert a num den = do
      require ((a * num / den).toNat < two64) "result.hi == 0"
      return ofUint64 (a * num / den).toNat := by
  have hproduct : 0 ≤ a * num := Int.mul_nonneg ha.1 hnum.1
  have hpos : 0 ≤ a * num / den := Int.ediv_nonneg hproduct (Int.le_of_lt hden.1)
  have hquotient : (a * num).toNat / den.toNat = (a * num / den).toNat := by
    have hcast : (((a * num).toNat / den.toNat : Nat) : Int) = a * num / den := by
      rw [Int.natCast_ediv, Int.toNat_of_nonneg hproduct, Int.toNat_of_nonneg (Int.le_of_lt hden.1)]
    omega
  have hdiv : u128Div (u128Mul (u128 a) (u128 num)) (u128 den) = .ok (a * num / den).toNat := by
    rw [u128Mul_of_nonneg ha hnum, u128_of_nonneg (Int.le_of_lt hden.1) hden.2, ← hquotient]
    exact if_neg (by have := hden.1; omega)
  refine ⟨hpos, ?_⟩
  unfold convert
  simp only [(require_eq_ok (u := ())).2 hden.1, hdiv, bind, Except.bind]

/- The quotient is rounded down where it fits. -/
theorem convert_eq {a num den : Int} (ha : 0 ≤ a ∧ a ≤ int64Max) (hnum : 0 ≤ num ∧ num ≤ int64Max)
    (hden : 0 < den ∧ den ≤ int64Max) (hfits : a * num / den ≤ int64Max) :
    convert a num den = .ok (a * num / den) := by
  obtain ⟨hpos, hconvert⟩ := convert_quotient ha hnum hden
  have hsmall : (a * num / den).toNat < 9223372036854775808 := by
    unfold int64Max at hfits
    omega
  have hwide : (a * num / den).toNat < two64 := Nat.lt_trans hsmall (by decide)
  rw [hconvert]
  simp only [(require_eq_ok (u := ())).2 hwide, ofUint64_of_lt hsmall, bind, Except.bind, pure,
    Except.pure, Int.toNat_of_nonneg hpos]

/-- `asset * price` -/
def Asset.mul (a : Asset) (p : Price) : Result Asset := do
  let name ← symbolName a.symbol
  let base ← symbolName p.base.symbol
  if name = base then
    return ⟨← convert a.amount p.quote.amount p.base.amount, p.quote.symbol⟩
  let quote ← symbolName p.quote.symbol
  if name = quote then
    return ⟨← convert a.amount p.base.amount p.quote.amount, p.base.symbol⟩
  .error (.assertion "invalid asset * price")

/-- `util::to_TSD` -/
def toTSD (p : Price) (tme : Asset) : Result Asset := do
  require (tme.symbol = symbolCoin) "TME.symbol == SYMBOL_COIN"
  if p.isNull then return .usd 0
  tme.mul p

/-- `util::to_TME` -/
def toTME (p : Price) (tsd : Asset) : Result Asset := do
  require (tsd.symbol = symbolUsd) "TSD.symbol == SYMBOL_USD"
  if p.isNull then return .coin 0
  tsd.mul p

end WeNode.Chain
