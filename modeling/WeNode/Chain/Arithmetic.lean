import Mathlib.Algebra.Group.Nat.Defs
import Mathlib.Tactic.Common

/-!
# Arithmetic of the chain

`share_type` is `fc::safe<int64_t>`: its operators throw where the result leaves the range, its
constructor takes any integer and keeps the low 64 bits.  `fc::uint128_t` wraps around; its
division throws on zero and `to_uint64` on a value of more than 64 bits.
-/

namespace WeNode.Chain

/-- What a function of the chain throws. -/
inductive Exception where
  /-- `FC_ASSERT`, with its text -/
  | assertion (text : String)
  | overflow
  | underflow
  | divideByZero
  /-- `get` of an object that is not stored -/
  | notFound
  /-- a unique index refuses the row -/
  | duplicate
  /-- `unknown_hardfork_exception` -/
  | unknownHardfork
  /-- `tx_missing_active_auth` and its siblings -/
  | missingActiveAuth
  | missingOwnerAuth
  | missingPostingAuth
  | missingOtherAuth
  /-- `tx_irrelevant_sig` -/
  | irrelevantSig
  /-- `tx_duplicate_sig` -/
  | duplicateSig
  /-- the loop of the source does not end here -/
  | endless
deriving DecidableEq, Repr

abbrev Result := Except Exception

/-- `FC_ASSERT( c, text )` -/
def require (c : Prop) [Decidable c] (text : String) : Result Unit :=
  if c then .ok () else .error (.assertion text)

theorem require_ok {c : Prop} [Decidable c] {text : String} {u : Unit}
    (h : require c text = .ok u) : c := by
  unfold require at h
  split at h
  · assumption
  · cases h

theorem require_eq_ok {c : Prop} [Decidable c] {text : String} {u : Unit} :
    require c text = .ok u ↔ c := by
  unfold require
  split <;> simp_all

/-! ### `fc::safe<int64_t>` -/

def int64Max : Int := 9223372036854775807
def int64Min : Int := -9223372036854775808

/-- A result in the range of `int64_t`, or the exception `fc::safe` throws. -/
def share (x : Int) : Result Int :=
  if int64Max < x then .error .overflow else if x < int64Min then .error .underflow else .ok x

def safeAdd (a b : Int) : Result Int := share (a + b)
def safeSub (a b : Int) : Result Int := share (a - b)
def safeMul (a b : Int) : Result Int := share (a * b)
def safeNeg (a : Int) : Result Int := share (-a)

/- Division rounds to zero. -/
def safeDiv (a b : Int) : Result Int :=
  if b = 0 then .error .divideByZero else share (a.tdiv b)

def safeMod (a b : Int) : Result Int :=
  if b = 0 then .error .divideByZero else .ok (a.tmod b)

theorem share_ok {x y : Int} (h : share x = .ok y) : y = x ∧ int64Min ≤ y ∧ y ≤ int64Max := by
  unfold share at h
  split at h
  · cases h
  · split at h
    · cases h
    · cases h
      exact ⟨rfl, by omega, by omega⟩

theorem safeAdd_ok {a b c : Int} (h : safeAdd a b = .ok c) : c = a + b := (share_ok h).1
theorem safeSub_ok {a b c : Int} (h : safeSub a b = .ok c) : c = a - b := (share_ok h).1
theorem safeMul_ok {a b c : Int} (h : safeMul a b = .ok c) : c = a * b := (share_ok h).1
theorem safeNeg_ok {a c : Int} (h : safeNeg a = .ok c) : c = -a := (share_ok h).1

/-! ### `fc::uint128_t` -/

def two32 : Nat := 4294967296
def two64 : Nat := 18446744073709551616
def two128 : Nat := 340282366920938463463374607431768211456

/-- `uint128_t( int64_t )` extends the sign. -/
def u128 (x : Int) : Nat := (x % (two128 : Int)).toNat

def u128Add (a b : Nat) : Nat := (a + b) % two128
def u128Sub (a b : Nat) : Nat := if b ≤ a then a - b else a + two128 - b
def u128Mul (a b : Nat) : Nat := (a * b) % two128

def u128Div (a b : Nat) : Result Nat := if b = 0 then .error .divideByZero else .ok (a / b)

def toUint64 (a : Nat) : Result Nat :=
  if a < two64 then .ok a else .error (.assertion "hi == 0")

/-- `share_type( uint64_t )` keeps the 64 bits. -/
def ofUint64 (a : Nat) : Int := if a < 9223372036854775808 then a else (a : Int) - two64

/-- The low 64 bits of an `int64_t` as an unsigned number. -/
def asUint64 (x : Int) : Nat := (x % (two64 : Int)).toNat

/-- The low 64 bits of a result as an `int64_t`. -/
def wrap64 (x : Int) : Int := ofUint64 (asUint64 x)

theorem ofUint64_of_lt {a : Nat} (h : a < 9223372036854775808) : ofUint64 a = a := if_pos h

theorem toUint64_ok {a b : Nat} (h : toUint64 a = .ok b) : b = a ∧ a < two64 := by
  unfold toUint64 at h
  split at h
  · next hlt =>
    cases h
    exact ⟨rfl, hlt⟩
  · cases h

theorem u128_of_nonneg {x : Int} (h : 0 ≤ x) (h' : x ≤ int64Max) : u128 x = x.toNat := by
  unfold u128
  rw [Int.emod_eq_of_lt h]
  unfold int64Max at h'
  unfold two128
  omega

/- Products of two 63-bit numbers do not wrap around. -/
theorem u128Mul_of_nonneg {x y : Int} (hx : 0 ≤ x ∧ x ≤ int64Max) (hy : 0 ≤ y ∧ y ≤ int64Max) :
    u128Mul (u128 x) (u128 y) = (x * y).toNat := by
  rw [u128_of_nonneg hx.1 hx.2, u128_of_nonneg hy.1 hy.2]
  unfold u128Mul
  rw [Int.toNat_mul hx.1 hy.1]
  refine Nat.mod_eq_of_lt ?_
  have hbound : ∀ z : Int, 0 ≤ z ∧ z ≤ int64Max → z.toNat ≤ 9223372036854775807 := by
    intro z hz
    have hmax := hz.2
    unfold int64Max at hmax
    omega
  exact Nat.lt_of_le_of_lt (Nat.mul_le_mul (hbound x hx) (hbound y hy)) (by decide)

/- `--` of an unsigned integer of so many bits -/
def decrement (bits n : Nat) : Nat := if n = 0 then 2 ^ bits - 1 else n - 1

/-! ### `time_point_sec` -/

/-- The seconds are an `uint32_t`. -/
def timeAdd (t d : Nat) : Nat := (t + d) % two32

/-- `time_point_sec::maximum()` -/
def timeMax : Nat := 4294967295

end WeNode.Chain
