import Mathlib.Data.List.DropRight
import WeNode.Chain.Asset
import WeNode.Chain.Objects
import WeNode.Lib.Decimal
import WeNode.Lib.Runs

/-!
# The text of an asset

`asset::to_string` and `asset::from_string` (libraries/protocol/asset.cpp:18-114).  The amount is
computed on the `int64_t` inside the `share_type`, which does not check for overflow.
-/

namespace WeNode.Chain

open WeNode.Lib

/- `isspace` -/
def IsSpace (c : UInt8) : Prop := c = 32 ∨ 9 ≤ c.toNat ∧ c.toNat ≤ 13

instance : DecidablePred IsSpace := fun c =>
  inferInstanceAs (Decidable (c = 32 ∨ 9 ≤ c.toNat ∧ c.toNat ≤ 13))

inductive Sign
  | absent
  | plus
  | minus
deriving DecidableEq

def Sign.text : Sign → Bytes
  | .absent => []
  | .plus => [43]
  | .minus => [45]

def Sign.value : Sign → Nat → Int
  | .minus, n => -n
  | _, n => n

/- A signed decimal numeral in the range of `int64_t`. -/
def IsInt64 (s : Bytes) (n : Int) : Prop :=
  ∃ sign digits, s = Sign.text sign ++ digits ∧ digits ≠ [] ∧ Digits digits ∧
    n = sign.value (numeral digits) ∧ int64Min ≤ n ∧ n ≤ int64Max

/-- What is used of `fc`: `to_string` and `to_int64` of an integer, and `trim`. -/
structure FcStrings where
  toString : Int → Bytes
  toInt64 : Bytes → Option Int
  trim : Bytes → Bytes
  toString_eq : ∀ n, int64Min ≤ n → n ≤ int64Max →
    toString n = (if n < 0 then [45] else []) ++ natText n.natAbs
  toInt64_eq : ∀ s n, toInt64 s = some n ↔ IsInt64 s n
  trim_eq : ∀ s, trim s = (s.dropWhile fun c => decide (IsSpace c)).rdropWhile
    fun c => decide (IsSpace c)

/- The sign and what follows it. -/
def splitSign : Bytes → Sign × Bytes
  | [] => (.absent, [])
  | c :: s => if c = 43 then (.plus, s) else if c = 45 then (.minus, s) else (.absent, c :: s)

theorem splitSign_eq (s : Bytes) : s = (splitSign s).1.text ++ (splitSign s).2 := by
  unfold splitSign
  split
  · rfl
  · split
    · next hc => rw [hc]; rfl
    · split
      · next hc => rw [hc]; rfl
      · rfl

theorem splitSign_digits {sign : Sign} {digits : Bytes} (h : Digits digits) :
    splitSign (sign.text ++ digits) = (sign, digits) := by
  cases sign with
  | plus => rfl
  | minus => rfl
  | absent =>
    cases digits with
    | nil => rfl
    | cons c digits =>
      have hc := h c (by simp)
      have hplus : c ≠ 43 := fun heq => absurd (heq ▸ hc) (by decide)
      have hminus : c ≠ 45 := fun heq => absurd (heq ▸ hc) (by decide)
      show splitSign (c :: digits) = _
      simp only [splitSign, if_neg hplus, if_neg hminus]

/- Reads a numeral that `IsInt64` describes. -/
def readInt64 (s : Bytes) : Option Int :=
  let n := (splitSign s).1.value (numeral (splitSign s).2)
  if (splitSign s).2 ≠ [] ∧ Digits (splitSign s).2 ∧ int64Min ≤ n ∧ n ≤ int64Max then some n
  else none

theorem readInt64_eq (s : Bytes) (n : Int) : readInt64 s = some n ↔ IsInt64 s n := by
  unfold readInt64
  dsimp only
  constructor
  · intro h
    split at h
    · next hs =>
      cases h
      exact ⟨_, _, splitSign_eq s, hs.1, hs.2.1, rfl, hs.2.2⟩
    · cases h
  · rintro ⟨sign, digits, rfl, hne, hdigits, rfl, hmin, hmax⟩
    rw [splitSign_digits hdigits, if_pos ⟨hne, hdigits, hmin, hmax⟩]

/-- Strings as `fc` documents them. -/
def FcStrings.plain : FcStrings where
  toString n := (if n < 0 then [45] else []) ++ natText n.natAbs
  toInt64 := readInt64
  trim s := (s.dropWhile fun c => decide (IsSpace c)).rdropWhile fun c => decide (IsSpace c)
  toString_eq _ _ _ := rfl
  toInt64_eq := readInt64_eq
  trim_eq _ := rfl

/- `std::string::find` of a character, and `substr` -/
def findChar (s : Bytes) (c : UInt8) : Option Nat := s.findIdx? (· == c)
def substr (s : Bytes) (pos len : Nat) : Bytes := (s.drop pos).take len

/- The letters of a symbol as they stand behind the byte of its decimals. -/
def letters (s : Bytes) : Nat := s.foldr (fun c n => c.toNat + 256 * n) 0

namespace Asset

def decimals (a : Asset) : Result Nat := do
  require (a.symbol % 256 < 15) "result < 15"
  return a.symbol % 256

/- The table holds the powers of ten. -/
def precision (a : Asset) : Result Int := do
  return 10 ^ (← a.decimals)

variable (fc : FcStrings)

/-- `to_string` -/
def toString (a : Asset) : Result Bytes := do
  let prec ← a.precision
  let result := fc.toString (a.amount.tdiv prec)
  let result :=
    if 1 < prec then result ++ 46 :: (fc.toString (prec + a.amount.tmod prec)).drop 1 else result
  return result ++ 32 :: (← symbolName a.symbol).map UInt8.ofNat

/- `fc::to_int64`, which throws on anything else -/
def toInt64 (s : Bytes) : Result Int :=
  match fc.toInt64 s with
  | some n => .ok n
  | none => .error (.assertion "to_int64")

/- The amount and the number of decimals of a text with a point. -/
def fromPoint (s : Bytes) (dotPos spacePos : Nat) : Result (Int × Nat) := do
  require (dotPos < spacePos) "space_pos > dot_pos"
  let intpart := substr s 0 dotPos
  let fractpart := 49 :: substr s (dotPos + 1) (spacePos - dotPos - 1)
  let d := (fractpart.length - 1) % 256
  require (d < 15) "d < 15"
  let amount ← toInt64 fc intpart
  let amount := wrap64 (amount * 10 ^ d)
  let amount := wrap64 (amount + (← toInt64 fc fractpart))
  return (wrap64 (amount - 10 ^ d), d)

/- The amount in front of the blank, and the number of decimals. -/
def fromAmount (s : Bytes) (spacePos : Nat) : Result (Int × Nat) :=
  match findChar s 46 with
  | some dotPos => fromPoint fc s dotPos spacePos
  | none => do
    let amount ← toInt64 fc (substr s 0 spacePos)
    return (amount, 0)

/- The letters copied into the symbol. -/
def fromSymbol (symbol : Bytes) : Result Nat := do
  if 0 < symbol.length then require (symbol.length ≤ 6) "symbol_size <= 6"
  return letters symbol

/-- `from_string` -/
def fromString (text : Bytes) : Result Asset :=
  let s := fc.trim text
  match findChar s 32 with
  | none => .error (.assertion "space_pos != std::string::npos")
  | some spacePos => do
    let (amount, d) ← fromAmount fc s spacePos
    let symbol ← fromSymbol (s.drop (spacePos + 1))
    return ⟨amount, d + 256 * symbol⟩

end Asset

/-! ### Splitting a text -/

theorem findChar_append {pre post : Bytes} {c : UInt8} (h : c ∉ pre) :
    findChar (pre ++ c :: post) c = some pre.length := by
  unfold findChar
  rw [List.findIdx?_append, List.findIdx?_eq_none_iff.2 (by
    intro x hx
    simpa using ne_of_mem_of_not_mem hx h)]
  simp [List.findIdx?_cons]

theorem findChar_some {s : Bytes} {c : UInt8} {n : Nat} (h : findChar s c = some n) :
    ∃ pre post, s = pre ++ c :: post ∧ c ∉ pre ∧ pre.length = n := by
  unfold findChar at h
  obtain ⟨hn, hc, hbefore⟩ := List.findIdx?_eq_some_iff_getElem.1 h
  refine ⟨s.take n, s.drop (n + 1), ?_, ?_, List.length_take_of_le (Nat.le_of_lt hn)⟩
  · rw [← beq_iff_eq.1 hc, ← List.drop_eq_getElem_cons hn, List.take_append_drop]
  · intro hmem
    obtain ⟨j, hj, hjc⟩ := List.mem_take_iff_getElem.1 hmem
    refine absurd hjc ?_
    have := hbefore j (by omega)
    simpa using this

theorem findChar_none {s : Bytes} {c : UInt8} : findChar s c = none ↔ c ∉ s := by
  unfold findChar
  rw [List.findIdx?_eq_none_iff]
  constructor
  · intro h hc
    simpa using h c hc
  · intro h x hx
    simpa using ne_of_mem_of_not_mem hx h

theorem Sign.not_mem {sign : Sign} {c : UInt8} (hplus : c ≠ 43) (hminus : c ≠ 45) :
    c ∉ sign.text := by
  cases sign <;> simp [text, hplus, hminus]

/-! ### What is read -/

/- Results that differ by a multiple of 2^64 are narrowed to the same amount. -/
theorem wrap64_congr {x y : Int} (h : x % two64 = y % two64) : wrap64 x = wrap64 y := by
  unfold wrap64 asUint64
  rw [h]

theorem wrap64_emod (x : Int) : wrap64 x % two64 = x % two64 := by
  have hpos : 0 ≤ x % (two64 : Int) := Int.emod_nonneg x (by decide)
  have hcast : (((x % (two64 : Int)).toNat : Nat) : Int) = x % two64 := Int.toNat_of_nonneg hpos
  unfold wrap64 asUint64 ofUint64
  split
  · rw [hcast, Int.emod_emod_of_dvd _ (Int.dvd_refl _)]
  · rw [hcast, Int.sub_emod_right, Int.emod_emod_of_dvd _ (Int.dvd_refl _)]

theorem wrap64_add (x y : Int) : wrap64 (wrap64 x + y) = wrap64 (x + y) :=
  wrap64_congr (by rw [Int.add_emod, wrap64_emod, ← Int.add_emod])

theorem wrap64_eq {x : Int} (h : int64Min ≤ x) (h' : x ≤ int64Max) : wrap64 x = x := by
  have htwo : (two64 : Int) = 18446744073709551616 := rfl
  have hmod : x % (two64 : Int) = x % 18446744073709551616 := rfl
  unfold int64Min at h
  unfold int64Max at h'
  unfold wrap64 asUint64 ofUint64
  split <;> omega

/- The number that the code computes from the sign, the digits before and those behind the point. -/
def pointValue (sign : Sign) (ip fp : Bytes) : Int :=
  sign.value (numeral ip) * 10 ^ fp.length + numeral fp

/-- How a trimmed text that is accepted splits: a sign, digits, a point and digits behind it, a
blank and the symbol. -/
structure Reading (fc : FcStrings) (text : Bytes) (sign : Sign) (ip : Bytes) (point : Bool)
    (fp sym : Bytes) : Prop where
  trimmed : fc.trim text = sign.text ++ ip ++ (if point then 46 :: fp else []) ++ 32 :: sym
  ip_ne : ip ≠ []
  ip_digits : Digits ip
  ip_range : int64Min ≤ sign.value (numeral ip) ∧ sign.value (numeral ip) ≤ int64Max
  fp_digits : Digits fp
  fp_short : fp.length < 15
  fp_nil : point = false → fp = []
  no_point : point = false → 46 ∉ sym
  sym_short : sym.length ≤ 6

theorem Reading.no_blank {fc : FcStrings} {text : Bytes} {sign : Sign} {ip fp sym : Bytes}
    {point : Bool} (h : Reading fc text sign ip point fp sym) :
    32 ∉ sign.text ++ ip ++ (if point then 46 :: fp else []) := by
  rw [List.mem_append, List.mem_append, not_or, not_or]
  refine ⟨⟨Sign.not_mem (by decide) (by decide), h.ip_digits.not_mem (by decide)⟩, ?_⟩
  split
  · rw [List.mem_cons, not_or]
    exact ⟨by decide, h.fp_digits.not_mem (by decide)⟩
  · exact List.not_mem_nil

namespace Asset

variable {fc : FcStrings}

theorem toInt64_ok {s : Bytes} {n : Int} : toInt64 fc s = .ok n ↔ IsInt64 s n := by
  rw [← fc.toInt64_eq]
  unfold toInt64
  cases fc.toInt64 s with
  | none => simp
  | some m => simp

/- Behind the leading one there is no sign. -/
theorem isInt64_one {fp : Bytes} {n : Int} (h : IsInt64 (49 :: fp) n) :
    Digits fp ∧ n = 10 ^ fp.length + numeral fp ∧ n ≤ int64Max := by
  obtain ⟨sign, digits, hs, -, hdigits, hn, -, hmax⟩ := h
  have hsign : sign = .absent := by
    cases sign with
    | absent => rfl
    | plus => cases hs
    | minus => cases hs
  rw [hsign] at hs hn
  have hs : 49 :: fp = digits := hs
  rw [← hs] at hdigits hn
  refine ⟨fun c hc => hdigits c (List.mem_cons_of_mem _ hc), ?_, hmax⟩
  rw [hn, numeral_cons]
  show ((1 * 10 ^ fp.length + numeral fp : Nat) : Int) = _
  push_cast
  omega

theorem isInt64_one_of {fp : Bytes} (hfp : Digits fp) (hlen : fp.length < 15) :
    IsInt64 (49 :: fp) (10 ^ fp.length + numeral fp) := by
  have hlt := numeral_lt hfp
  have hpow : 10 ^ fp.length ≤ 10 ^ 14 := Nat.pow_le_pow_right (by decide) (by omega)
  refine ⟨.absent, 49 :: fp, rfl, List.cons_ne_nil _ _, ?_, ?_, ?_, ?_⟩
  · intro c hc
    rcases List.mem_cons.1 hc with rfl | hc
    · decide
    · exact hfp c hc
  · rw [numeral_cons]
    show _ = ((1 * 10 ^ fp.length + numeral fp : Nat) : Int)
    push_cast
    omega
  · unfold int64Min
    have : (0 : Int) ≤ 10 ^ fp.length := Int.pow_nonneg (by decide)
    omega
  · have hcast : ((10 ^ fp.length : Nat) : Int) = (10 : Int) ^ fp.length := by push_cast; rfl
    unfold int64Max
    omega

/- The power of ten that the leading one adds is taken off again. -/
theorem wrap64_point (x p f : Int) :
    wrap64 (wrap64 (wrap64 (x * p) + (p + f)) - p) = wrap64 (x * p + f) := by
  rw [Int.sub_eq_add_neg, wrap64_add, Int.add_assoc, wrap64_add]
  congr 1
  omega

theorem substr_append (pre post : Bytes) : substr (pre ++ post) 0 pre.length = pre := by
  unfold substr
  rw [List.drop_zero, List.take_left]

/- The digits behind the point, cut out by the places of the point and the blank. -/
theorem substr_between (pre mid post : Bytes) (c d : UInt8) :
    substr (pre ++ c :: (mid ++ d :: post)) (pre.length + 1)
      ((pre ++ c :: mid).length - pre.length - 1) = mid := by
  have hlen : (pre ++ c :: mid).length - pre.length - 1 = mid.length := by
    rw [List.length_append, List.length_cons]
    omega
  unfold substr
  rw [hlen, List.drop_append, List.drop_eq_nil_of_le (Nat.le_succ _), List.nil_append,
    Nat.add_sub_cancel_left, List.drop_succ_cons, List.drop_zero, List.take_left]

theorem fromPoint_ok {ip fp sym : Bytes} {amount : Int} {d : Nat} :
    fromPoint fc (ip ++ 46 :: (fp ++ 32 :: sym)) ip.length (ip ++ 46 :: fp).length =
        .ok (amount, d) ↔
      ∃ n, IsInt64 ip n ∧ Digits fp ∧ fp.length < 15 ∧
        amount = wrap64 (n * 10 ^ fp.length + numeral fp) ∧ d = fp.length := by
  have hlt : ip.length < (ip ++ 46 :: fp).length := by
    rw [List.length_append, List.length_cons]
    omega
  have hcons : (49 :: fp).length - 1 = fp.length := rfl
  unfold fromPoint
  rw [(require_eq_ok (u := ())).2 hlt]
  simp only [substr_append, substr_between, hcons]
  constructor
  · intro h
    obtain ⟨_, -, h⟩ := bind_ok.1 h
    obtain ⟨_, hd, h⟩ := bind_ok.1 h
    obtain ⟨n, hn, h⟩ := bind_ok.1 h
    obtain ⟨f, hf, h⟩ := bind_ok.1 h
    cases h
    obtain ⟨hfp, rfl, hmax⟩ := isInt64_one (toInt64_ok.1 hf)
    -- a numeral of 20 digits would not be in range
    have hlen : fp.length < 19 := by
      by_contra hlong
      have hpow : (10 : Nat) ^ 19 ≤ 10 ^ fp.length := Nat.pow_le_pow_right (by decide) (by omega)
      have hcast : ((10 ^ fp.length : Nat) : Int) = (10 : Int) ^ fp.length := by push_cast; rfl
      unfold int64Max at hmax
      omega
    have hsmall : fp.length % 256 = fp.length := Nat.mod_eq_of_lt (by omega)
    rw [hsmall] at hd ⊢
    exact ⟨n, toInt64_ok.1 hn, hfp, require_ok hd, wrap64_point _ _ _, rfl⟩
  · rintro ⟨n, hn, hfp, hshort, rfl, rfl⟩
    have hsmall : fp.length % 256 = fp.length := Nat.mod_eq_of_lt (by omega)
    rw [hsmall, (require_eq_ok (u := ())).2 hshort, toInt64_ok.2 hn,
      toInt64_ok.2 (isInt64_one_of hfp hshort)]
    show Except.ok (wrap64 _, _) = _
    rw [wrap64_point]

/- The part of a reading in front of the blank. -/
structure Front (pre sym : Bytes) (sign : Sign) (ip : Bytes) (point : Bool) (fp : Bytes) :
    Prop where
  split : pre = sign.text ++ ip ++ (if point then 46 :: fp else [])
  ip_ne : ip ≠ []
  ip_digits : Digits ip
  ip_range : int64Min ≤ sign.value (numeral ip) ∧ sign.value (numeral ip) ≤ int64Max
  fp_digits : Digits fp
  fp_short : fp.length < 15
  fp_nil : point = false → fp = []
  no_point : point = false → 46 ∉ sym

theorem Front.no_point_before {pre sym : Bytes} {sign : Sign} {ip : Bytes} {point : Bool}
    {fp : Bytes} (h : Front pre sym sign ip point fp) : 46 ∉ sign.text ++ ip := by
  rw [List.mem_append, not_or]
  exact ⟨Sign.not_mem (by decide) (by decide), h.ip_digits.not_mem (by decide)⟩

theorem fromAmount_ok {pre sym : Bytes} {amount : Int} {d : Nat} (hpre : 32 ∉ pre) :
    fromAmount fc (pre ++ 32 :: sym) pre.length = .ok (amount, d) ↔
      ∃ sign ip point fp, Front pre sym sign ip point fp ∧
        amount = wrap64 (pointValue sign ip fp) ∧ d = fp.length := by
  unfold fromAmount
  constructor
  · intro h
    cases hdot : findChar (pre ++ 32 :: sym) 46 with
    | none =>
      rw [hdot] at h
      obtain ⟨n, hn, h⟩ := bind_ok.1 h
      cases h
      rw [substr_append] at hn
      obtain ⟨sign, ip, hs, hne, hdigits, rfl, hmin, hmax⟩ := toInt64_ok.1 hn
      have hsym : 46 ∉ sym := fun hmem => findChar_none.1 hdot (by simp [hmem])
      refine ⟨sign, ip, false, [], ⟨by simpa using hs, hne, hdigits, ⟨hmin, hmax⟩,
        List.forall_mem_nil _, by decide, fun _ => rfl, fun _ => hsym⟩, ?_, rfl⟩
      have hvalue : pointValue sign ip [] = sign.value (numeral ip) := by simp [pointValue, numeral]
      rw [hvalue, wrap64_eq hmin hmax]
    | some dotPos =>
      rw [hdot] at h
      obtain ⟨ip₀, post, hsplit, hip₀, rfl⟩ := findChar_some hdot
      have hlt : ip₀.length < pre.length := by
        unfold fromPoint at h
        obtain ⟨_, hlt, -⟩ := bind_ok.1 h
        exact require_ok hlt
      obtain ⟨fp, rfl, rfl⟩ : ∃ fp, pre = ip₀ ++ 46 :: fp ∧ post = fp ++ 32 :: sym := by
        rcases List.append_eq_append_iff.1 hsplit with ⟨mid, hmid, -⟩ | ⟨mid, hmid, hpost⟩
        · have := congrArg List.length hmid
          rw [List.length_append] at this
          omega
        · cases mid with
          | nil =>
            rw [List.append_nil] at hmid
            exact absurd (congrArg List.length hmid) (by omega)
          | cons c mid =>
            obtain ⟨rfl, rfl⟩ := List.cons.inj hpost
            exact ⟨mid, hmid, rfl⟩
      rw [List.append_assoc, List.cons_append] at h
      obtain ⟨n, hn, hfp, hshort, hamount, hd⟩ := fromPoint_ok.1 h
      obtain ⟨sign, ip, hs, hne, hdigits, rfl, hmin, hmax⟩ := hn
      exact ⟨sign, ip, true, fp, ⟨by rw [hs]; rfl, hne, hdigits, ⟨hmin, hmax⟩, hfp, hshort,
        fun hf => Bool.noConfusion hf, fun hf => Bool.noConfusion hf⟩, hamount, hd⟩
  · rintro ⟨sign, ip, point, fp, hfront, hamount, hd⟩
    have hint : IsInt64 (sign.text ++ ip) (sign.value (numeral ip)) :=
      ⟨sign, ip, rfl, hfront.ip_ne, hfront.ip_digits, rfl, hfront.ip_range⟩
    have hbefore := hfront.no_point_before
    have hsplit := hfront.split
    cases point with
    | false =>
      have hfp := hfront.fp_nil rfl
      rw [if_neg (by decide), List.append_nil] at hsplit
      have hnone : findChar (pre ++ 32 :: sym) 46 = none := by
        rw [findChar_none, List.mem_append, List.mem_cons, hsplit]
        simp [hbefore, hfront.no_point rfl]
      have hvalue : pointValue sign ip fp = sign.value (numeral ip) := by
        simp [pointValue, hfp, numeral]
      rw [hnone]
      refine bind_ok.2 ⟨sign.value (numeral ip), ?_, ?_⟩
      · rw [substr_append, hsplit]
        exact toInt64_ok.2 hint
      · rw [hamount, hvalue, wrap64_eq hfront.ip_range.1 hfront.ip_range.2, hd, hfp]
        rfl
    | true =>
      rw [if_pos rfl] at hsplit
      have hsome : findChar (pre ++ 32 :: sym) 46 = some (sign.text ++ ip).length := by
        rw [hsplit, List.append_assoc (sign.text ++ ip), List.cons_append]
        exact findChar_append hbefore
      rw [hsome, hsplit]
      dsimp only
      rw [List.append_assoc (sign.text ++ ip), List.cons_append]
      exact fromPoint_ok.2 ⟨_, hint, hfront.fp_digits, hfront.fp_short, hamount, hd⟩

theorem fromSymbol_ok {sym : Bytes} {n : Nat} :
    fromSymbol sym = .ok n ↔ sym.length ≤ 6 ∧ n = letters sym := by
  unfold fromSymbol
  split
  · constructor
    · intro h
      obtain ⟨_, hlen, h⟩ := bind_ok.1 h
      cases h
      exact ⟨require_ok hlen, rfl⟩
    · rintro ⟨hlen, rfl⟩
      rw [(require_eq_ok (u := ())).2 hlen]
      rfl
  · constructor
    · intro h
      cases h
      exact ⟨by omega, rfl⟩
    · rintro ⟨-, rfl⟩
      rfl

/-- What `from_string` accepts, and what it makes of it. -/
theorem fromString_ok {text : Bytes} {a : Asset} : fromString fc text = .ok a ↔
    ∃ sign ip point fp sym, Reading fc text sign ip point fp sym ∧
      a = ⟨wrap64 (pointValue sign ip fp), fp.length + 256 * letters sym⟩ := by
  unfold fromString
  dsimp only
  constructor
  · intro h
    cases hspace : findChar (fc.trim text) 32 with
    | none =>
      rw [hspace] at h
      cases h
    | some spacePos =>
      rw [hspace] at h
      obtain ⟨pre, sym, htrim, hpre, rfl⟩ := findChar_some hspace
      obtain ⟨⟨amount, d⟩, hamount, h⟩ := bind_ok.1 h
      obtain ⟨n, hn, h⟩ := bind_ok.1 h
      cases h
      have hdrop : (fc.trim text).drop (pre.length + 1) = sym := by
        rw [htrim, List.drop_append, List.drop_eq_nil_of_le (Nat.le_succ _), List.nil_append,
          Nat.add_sub_cancel_left, List.drop_succ_cons, List.drop_zero]
      rw [hdrop] at hn
      rw [htrim] at hamount
      obtain ⟨sign, ip, point, fp, hfront, rfl, rfl⟩ := (fromAmount_ok hpre).1 hamount
      obtain ⟨hlen, rfl⟩ := fromSymbol_ok.1 hn
      exact ⟨sign, ip, point, fp, sym, ⟨by rw [htrim, hfront.split], hfront.ip_ne, hfront.ip_digits,
        hfront.ip_range, hfront.fp_digits, hfront.fp_short, hfront.fp_nil, hfront.no_point, hlen⟩,
        rfl⟩
  · rintro ⟨sign, ip, point, fp, sym, h, rfl⟩
    have hpre := h.no_blank
    rw [h.trimmed, findChar_append hpre]
    dsimp only
    have hdrop : (sign.text ++ ip ++ (if point then 46 :: fp else []) ++ 32 :: sym).drop
        ((sign.text ++ ip ++ (if point then 46 :: fp else [])).length + 1) = sym := by
      rw [List.drop_append, List.drop_eq_nil_of_le (Nat.le_succ _), List.nil_append,
        Nat.add_sub_cancel_left, List.drop_succ_cons, List.drop_zero]
    rw [(fromAmount_ok hpre).2 ⟨sign, ip, point, fp, ⟨rfl, h.ip_ne, h.ip_digits, h.ip_range,
      h.fp_digits, h.fp_short, h.fp_nil, h.no_point⟩, rfl, rfl⟩, hdrop,
      fromSymbol_ok.2 ⟨h.sym_short, rfl⟩]
    rfl

end Asset

end WeNode.Chain
