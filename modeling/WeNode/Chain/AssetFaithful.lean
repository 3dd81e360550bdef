import WeNode.Chain.AssetText

/-!
# Reading and writing amounts

`from_string` against the decimal it reads, and against `to_string`.  The sign is applied to the
digits before the point only, both ways.
-/

namespace WeNode.Chain

open WeNode.Lib

/-- A numeral `[-]digits` or `[-]digits.digits*` that is worth `n` with so many decimals. -/
def IsAmount (t : Bytes) (n : Int) (decimals : Nat) : Prop :=
  ∃ (negative : Bool) (ip : Bytes) (point : Bool) (fp : Bytes),
    t = (if negative then [45] else []) ++ ip ++ (if point then 46 :: fp else []) ∧
    ip ≠ [] ∧ Digits ip ∧ Digits fp ∧ (point = false → fp = []) ∧
    n = (if negative then -1 else 1) * (numeral (ip ++ fp) : Int) ∧ decimals = fp.length

/- The part of a text that names the amount. -/
def amountPart (fc : FcStrings) (text : Bytes) : Bytes := (fc.trim text).takeWhile (· != 32)

variable {fc : FcStrings}

/-! ### The digits of a numeral -/

/- Digits, and a point with what follows it, cannot be divided in two ways. -/
theorem point_inj {ip ip' fp fp' : Bytes} {point point' : Bool} (hip : Digits ip)
    (hip' : Digits ip') (h : ip ++ (if point then 46 :: fp else []) =
      ip' ++ (if point' then 46 :: fp' else [])) :
    ip = ip' ∧ (if point then 46 :: fp else []) = (if point' then 46 :: fp' else []) := by
  have htake : ∀ (l : Bytes) (p : Bool) (m : Bytes), Digits l →
      (l ++ (if p then 46 :: m else [])).takeWhile (fun c => decide (IsDigit c)) = l := by
    intro l p m hl
    rw [List.takeWhile_append_of_pos fun c hc => by simpa using hl c hc]
    cases p with
    | false => simp
    | true =>
      rw [if_pos rfl, List.takeWhile_cons_of_neg (by decide), List.append_nil]
  have hsame : ip = ip' := by rw [← htake ip point fp hip, h, htake ip' point' fp' hip']
  subst hsame
  exact ⟨rfl, List.append_cancel_left h⟩

theorem Digits.head_ne {ip post : Bytes} {c : UInt8} (hip : Digits ip) (hne : ip ≠ [])
    (hc : ¬ IsDigit c) {rest : Bytes} : ip ++ post ≠ c :: rest := by
  cases ip with
  | nil => exact absurd rfl hne
  | cons d ip =>
    intro h
    have hd := hip d (by simp)
    rw [(List.cons.inj h).1] at hd
    exact hc hd

/-- The sign and the digits of an amount are those of every reading of it. -/
theorem isAmount_reading {sign : Sign} {ip fp : Bytes} {point : Bool} {n : Int} {k : Nat}
    (hip : Digits ip) (hne : ip ≠ []) (hnil : point = false → fp = [])
    (h : IsAmount (sign.text ++ ip ++ (if point then 46 :: fp else [])) n k) :
    sign ≠ .plus ∧ n = sign.value (numeral (ip ++ fp)) ∧ k = fp.length := by
  obtain ⟨negative, ip', point', fp', htext, hne', hip', -, hnil', hn, hk⟩ := h
  have hfp : (if point then 46 :: fp else []) = (if point' then 46 :: fp' else []) → fp = fp' := by
    intro hp
    cases point <;> cases point' <;> simp_all
  cases sign with
  | plus =>
    cases negative with
    | true => cases htext
    | false => exact (Digits.head_ne hip' hne' (c := 43) (by decide) htext.symm).elim
  | absent =>
    cases negative with
    | true => exact (Digits.head_ne hip hne (c := 45) (by decide) htext).elim
    | false =>
      obtain ⟨rfl, hp⟩ := point_inj hip hip' htext
      obtain rfl := hfp hp
      exact ⟨nofun, by simpa [Sign.value] using hn, hk⟩
  | minus =>
    cases negative with
    | false => exact (Digits.head_ne hip' hne' (c := 45) (by decide) htext.symm).elim
    | true =>
      obtain ⟨rfl, hp⟩ := point_inj hip hip' (List.cons.inj htext).2
      obtain rfl := hfp hp
      exact ⟨nofun, by simpa [Sign.value] using hn, hk⟩

theorem Reading.amountPart_eq {text : Bytes} {sign : Sign} {ip fp sym : Bytes} {point : Bool}
    (h : Reading fc text sign ip point fp sym) :
    amountPart fc text = sign.text ++ ip ++ (if point then 46 :: fp else []) := by
  unfold amountPart
  rw [h.trimmed, List.takeWhile_append_of_pos, List.takeWhile_cons_of_neg (by decide),
    List.append_nil]
  intro c hc
  have hblank := h.no_blank
  simpa using ne_of_mem_of_not_mem hc hblank

namespace Asset

theorem decimals_ok {n : Int} {k m : Nat} (hk : k < 15) :
    (Asset.mk n (k + 256 * m)).decimals = .ok k := by
  have hmod : (k + 256 * m) % 256 = k := by omega
  unfold decimals
  dsimp only
  rw [hmod, (require_eq_ok (u := ())).2 hk]
  rfl

/-- What `from_string` accepts is an amount, read exactly, if and only if the amount has no plus
sign, no sign in front of a fraction that counts, and a value in the range of `int64_t`. -/
theorem fromString_faithful_iff (fc : FcStrings) (text : Bytes) :
    (∀ a, fromString fc text = .ok a → ∃ k, a.decimals = .ok k ∧
      IsAmount (amountPart fc text) a.amount k ∧ int64Min ≤ a.amount ∧ a.amount ≤ int64Max) ↔
    ∀ sign ip point fp sym, Reading fc text sign ip point fp sym →
      sign ≠ .plus ∧ (sign = .minus → numeral fp = 0) ∧
      int64Min ≤ sign.value (numeral (ip ++ fp)) ∧ sign.value (numeral (ip ++ fp)) ≤ int64Max := by
  have htwo : (two64 : Int) = 18446744073709551616 := rfl
  constructor
  · intro hfaithful sign ip point fp sym h
    obtain ⟨k, -, hamount, hmin, hmax⟩ :=
      hfaithful _ (fromString_ok.2 ⟨sign, ip, point, fp, sym, h, rfl⟩)
    rw [h.amountPart_eq] at hamount
    obtain ⟨hsign, hvalue, -⟩ := isAmount_reading h.ip_digits h.ip_ne h.fp_nil hamount
    dsimp only at hvalue hmin hmax
    refine ⟨hsign, ?_, hvalue ▸ hmin, hvalue ▸ hmax⟩
    rintro rfl
    -- the two values differ by twice the fraction
    have hmod := wrap64_emod (pointValue .minus ip fp)
    rw [hvalue] at hmod
    have hfp := numeral_lt h.fp_digits
    have hshort := h.fp_short
    have hpow : 10 ^ fp.length ≤ 10 ^ 14 := Nat.pow_le_pow_right (by decide) (by omega)
    have hdiff : pointValue .minus ip fp - Sign.value .minus (numeral (ip ++ fp)) =
        2 * numeral fp := by
      rw [numeral_append]
      show -(numeral ip : Int) * 10 ^ fp.length + numeral fp -
        -((numeral ip * 10 ^ fp.length + numeral fp : Nat) : Int) = _
      push_cast
      ring
    have hzero := Int.sub_emod (pointValue .minus ip fp) (Sign.value .minus (numeral (ip ++ fp)))
      (two64 : Int)
    rw [← hmod, Int.sub_self, hdiff, htwo] at hzero
    omega
  · intro hclear a ha
    obtain ⟨sign, ip, point, fp, sym, h, rfl⟩ := fromString_ok.1 ha
    obtain ⟨hplus, hminus, hmin, hmax⟩ := hclear sign ip point fp sym h
    have hvalue : pointValue sign ip fp = sign.value (numeral (ip ++ fp)) := by
      rw [numeral_append]
      cases sign with
      | plus => exact absurd rfl hplus
      | absent =>
        show (numeral ip : Int) * 10 ^ fp.length + numeral fp = _
        simp [Sign.value]
      | minus =>
        have hfp := hminus rfl
        show -(numeral ip : Int) * 10 ^ fp.length + numeral fp = _
        simp [Sign.value, hfp]
    rw [hvalue, wrap64_eq hmin hmax]
    refine ⟨fp.length, decimals_ok h.fp_short, ?_, hmin, hmax⟩
    rw [h.amountPart_eq]
    refine ⟨decide (sign = .minus), ip, point, fp, ?_, h.ip_ne, h.ip_digits, h.fp_digits, h.fp_nil,
      ?_, rfl⟩
    · cases sign with
      | plus => exact absurd rfl hplus
      | absent => rfl
      | minus => rfl
    · cases sign with
      | plus => exact absurd rfl hplus
      | absent => simp [Sign.value]
      | minus => simp [Sign.value]

/- The bytes of "-1.5 X". -/
def minusOneHalf : Bytes := [45, 49, 46, 53, 32, 88]

theorem fromString_misreads : fromString .plain minusOneHalf = .ok ⟨-5, 1 + 256 * 88⟩ ∧
    ¬ ∃ k, (Asset.mk (-5) (1 + 256 * 88)).decimals = .ok k ∧
      IsAmount (amountPart .plain minusOneHalf) (-5) k := by
  refine ⟨by decide +kernel, ?_⟩
  rintro ⟨k, -, hamount⟩
  have hread : Reading .plain minusOneHalf .minus [49] true [53] [88] := by
    constructor <;> decide +kernel
  rw [hread.amountPart_eq] at hamount
  obtain ⟨-, hvalue, -⟩ := isAmount_reading hread.ip_digits hread.ip_ne hread.fp_nil hamount
  exact absurd hvalue (by decide)

end Asset

/-! ### Printing and reading back -/

theorem symbolLetters_length (fuel n : Nat) : (symbolLetters fuel n).length ≤ fuel := by
  induction fuel generalizing n with
  | zero => rfl
  | succ fuel ih =>
    unfold symbolLetters
    split
    · exact Nat.zero_le _
    · rw [List.length_cons]
      exact Nat.succ_le_succ (ih _)

theorem symbolName_length {symbol : Nat} {name : List Nat} (h : symbolName symbol = .ok name) :
    name.length ≤ 6 := by
  unfold symbolName at h
  obtain ⟨_, -, h⟩ := bind_ok.1 h
  cases h
  exact symbolLetters_length _ _

/- A text is divided at the first place of a character in one way. -/
theorem split_inj {pre pre' post post' : Bytes} {c : UInt8} (hpre : c ∉ pre) (hpre' : c ∉ pre')
    (h : pre ++ c :: post = pre' ++ c :: post') : pre = pre' ∧ post = post' := by
  have hfind : findChar (pre ++ c :: post) c = some pre.length := findChar_append hpre
  rw [h, findChar_append hpre'] at hfind
  obtain ⟨hsame, htail⟩ := List.append_inj h (Option.some.inj hfind).symm
  exact ⟨hsame, (List.cons.inj htail).2⟩

/- A text between a sign or a digit and a last letter is not trimmed. -/
theorem trim_front {sign : Sign} {ip mid name : Bytes} (hip : Digits ip) (hne : ip ≠ [])
    (hname : name ≠ []) (hletters : ∀ c ∈ name, ¬ IsSpace c) :
    fc.trim (sign.text ++ ip ++ mid ++ 32 :: name) = sign.text ++ ip ++ mid ++ 32 :: name := by
  have hdigit : ∀ c, IsDigit c → ¬ IsSpace c := by
    intro c hc hspace
    unfold IsDigit at hc
    rcases hspace with rfl | hspace
    · exact absurd hc (by decide)
    · omega
  obtain ⟨c, rest, hfront, hc⟩ : ∃ c rest, sign.text ++ ip = c :: rest ∧ ¬ IsSpace c := by
    cases ip with
    | nil => exact absurd rfl hne
    | cons c ip =>
      cases sign with
      | absent => exact ⟨c, ip, rfl, hdigit c (hip c (by simp))⟩
      | plus => exact ⟨43, c :: ip, rfl, by decide⟩
      | minus => exact ⟨45, c :: ip, rfl, by decide⟩
  obtain ⟨letters, d, hlast⟩ := (List.eq_nil_or_concat name).resolve_left hname
  have hd : ¬ IsSpace d := hletters d (by simp [hlast])
  have htext : sign.text ++ ip ++ mid ++ 32 :: name = c :: (rest ++ mid ++ 32 :: letters) ++ [d] := by
    rw [hfront, hlast]
    simp
  rw [fc.trim_eq, htext, List.cons_append, List.dropWhile_cons_of_neg (by simpa using hc),
    ← List.cons_append, List.rdropWhile_concat_neg _ _ _ (by simpa using hd)]

namespace Asset

def printedSign (q : Int) : Sign := if q < 0 then .minus else .absent

/- The digits printed behind the point. -/
def printedFraction (n : Int) (k : Nat) : Bytes :=
  (natText (10 ^ k + n.tmod (10 ^ k)).natAbs).drop 1

theorem printedSign_value (q : Int) : (printedSign q).value q.natAbs = q := by
  unfold printedSign
  split
  · show -(q.natAbs : Int) = q
    omega
  · show (q.natAbs : Int) = q
    omega

theorem printedSign_text {q : Int} (hmin : int64Min ≤ q) (hmax : q ≤ int64Max) :
    fc.toString q = (printedSign q).text ++ natText q.natAbs := by
  rw [fc.toString_eq q hmin hmax]
  unfold printedSign
  split <;> rfl

theorem power_cast (k : Nat) : ((10 ^ k : Nat) : Int) = (10 : Int) ^ k := by
  push_cast
  rfl

theorem printedFraction_nonneg {n : Int} {k : Nat} (h : 0 ≤ n.tmod (10 ^ k)) :
    (printedFraction n k).length = k ∧ Digits (printedFraction n k) ∧
      (numeral (printedFraction n k) : Int) = n.tmod (10 ^ k) := by
  have hcast := power_cast k
  have hpos : (0 : Int) < 10 ^ k := Int.pow_pos (by decide)
  have hlt := Int.tmod_lt_of_pos n hpos
  obtain ⟨r, hr⟩ := Int.eq_ofNat_of_zero_le h
  have hrlt : r < 10 ^ k := by omega
  obtain ⟨fraction, htext, hlen, hdigits, hvalue⟩ := natText_power hrlt
  have habs : (10 ^ k + n.tmod (10 ^ k)).natAbs = 10 ^ k + r := by omega
  unfold printedFraction
  rw [habs, htext, List.drop_succ_cons, List.drop_zero, hvalue]
  exact ⟨hlen, hdigits, hr.symm⟩

/- Below zero the sum has lost its leading one, and a digit of the fraction is cut off. -/
theorem printedFraction_neg {n : Int} {k : Nat} (h : n.tmod (10 ^ k) < 0) :
    (printedFraction n k).length < k := by
  have hcast := power_cast k
  have hpos : (0 : Int) < 10 ^ k := Int.pow_pos (by decide)
  have hlt := Int.lt_tmod_of_pos n hpos
  have hk : 0 < k := by
    rcases Nat.eq_zero_or_pos k with rfl | hk
    · rw [pow_zero, Int.tmod_one] at h
      exact absurd h (by decide)
    · exact hk
  have hlen := natText_length_le (n := (10 ^ k + n.tmod (10 ^ k)).natAbs) hk (by omega)
  unfold printedFraction
  rw [List.length_drop]
  omega

/- The quotient is printed like any `int64_t`. -/
theorem tdiv_range {n p : Int} (hmin : int64Min ≤ n) (hmax : n ≤ int64Max) (hp : 0 ≤ p) :
    int64Min ≤ n.tdiv p ∧ n.tdiv p ≤ int64Max := by
  have habs := Int.natAbs_tdiv_le_natAbs n p
  unfold int64Min at hmin
  unfold int64Max at hmax
  unfold int64Min int64Max
  rcases Int.le_total 0 n with hn | hn
  · have hq := Int.tdiv_nonneg hn hp
    omega
  · have hq := Int.tdiv_nonneg (a := -n) (by omega) hp
    rw [Int.neg_tdiv] at hq
    omega

/- The printed text of an amount with so many decimals. -/
def printed (n : Int) (k : Nat) (name : Bytes) : Bytes :=
  (printedSign (n.tdiv (10 ^ k))).text ++ natText (n.tdiv (10 ^ k)).natAbs ++
    (if decide (0 < k) then 46 :: printedFraction n k else []) ++ 32 :: name

theorem toString_ok {a : Asset} {name : List Nat} (hmin : int64Min ≤ a.amount)
    (hmax : a.amount ≤ int64Max) (hd : a.symbol % 256 < 15)
    (hname : symbolName a.symbol = .ok name) :
    a.toString fc = .ok (printed a.amount (a.symbol % 256) (name.map UInt8.ofNat)) := by
  have hcast := power_cast (a.symbol % 256)
  have hpow : 10 ^ (a.symbol % 256) ≤ 10 ^ 14 := Nat.pow_le_pow_right (by decide) (by omega)
  have hpos : 0 < 10 ^ (a.symbol % 256) := Nat.pow_pos (by decide)
  have hrlt := Int.tmod_lt_of_pos a.amount (b := 10 ^ (a.symbol % 256)) (by omega)
  have hrgt := Int.lt_tmod_of_pos a.amount (b := 10 ^ (a.symbol % 256)) (by omega)
  obtain ⟨hqmin, hqmax⟩ := tdiv_range (p := 10 ^ (a.symbol % 256)) hmin hmax (by omega)
  have hfract := fc.toString_eq (10 ^ (a.symbol % 256) + a.amount.tmod (10 ^ (a.symbol % 256)))
    (by unfold int64Min; omega) (by unfold int64Max; omega)
  rw [if_neg (by omega), List.nil_append] at hfract
  have hpoint : (1 : Int) < 10 ^ (a.symbol % 256) ↔ 0 < a.symbol % 256 := by
    constructor
    · intro h
      by_contra hk
      rw [Nat.eq_zero_of_not_pos hk] at h
      exact absurd h (by decide)
    · intro hk
      exact one_lt_pow₀ (by decide) (by omega)
  unfold toString precision decimals printed
  rw [(require_eq_ok (u := ())).2 hd, hname]
  show Except.ok ((if (1 : Int) < 10 ^ (a.symbol % 256) then fc.toString _ ++ 46 ::
    (fc.toString (10 ^ (a.symbol % 256) + _)).drop 1 else fc.toString _) ++ _) = Except.ok _
  rw [hfract, printedSign_text hqmin hqmax]
  by_cases hk : 0 < a.symbol % 256
  · rw [if_pos (hpoint.2 hk), if_pos (decide_eq_true hk)]
    rfl
  · rw [if_neg (mt hpoint.1 hk), if_neg (by simpa using hk), List.append_nil]

theorem trim_printed {n : Int} {k : Nat} {name : Bytes} (hname : name ≠ [])
    (hletters : ∀ c ∈ name, ¬ IsSpace c) : fc.trim (printed n k name) = printed n k name := by
  exact trim_front (natText_digits _) (natText_ne_nil _) hname hletters

/- The whole fraction is printed, and the amount is read back. -/
theorem fromString_printed {n : Int} {k : Nat} {name : Bytes} (hmin : int64Min ≤ n)
    (hmax : n ≤ int64Max) (hk : k < 15) (hlen : name.length ≤ 6) (hname : name ≠ [])
    (hletters : ∀ c ∈ name, ¬ IsSpace c ∧ c ≠ 46) (h : 0 ≤ n.tmod (10 ^ k)) :
    fromString fc (printed n k name) = .ok ⟨n, k + 256 * letters name⟩ := by
  obtain ⟨hfp, hdigits, hvalue⟩ := printedFraction_nonneg h
  have hsign := printedSign_value (n.tdiv (10 ^ k))
  have hpos : (0 : Int) < 10 ^ k := Int.pow_pos (by decide)
  refine fromString_ok.2 ⟨printedSign (n.tdiv (10 ^ k)), natText (n.tdiv (10 ^ k)).natAbs,
    decide (0 < k), printedFraction n k, name, ?_, ?_⟩
  · refine ⟨trim_printed hname fun c hc => (hletters c hc).1, natText_ne_nil _, natText_digits _, ?_,
      hdigits, by omega, ?_, fun _ hc => (hletters _ hc).2 rfl, hlen⟩
    · rw [numeral_natText, hsign]
      exact tdiv_range hmin hmax (Int.le_of_lt hpos)
    · intro hzero
      exact List.eq_nil_of_length_eq_zero (by have := of_decide_eq_false hzero; omega)
  · unfold pointValue
    rw [numeral_natText, hsign, hfp, hvalue, Int.tdiv_mul_add_tmod, wrap64_eq hmin hmax]

/- A fraction that has lost a digit is read as an asset with fewer decimals. -/
theorem printed_short {n : Int} {k : Nat} {name : Bytes} {b : Asset} (hname : name ≠ [])
    (hletters : ∀ c ∈ name, ¬ IsSpace c ∧ c ≠ 46) (h : n.tmod (10 ^ k) < 0)
    (hb : fromString fc (printed n k name) = .ok b) : b.symbol % 256 < k := by
  have hshort := printedFraction_neg h
  obtain ⟨sign, ip, point, fp, sym, hread, rfl⟩ := fromString_ok.1 hb
  have htrim := hread.trimmed
  rw [trim_printed hname fun c hc => (hletters c hc).1] at htrim
  unfold printed at htrim
  rw [if_pos (decide_eq_true (by omega))] at htrim
  have hinteger : ∀ q : Int, ∀ c, ¬ IsDigit c → c ≠ 43 → c ≠ 45 →
      c ∉ (printedSign q).text ++ natText q.natAbs := by
    intro q c hc hplus hminus
    rw [List.mem_append, not_or]
    exact ⟨Sign.not_mem hplus hminus, (natText_digits _).not_mem hc⟩
  have hblank : 32 ∉ printedFraction n k :=
    fun hmem => (natText_digits _).not_mem (by decide) (List.mem_of_mem_drop hmem)
  obtain ⟨hfront, -⟩ := split_inj (by
    rw [List.mem_append, List.mem_cons, not_or, not_or]
    exact ⟨hinteger _ _ (by decide) (by decide) (by decide), by decide, hblank⟩) hread.no_blank htrim
  have hbefore : 46 ∉ sign.text ++ ip := by
    rw [List.mem_append, not_or]
    exact ⟨Sign.not_mem (by decide) (by decide), hread.ip_digits.not_mem (by decide)⟩
  cases point with
  | false =>
    rw [if_neg (by decide), List.append_nil] at hfront
    rw [← hfront] at hbefore
    exact absurd (by simp) hbefore
  | true =>
    rw [if_pos rfl] at hfront
    obtain ⟨-, hsame⟩ := split_inj (hinteger _ _ (by decide) (by decide) (by decide)) hbefore hfront
    have hfp := hread.fp_short
    rw [hsame] at hshort
    show (fp.length + 256 * letters sym) % 256 < k
    omega

/-- Amounts below zero that are no whole number lose a digit; the others come back, if the symbol
has no bytes behind the end of its name. -/
theorem fromString_toString_iff (fc : FcStrings) {a : Asset} {name : List Nat}
    (hmin : int64Min ≤ a.amount) (hmax : a.amount ≤ int64Max) (hd : a.symbol % 256 < 15)
    (hname : symbolName a.symbol = .ok name) (hne : name ≠ [])
    (hletters : ∀ c ∈ name.map UInt8.ofNat, ¬ IsSpace c ∧ c ≠ 46) :
    (a.toString fc >>= fun text => fromString fc text) = .ok a ↔
      (0 ≤ a.amount ∨ (10 : Int) ^ (a.symbol % 256) ∣ a.amount) ∧
        a.symbol = a.symbol % 256 + 256 * letters (name.map UInt8.ofNat) := by
  have hlen : (name.map UInt8.ofNat).length ≤ 6 := by
    rw [List.length_map]
    exact symbolName_length hname
  have hne : name.map UInt8.ofNat ≠ [] := by simpa using hne
  have hpos : (0 : Int) < 10 ^ (a.symbol % 256) := Int.pow_pos (by decide)
  rw [toString_ok hmin hmax hd hname]
  show fromString fc _ = _ ↔ _
  constructor
  · intro hback
    by_cases hfract : 0 ≤ a.amount.tmod (10 ^ (a.symbol % 256))
    · have hsymbol := congrArg (fun r => r.map Asset.symbol)
        (hback.symm.trans (fromString_printed hmin hmax hd hlen hne hletters hfract))
      refine ⟨?_, Except.ok.inj hsymbol⟩
      by_contra hneg
      rw [not_or] at hneg
      have hle := Int.tmod_nonneg (a := -a.amount) (10 ^ (a.symbol % 256)) (by omega)
      rw [Int.neg_tmod] at hle
      exact hneg.2 (Int.dvd_iff_tmod_eq_zero.2 (by omega))
    · exact absurd (printed_short hne hletters (by omega) hback) (Nat.lt_irrefl _)
  · rintro ⟨hwhole, hsymbol⟩
    have hfract : 0 ≤ a.amount.tmod (10 ^ (a.symbol % 256)) := by
      rcases hwhole with hn | hdvd
      · exact Int.tmod_nonneg _ hn
      · rw [Int.dvd_iff_tmod_eq_zero.1 hdvd]
    rw [fromString_printed hmin hmax hd hlen hne hletters hfract, ← hsymbol]

/- One and five thousandths below zero, printed as "-1.95 X". -/
theorem fromString_toString_loses :
    toString .plain ⟨-1005, 3 + 256 * 88⟩ = .ok [45, 49, 46, 57, 53, 32, 88] ∧
      (toString .plain ⟨-1005, 3 + 256 * 88⟩ >>= fun text => fromString .plain text) =
        .ok ⟨-5, 2 + 256 * 88⟩ ∧
      (toString .plain ⟨-1005, 3 + 256 * 88⟩ >>= fun text => fromString .plain text) ≠
        .ok ⟨-1005, 3 + 256 * 88⟩ := by
  decide +kernel

theorem fromString_toString_iff_whole :
    (toString .plain ⟨-2000, 3 + 256 * 88⟩ >>= fun text => fromString .plain text) =
      .ok ⟨-2000, 3 + 256 * 88⟩ :=
  (fromString_toString_iff .plain (by decide) (by decide) (by decide)
    (show symbolName (3 + 256 * 88) = .ok [88] by decide +kernel) (by decide +kernel) (by decide +kernel)).2
    ⟨.inr (by decide), by decide +kernel⟩

end Asset

end WeNode.Chain
