import Mathlib.Data.Nat.Digits.Lemmas
import Mathlib.Tactic.Common

/-!
# Decimal numerals in bytes

The value of a string of ASCII digits, and the numeral of a number without leading zeros.
-/

namespace WeNode.Lib

def IsDigit (c : UInt8) : Prop := 48 ≤ c.toNat ∧ c.toNat ≤ 57

instance (c : UInt8) : Decidable (IsDigit c) :=
  inferInstanceAs (Decidable (48 ≤ c.toNat ∧ c.toNat ≤ 57))

/-- Every byte is a digit. -/
def Digits (l : List UInt8) : Prop := ∀ c ∈ l, IsDigit c

instance (l : List UInt8) : Decidable (Digits l) := inferInstanceAs (Decidable (∀ c ∈ l, IsDigit c))

/- The value of a string of digits, the first one the most significant. -/
def numeral (l : List UInt8) : Nat := l.foldl (fun v c => 10 * v + (c.toNat - 48)) 0

def digitByte (d : Nat) : UInt8 := UInt8.ofNat (48 + d)

/- The numeral of a number. -/
def natText (n : Nat) : List UInt8 :=
  if n = 0 then [48] else (Nat.digits 10 n).reverse.map digitByte

variable {l m : List UInt8} {n d r : Nat}

theorem Digits.append (hl : Digits l) (hm : Digits m) : Digits (l ++ m) := by
  intro c hc
  rcases List.mem_append.1 hc with hc | hc
  · exact hl c hc
  · exact hm c hc

theorem Digits.not_mem {c : UInt8} (hl : Digits l) (hc : ¬ IsDigit c) : c ∉ l :=
  fun hmem => hc (hl c hmem)

theorem numeral_append_one (l : List UInt8) (c : UInt8) :
    numeral (l ++ [c]) = 10 * numeral l + (c.toNat - 48) := by
  unfold numeral
  rw [List.foldl_append]
  rfl

theorem numeral_append (l m : List UInt8) :
    numeral (l ++ m) = numeral l * 10 ^ m.length + numeral m := by
  induction m using List.reverseRecOn with
  | nil => simp [numeral]
  | append_singleton m c ih =>
    rw [← List.append_assoc, numeral_append_one, numeral_append_one, ih, List.length_append,
      List.length_singleton, pow_succ]
    have hmul : numeral l * (10 ^ m.length * 10) = 10 * (numeral l * 10 ^ m.length) := by ac_rfl
    omega

theorem numeral_cons (c : UInt8) (l : List UInt8) :
    numeral (c :: l) = (c.toNat - 48) * 10 ^ l.length + numeral l := by
  have h := numeral_append [c] l
  simpa [numeral] using h

theorem numeral_lt (hl : Digits l) : numeral l < 10 ^ l.length := by
  induction l using List.reverseRecOn with
  | nil => simp [numeral]
  | append_singleton l c ih =>
    have hlow := ih fun x hx => hl x (List.mem_append_left _ hx)
    have hc := hl c (by simp)
    have hc9 : c.toNat - 48 ≤ 9 := by
      have := hc.2
      omega
    rw [numeral_append_one, List.length_append, List.length_singleton, pow_succ]
    omega

/-! ### The numeral of a number -/

theorem digitByte_toNat (hd : d < 10) : (digitByte d).toNat = 48 + d := by
  unfold digitByte
  rw [UInt8.toNat_ofNat', Nat.mod_eq_of_lt (by omega)]

theorem natText_digits (n : Nat) : Digits (natText n) := by
  intro c hc
  unfold natText at hc
  split at hc
  · rw [List.mem_singleton.1 hc]
    decide
  · obtain ⟨x, hx, rfl⟩ := List.mem_map.1 hc
    have hlt := Nat.digits_lt_base (by decide) (List.mem_reverse.1 hx)
    unfold IsDigit
    rw [digitByte_toNat hlt]
    omega

theorem natText_ne_nil (n : Nat) : natText n ≠ [] := by
  unfold natText
  split
  · exact List.cons_ne_nil _ _
  · next hn => simpa [Nat.digits_eq_nil_iff_eq_zero] using hn

theorem numeral_natText (n : Nat) : numeral (natText n) = n := by
  have hmap : ∀ ds : List Nat, (∀ x ∈ ds, x < 10) →
      numeral (ds.reverse.map digitByte) = Nat.ofDigits 10 ds := by
    intro ds hds
    induction ds with
    | nil => rfl
    | cons x ds ih =>
      rw [List.reverse_cons, List.map_append, List.map_singleton, numeral_append_one,
        ih fun y hy => hds y (List.mem_cons_of_mem _ hy), digitByte_toNat (hds x (by simp)),
        Nat.ofDigits_cons]
      omega
  unfold natText
  split
  · next hn =>
    rw [hn]
    rfl
  · rw [hmap _ fun x hx => Nat.digits_lt_base (by decide) hx, Nat.ofDigits_digits]

/-- A number below a power of ten has no more digits than the power has zeros. -/
theorem natText_length_le (hd : 0 < d) (h : n < 10 ^ d) : (natText n).length ≤ d := by
  unfold natText
  split
  · exact hd
  · rw [List.length_map, List.length_reverse]
    exact (Nat.digits_length_le_iff (by decide) n).2 h

/-- Adding a power of ten puts a one in front of so many digits. -/
theorem natText_power (h : r < 10 ^ d) :
    ∃ fraction, natText (10 ^ d + r) = 49 :: fraction ∧ fraction.length = d ∧ Digits fraction ∧
      numeral fraction = r := by
  have hpos : 0 < 10 ^ d := Nat.pow_pos (by decide)
  have hlength : (natText (10 ^ d + r)).length = d + 1 := by
    unfold natText
    rw [if_neg (by omega), List.length_map, List.length_reverse]
    refine Nat.le_antisymm ?_ ?_
    · rw [Nat.digits_length_le_iff (by decide), pow_succ]
      omega
    · rw [Nat.succ_le_iff, Nat.lt_digits_length_iff (by decide)]
      omega
  have hdigits := natText_digits (10 ^ d + r)
  have hvalue := numeral_natText (10 ^ d + r)
  cases htext : natText (10 ^ d + r) with
  | nil => exact absurd htext (natText_ne_nil _)
  | cons c fraction =>
    rw [htext] at hlength hdigits hvalue
    have hlen : fraction.length = d := by simpa using hlength
    have hfraction : Digits fraction := fun x hx => hdigits x (List.mem_cons_of_mem _ hx)
    have hlow := numeral_lt hfraction
    have hc := hdigits c (by simp)
    rw [numeral_cons, hlen] at hvalue
    rw [hlen] at hlow
    -- the first digit counts whole powers of ten
    have hone : c.toNat - 48 = 1 := by
      have hle : c.toNat - 48 < 2 := by
        by_contra hge
        have := Nat.mul_le_mul_right (10 ^ d) (Nat.not_lt.1 hge)
        omega
      have hne : c.toNat - 48 ≠ 0 := by
        intro hzero
        rw [hzero] at hvalue
        omega
      omega
    have hc49 : c = 49 := by
      have : c.toNat = 49 := by omega
      exact UInt8.toNat_inj.1 this
    rw [hone] at hvalue
    exact ⟨fraction, by rw [hc49], hlen, hfraction, by omega⟩

end WeNode.Lib
