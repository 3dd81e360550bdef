import Mathlib.Data.Nat.Bits
import Mathlib.Tactic

/-!
# Shift registers

A word of `w` bits that keeps the last `w` booleans pushed, the latest at bit 0.
-/

namespace WeNode.Lib.ShiftRegister

def push (w n : Nat) (b : Bool) : Nat := (n * 2 + b.toNat) % 2 ^ w

/- How many of the bits are set. -/
def ones (w n : Nat) : Nat := (List.range w).countP n.testBit

variable {w n k : Nat} {b : Bool}

theorem push_lt : push w n b < 2 ^ w := Nat.mod_lt _ (Nat.two_pow_pos w)

theorem half_shift (n : Nat) (b : Bool) : (n * 2 + b.toNat) / 2 = n := by
  have hb := b.toNat_lt
  omega

theorem testBit_push_zero (hw : 0 < w) : (push w n b).testBit 0 = b := by
  unfold push
  rw [Nat.testBit_mod_two_pow, Nat.testBit_zero]
  cases b <;> simp [hw]

theorem testBit_push_succ (hk : k + 1 < w) : (push w n b).testBit (k + 1) = n.testBit k := by
  unfold push
  rw [Nat.testBit_mod_two_pow, Nat.testBit_succ, half_shift]
  simp [hk]

theorem ones_le : ones w n ≤ w := by
  unfold ones
  simpa using List.countP_le_length (p := n.testBit) (l := List.range w)

/- The bit that leaves the register. -/
theorem testBit_top (hn : n < 2 ^ (w + 1)) : (n.testBit w).toNat = n / 2 ^ w := by
  have hlt : n / 2 ^ w < 2 := by
    rw [Nat.div_lt_iff_lt_mul (Nat.two_pow_pos w)]
    omega
  rw [Nat.testBit_eq_decide_div_mod_eq, Nat.mod_eq_of_lt hlt]
  interval_cases n / 2 ^ w <;> rfl

/-- A push adds the bit pushed to the count and takes the one that leaves from it. -/
theorem ones_push (hn : n < 2 ^ (w + 1)) :
    ones (w + 1) (push (w + 1) n b) + n / 2 ^ w = ones (w + 1) n + b.toNat := by
  have hnew : ones (w + 1) (push (w + 1) n b) = b.toNat + (List.range w).countP n.testBit := by
    unfold ones
    rw [List.range_succ_eq_map, List.countP_cons, List.countP_map,
      testBit_push_zero (Nat.succ_pos w)]
    have hcongr : (List.range w).countP ((push (w + 1) n b).testBit ∘ Nat.succ) =
        (List.range w).countP n.testBit := by
      apply List.countP_congr
      intro k hk
      have hlt := List.mem_range.1 hk
      simp [testBit_push_succ (Nat.succ_lt_succ hlt)]
    rw [hcongr]
    cases b <;> simp [Nat.add_comm]
  have hold : ones (w + 1) n = (List.range w).countP n.testBit + n / 2 ^ w := by
    unfold ones
    rw [List.range_succ, List.countP_append, ← testBit_top hn]
    cases h : n.testBit w <;> simp [h]
  omega

end WeNode.Lib.ShiftRegister
