import Mathlib

/-!
# Triples of computations that may fail

A triple whose postcondition says nothing of an exception: whatever the computation returns
satisfies it.
-/

namespace WeNode.Lib

open Std.Do

variable {ε α : Type}

@[spec] theorem ok_spec {a : α} {Q : PostCond α (.except ε .pure)} :
    ⦃Q.1 a⦄ (Except.ok a : Except ε α) ⦃Q⦄ :=
  fun h => h

@[spec] theorem error_spec {e : ε} {Q : PostCond α (.except ε .pure)} :
    ⦃Q.2.1 e⦄ (Except.error e : Except ε α) ⦃Q⦄ :=
  fun h => h

theorem triple_of {x : Except ε α} {c : Prop} {P : α → Prop} (h : c → ∀ a, x = .ok a → P a) :
    ⦃⌜c⌝⦄ x ⦃⇓? a => ⌜P a⌝⦄ := by
  cases x with
  | ok a => exact fun hc => h hc a rfl
  | error e => exact fun _ => trivial

theorem of_triple {x : Except ε α} {c : Prop} {P : α → Prop} (h : ⦃⌜c⌝⦄ x ⦃⇓? a => ⌜P a⌝⦄)
    (hc : c) {a : α} (ha : x = .ok a) : P a := by
  subst ha
  exact h hc

theorem triple_ok {x : Except ε α} : ⦃⌜True⌝⦄ x ⦃⇓? a => ⌜x = .ok a⌝⦄ :=
  triple_of fun _ _ h => h

end WeNode.Lib
