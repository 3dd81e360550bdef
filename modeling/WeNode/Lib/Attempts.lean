import Mathlib.Tactic.Common

/-!
# Changes that may throw half way

An exception leaves the state as it was made up to there.  What does not come to an end leaves none.
-/

namespace WeNode.Lib

variable {σ ε α : Type}

/- A value, or the state that an exception leaves. -/
abbrev Attempt (σ α : Type) := Except (Option σ) α

namespace Attempt

def left : Attempt σ σ → Option σ
  | .ok s => some s
  | .error s => s

/- A value that is looked up, without a change of the state. -/
def orThrow (x : Except ε α) (s : σ) : Attempt σ α := x.mapError fun _ => some s

/- What holds of the state that is left. -/
def Keeps (P : σ → Prop) (x : Attempt σ σ) : Prop := ∀ s, x.left = some s → P s

variable {P Q : σ → Prop} {x : Attempt σ σ} {s : σ}

theorem Keeps.ok (h : P s) : Keeps P (.ok s) := by
  intro t ht
  cases ht
  exact h

theorem Keeps.mono (h : Keeps P x) (hpq : ∀ s, P s → Q s) : Keeps Q x := fun s hs => hpq s (h s hs)

/-- An exception of the first part leaves what the whole keeps. -/
theorem Keeps.bind {f : σ → Attempt σ σ} (h : Keeps P x) (hq : ∀ s, P s → Q s)
    (hf : ∀ s, P s → Keeps Q (f s)) : Keeps Q (x >>= f) := by
  cases x with
  | ok t => exact hf t (h t rfl)
  | error t => exact fun s hs => hq s (h s hs)

theorem Keeps.lookup {y : Except ε α} {f : α → Attempt σ σ} (hs : P s)
    (hf : ∀ a, y = .ok a → Keeps P (f a)) : Keeps P (orThrow y s >>= f) := by
  cases y with
  | ok a => exact hf a rfl
  | error e =>
    intro t ht
    cases ht
    exact hs

theorem Keeps.foldlM {f : σ → α → Attempt σ σ} {l : List α} (hs : P s)
    (hf : ∀ a ∈ l, ∀ s, P s → Keeps P (f s a)) : Keeps P (l.foldlM f s) := by
  induction l generalizing s with
  | nil => exact .ok hs
  | cons a l ih =>
    rw [List.foldlM_cons]
    refine (hf a (List.mem_cons_self ..) s hs).bind (fun _ h => h) fun t ht => ?_
    exact ih ht fun b hb => hf b (List.mem_cons_of_mem a hb)

end Attempt

end WeNode.Lib
