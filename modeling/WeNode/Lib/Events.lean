/-!
# Runs of a system of events

The states that a system reaches by events some condition allows, and the rule for what all of them
have in common.
-/

namespace WeNode.Lib

variable {σ α : Type}

/-- The states of the runs from `s₀` in which every event is allowed in the state it meets. -/
inductive Reaches (step : σ → α → Option σ) (allowed : σ → α → Prop) (s₀ : σ) : σ → Prop
  | start : Reaches step allowed s₀ s₀
  | next {s s' : σ} (a : α) (h : Reaches step allowed s₀ s) (ha : allowed s a)
    (hs : step s a = some s') : Reaches step allowed s₀ s'

namespace Reaches

variable {step : σ → α → Option σ} {allowed : σ → α → Prop} {s₀ s s' : σ}

/-- What holds at the start and is kept by every allowed event holds in all states reached. -/
theorem invariant {P : σ → Prop} (h₀ : P s₀)
    (hstep : ∀ s a s', P s → allowed s a → step s a = some s' → P s')
    (h : Reaches step allowed s₀ s) : P s := by
  induction h with
  | start => exact h₀
  | next a _ ha hs ih => exact hstep _ a _ ih ha hs

theorem trans (h : Reaches step allowed s₀ s) (h' : Reaches step allowed s s') :
    Reaches step allowed s₀ s' := by
  induction h' with
  | start => exact h
  | next a _ ha hs ih => exact .next a ih ha hs

/-- A list of events that checks what is allowed as it goes. -/
theorem of_run [∀ s a, Decidable (allowed s a)] {l : List α}
    (h : l.foldlM (fun s a => if allowed s a then step s a else none) s₀ = some s) :
    Reaches step allowed s₀ s := by
  induction l generalizing s₀ with
  | nil =>
    cases h
    exact .start
  | cons a l ih =>
    rw [List.foldlM_cons] at h
    obtain ⟨s₁, h₁, h⟩ := Option.bind_eq_some_iff.1 h
    split at h₁
    · next ha => exact trans (.next a .start ha h₁) (ih h)
    · cases h₁

end Reaches

end WeNode.Lib
