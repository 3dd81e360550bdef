import Mathlib.Data.List.DropRight
import Mathlib.Tactic

/-!
# Versioned states

A state with a stack of undo sessions: starting a session saves the state under the next
revision number, undoing restores the newest saved state (and does nothing on an empty stack),
committing a revision drops the saved states up to it for good.  The results are about stacks
whose saved states form a run of a step relation.
-/

namespace WeNode.Lib

/-- One undo session: the revision it opened and the state before it. -/
structure Saved (σ : Type) where
  revision : Nat
  state : σ
deriving DecidableEq, Repr

/-- A state together with its undo sessions, the newest first. -/
structure Versioned (σ : Type) where
  current : σ
  stack : List (Saved σ)
  revision : Nat
deriving DecidableEq, Repr

namespace Versioned

variable {σ : Type}

def startSession (v : Versioned σ) : Versioned σ :=
  { v with stack := ⟨v.revision + 1, v.current⟩ :: v.stack, revision := v.revision + 1 }

def modify (v : Versioned σ) (s : σ) : Versioned σ := { v with current := s }

def undo (v : Versioned σ) : Versioned σ :=
  match v.stack with
  | [] => v
  | e :: rest => ⟨e.state, rest, v.revision - 1⟩

/-- The sessions that survive a commit: the oldest ones up to revision `r` are dropped. -/
def keepAbove (r : Nat) (l : List (Saved σ)) : List (Saved σ) :=
  l.rdropWhile (fun e => e.revision ≤ r)

def commit (v : Versioned σ) (r : Nat) : Versioned σ := { v with stack := keepAbove r v.stack }

@[simp] theorem startSession_current (v : Versioned σ) : v.startSession.current = v.current := rfl

@[simp] theorem startSession_revision (v : Versioned σ) :
    v.startSession.revision = v.revision + 1 := rfl

@[simp] theorem commit_current (v : Versioned σ) (r : Nat) : (v.commit r).current = v.current := rfl

@[simp] theorem commit_revision (v : Versioned σ) (r : Nat) :
    (v.commit r).revision = v.revision := rfl

@[simp] theorem modify_revision (v : Versioned σ) (s : σ) :
    (v.modify s).revision = v.revision := rfl

@[simp] theorem modify_current (v : Versioned σ) (s : σ) : (v.modify s).current = s := rfl

@[simp] theorem undo_startSession (v : Versioned σ) : v.startSession.undo = v := rfl

theorem keepAbove_cons (r : Nat) (e : Saved σ) (l : List (Saved σ)) (h : r < e.revision) :
    keepAbove r (e :: l) = e :: keepAbove r l := by
  unfold keepAbove List.rdropWhile
  rw [List.reverse_cons, List.dropWhile_append]
  split
  · next hnil =>
    have hd : l.reverse.dropWhile (fun e => e.revision ≤ r) = [] := List.isEmpty_iff.mp hnil
    have hn : ¬ e.revision ≤ r := by omega
    simp [hd, hn]
  · simp

theorem keepAbove_suffix (r : Nat) (l : List (Saved σ)) : keepAbove r l <+: l :=
  List.rdropWhile_prefix _ l

theorem keepAbove_of_le (r : Nat) (l : List (Saved σ)) (h : ∀ e ∈ l, e.revision ≤ r) :
    keepAbove r l = [] := by
  unfold keepAbove
  rw [List.rdropWhile_eq_nil_iff]
  intro e he
  simpa using h e he

/-- A session that is undone leaves nothing but the commits made while it was open, provided
the commits did not reach its own revision. -/
theorem undo_commit_session (v : Versioned σ) (s : σ) (r : Nat) (h : r ≤ v.revision) :
    ((v.startSession.modify s).commit r).undo = v.commit r := by
  have hk : keepAbove r (⟨v.revision + 1, v.current⟩ :: v.stack)
      = ⟨v.revision + 1, v.current⟩ :: keepAbove r v.stack :=
    keepAbove_cons r _ _ (Nat.lt_succ_of_le h)
  simp only [commit, modify, startSession, undo, hk]
  rfl

/-! ### Stacks that record a run -/

/-- The saved states, newest first, are the states of a run of `step` that ends in `s`, and
their revisions count down from `n` without a gap. -/
inductive Chained (step : σ → σ → Prop) : σ → Nat → List (Saved σ) → Prop
  | nil (s : σ) (n : Nat) : Chained step s n []
  | cons {p s : σ} {n : Nat} {l : List (Saved σ)} (hs : step p s) (hl : Chained step p n l) :
      Chained step s (n + 1) (⟨n + 1, p⟩ :: l)

variable {step : σ → σ → Prop}

theorem Chained.of_prefix {s : σ} {n : Nat} {l l' : List (Saved σ)}
    (h : Chained step s n l) (hp : l' <+: l) : Chained step s n l' := by
  induction h generalizing l' with
  | nil s n =>
    rw [List.prefix_nil.mp hp]
    exact .nil s n
  | cons hs hl ih =>
    cases l' with
    | nil => exact .nil _ _
    | cons e l' =>
      obtain ⟨rfl, hp'⟩ := List.cons_prefix_cons.mp hp
      exact .cons hs (ih hp')

theorem Chained.revision_le {s : σ} {n : Nat} {l : List (Saved σ)} (h : Chained step s n l) :
    ∀ e ∈ l, e.revision ≤ n := by
  induction h with
  | nil s n => simp
  | cons hs hl ih =>
    intro e he
    rcases List.mem_cons.mp he with rfl | he
    · exact Nat.le_refl _
    · exact (ih e he).trans (Nat.le_succ _)

/-- On a gap-free stack a commit keeps exactly the newest `n - r` sessions. -/
theorem Chained.keepAbove_eq {s : σ} {n : Nat} {l : List (Saved σ)} (h : Chained step s n l)
    (r : Nat) : keepAbove r l = l.take (n - r) := by
  induction h with
  | nil s n => simp [keepAbove]
  | @cons p s n l hs hl ih =>
    by_cases hr : r ≤ n
    · rw [keepAbove_cons r _ _ (Nat.lt_succ_of_le hr), ih, Nat.succ_sub hr, List.take_succ_cons]
    · have hz : n + 1 - r = 0 := by omega
      rw [hz, List.take_zero]
      apply keepAbove_of_le
      intro e he
      have := (Chained.cons hs hl).revision_le e he
      omega

theorem Chained.length_le {s : σ} {n : Nat} {l : List (Saved σ)} (h : Chained step s n l) :
    l.length ≤ n := by
  induction h with
  | nil s n => simp
  | cons hs hl ih => simpa using ih

/-- `v` records a run of `step`. -/
def Records (step : σ → σ → Prop) (v : Versioned σ) : Prop :=
  Chained step v.current v.revision v.stack

theorem Records.commit {v : Versioned σ} (h : Records step v) (r : Nat) :
    Records step (v.commit r) :=
  Chained.of_prefix h (keepAbove_suffix r v.stack)

theorem Records.startSession {v : Versioned σ} (h : Records step v) {s : σ}
    (hs : step v.current s) : Records step (v.startSession.modify s) :=
  Chained.cons hs h

theorem Records.undo {v : Versioned σ} (h : Records step v) : Records step v.undo := by
  obtain ⟨c, l, n⟩ := v
  cases h with
  | nil => exact .nil _ _
  | cons hs hl => exact hl

/-- Undoing a nonempty recorded stack goes one step back. -/
theorem Records.undo_step {v : Versioned σ} (h : Records step v) (hne : v.stack ≠ []) :
    step v.undo.current v.current ∧ v.undo.revision + 1 = v.revision ∧
      v.undo.stack = v.stack.tail := by
  obtain ⟨c, l, n⟩ := v
  cases h with
  | nil => exact absurd rfl hne
  | cons hs hl => exact ⟨hs, rfl, rfl⟩

theorem Records.commit_length {v : Versioned σ} (h : Records step v) (r : Nat) :
    (v.commit r).stack.length = min (v.revision - r) v.stack.length := by
  simp only [Versioned.commit, Chained.keepAbove_eq h r, List.length_take]

/-- `k` undos on a stack of at least `k` sessions. -/
theorem undo_iterate_stack (v : Versioned σ) (k : Nat) (h : k ≤ v.stack.length) :
    (undo^[k] v).stack = v.stack.drop k ∧ (undo^[k] v).revision = v.revision - k := by
  induction k generalizing v with
  | zero => exact ⟨rfl, rfl⟩
  | succ k ih =>
    obtain ⟨c, l, n⟩ := v
    cases l with
    | nil => simp at h
    | cons e l =>
      rw [Function.iterate_succ_apply]
      obtain ⟨h1, h2⟩ := ih ⟨e.state, l, n - 1⟩ (by simpa using h)
      exact ⟨h1, by rw [show undo ⟨c, e :: l, n⟩ = ⟨e.state, l, n - 1⟩ from rfl, h2]; simp; omega⟩

/-- Undoing the sessions `top` restores what the oldest of them saved. -/
theorem undo_iterate_current (v : Versioned σ) (top low : List (Saved σ)) (s : σ)
    (h : v.stack = top ++ low) (hs : ∀ e, top.getLast? = some e → e.state = s)
    (hn : top = [] → v.current = s) : (undo^[top.length] v).current = s := by
  induction top generalizing v with
  | nil => exact hn rfl
  | cons e top ih =>
    obtain ⟨c, l, n⟩ := v
    simp only at h
    subst h
    rw [List.length_cons, Function.iterate_succ_apply]
    refine ih ⟨e.state, top ++ low, n - 1⟩ rfl ?_ ?_
    · intro e' he'
      refine hs e' ?_
      cases top with
      | nil => simp at he'
      | cons a top => simpa using he'
    · intro ht
      subst ht
      exact hs e rfl

end Versioned

end WeNode.Lib
