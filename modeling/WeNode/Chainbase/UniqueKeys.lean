import WeNode.Chainbase.Sessions

/-!
# Undo and further unique keys

The changes of one session on an index with unique keys besides the id.  A change that a key
refuses throws: `emplace` leaves the index as it was, `modify` has noted the object by then and
loses it.  `undo` restores the changed objects before it erases the new ones.
-/

namespace WeNode.Chainbase

open Std WeNode.Lib

variable {α : Type}

/-- A change made inside a session. -/
inductive Change (α : Type)
  | create (c : Nat → α)
  | modify (id : Nat) (f : α → α)
  | remove (id : Nat)

def GenericIndex.change (clash : α → α → Bool) (idx : GenericIndex α) : Change α → GenericIndex α
  | .create c => idx.emplace clash c
  | .modify id f => idx.modify clash id f
  | .remove id => idx.remove id

/- An index in a session that holds the changes made to it. -/
def GenericIndex.inSession (clash : α → α → Bool) (idx : GenericIndex α) (changes : List (Change α)) :
    GenericIndex α :=
  changes.foldl (change clash) idx.startUndoSession

/-- The index of a session that started from `idx`, and its undo state. -/
structure Session (idx s : GenericIndex α) (u : UndoState α) : Prop where
  stack : s.stack = u :: idx.stack
  revision : s.revision = idx.revision + 1
  oldNextId : u.oldNextId = idx.nextId
  entry : ∀ id : Nat, Entry True (u.noted id) idx.indices[id]? s.indices[id]?
  nextId_le : idx.nextId ≤ s.nextId
  below : s.contents.Below
  fresh : ∀ id ∈ u.newIds, id < s.nextId

variable {clash : α → α → Bool} {idx s : GenericIndex α} {u : UndoState α}

theorem session_start (hb : idx.contents.Below) :
    Session idx idx.startUndoSession { oldNextId := idx.nextId, revision := idx.revision + 1 } where
  stack := rfl
  revision := rfl
  oldNextId := rfl
  entry _ := .nop _
  nextId_le := Nat.le_refl _
  below := hb
  fresh _ hid := absurd hid ExtTreeSet.not_mem_empty

theorem note_of_stack {s : GenericIndex α} {rest : List (UndoState α)} (h : s.stack = u :: rest)
    (f : UndoState α → UndoState α) : s.note f = { s with stack := f u :: rest } := by
  unfold GenericIndex.note
  rw [h]

namespace Session

theorem create (h : Session idx s u) (hb : idx.contents.Below) (c : Nat → α) :
    ∃ u', Session idx (s.emplace clash c) u' := by
  unfold GenericIndex.emplace
  dsimp only
  split
  · exact ⟨u, h⟩
  · have hmem : ∀ {k : Nat}, k ∈ u.newIds.insert s.nextId → k = s.nextId ∨ k ∈ u.newIds := by
      intro k hk
      rw [ExtTreeSet.mem_insert] at hk
      exact hk.imp (fun he => (Nat.compare_eq_eq.mp he).symm) fun hk => hk
    rw [note_of_stack (by exact h.stack)]
    refine ⟨u.onCreate s.nextId, rfl, h.revision, h.oldNextId, ?_, Nat.le_succ_of_le h.nextId_le,
      ?_, ?_⟩
    · have hnone : s.indices[s.nextId]? = none := h.below.get (Nat.le_refl _)
      have hbefore : idx.indices[s.nextId]? = none := hb.get h.nextId_le
      refine UndoState.entries_create h.entry hnone hbefore ?_ _
      cases hnew : (u.noted s.nextId).new with
      | false => rfl
      | true => exact absurd (h.fresh _ (ExtTreeSet.mem_iff_contains.mpr hnew)) (by omega)
    · intro k hk
      rcases ExtTreeMap.mem_insert.mp hk with he | hk
      · rw [← Nat.compare_eq_eq.mp he]
        exact Nat.lt_succ_self _
      · exact Nat.lt_succ_of_lt (h.below k hk)
    · intro k hk
      rcases hmem hk with rfl | hk
      · exact Nat.lt_succ_self _
      · exact Nat.lt_succ_of_lt (h.fresh k hk)

/- A key that is taken loses the object, else it is changed; its note is the same. -/
theorem modify (h : Session idx s u) (id : Nat) (f : α → α) :
    ∃ u', Session idx (s.modify clash id f) u' := by
  unfold GenericIndex.modify
  cases hv : s.indices[id]? with
  | none => exact ⟨u, h⟩
  | some v =>
    have hid : id < s.nextId := h.below id (ExtTreeMap.mem_iff_isSome_getElem?.mpr (by
      simp [GenericIndex.contents, hv]))
    dsimp only
    rw [note_of_stack h.stack]
    split
    · exact ⟨u.onModify id v, rfl, h.revision, (u.onModify_oldNextId id v).trans h.oldNextId,
        UndoState.entries_lose h.entry hv trivial, h.nextId_le,
        fun k hk => h.below k (ExtTreeMap.mem_of_mem_erase hk),
        fun k hk => h.fresh k (u.onModify_newIds id v ▸ hk)⟩
    · refine ⟨u.onModify id v, rfl, h.revision, (u.onModify_oldNextId id v).trans h.oldNextId,
        UndoState.entries_modify h.entry hv _, h.nextId_le, ?_,
        fun k hk => h.fresh k (u.onModify_newIds id v ▸ hk)⟩
      intro k hk
      rcases ExtTreeMap.mem_insert.mp hk with he | hk
      · rw [← Nat.compare_eq_eq.mp he]
        exact hid
      · exact h.below k hk

theorem remove (h : Session idx s u) (id : Nat) : ∃ u', Session idx (s.remove id) u' := by
  unfold GenericIndex.remove
  cases hv : s.indices[id]? with
  | none => exact ⟨u, h⟩
  | some v =>
    dsimp only
    rw [note_of_stack h.stack]
    exact ⟨u.onRemove id v, rfl, h.revision, (u.onRemove_oldNextId id v).trans h.oldNextId,
      UndoState.entries_remove h.entry hv, h.nextId_le,
      fun k hk => h.below k (ExtTreeMap.mem_of_mem_erase hk),
      fun k hk => h.fresh k (u.mem_newIds_of_onRemove hk)⟩

theorem run (changes : List (Change α)) (h : Session idx s u) (hb : idx.contents.Below) :
    ∃ u', Session idx (changes.foldl (GenericIndex.change clash) s) u' := by
  induction changes generalizing s u with
  | nil => exact ⟨u, h⟩
  | cons c changes ih =>
    cases c with
    | create c =>
      obtain ⟨u', hu⟩ := h.create hb c
      exact ih hu
    | modify id f =>
      obtain ⟨u', hu⟩ := h.modify id f
      exact ih hu
    | remove id =>
      obtain ⟨u', hu⟩ := h.remove id
      exact ih hu

theorem undo_eq (h : Session idx s u) : s.undo clash = do
    let m ← u.restore clash s.indices
    return { idx with indices := m } := by
  unfold GenericIndex.undo
  rw [h.stack, h.revision]
  dsimp only
  rw [h.oldNextId, Int.add_sub_cancel]

end Session

theorem session_of_changes (clash : α → α → Bool) (hb : idx.contents.Below)
    (changes : List (Change α)) : ∃ u, Session idx (idx.inSession clash changes) u :=
  (session_start hb).run changes hb

/-- The undo state on top of the stack is one that `undo` can restore from. -/
def GenericIndex.Restorable (clash : α → α → Bool) (s : GenericIndex α) : Prop :=
  ∀ u ∈ s.stack.head?, Clear clash u s.indices

theorem Session.restorable_iff (h : Session idx s u) :
    s.Restorable clash ↔ Clear clash u s.indices := by
  unfold GenericIndex.Restorable
  rw [h.stack]
  simp

theorem restorable_of_undo (hb : idx.contents.Below) (hd : Distinct clash idx.indices)
    {changes : List (Change α)} {r : GenericIndex α}
    (hr : (idx.inSession clash changes).undo clash = .ok r) :
    (idx.inSession clash changes).Restorable clash := by
  obtain ⟨u, h⟩ := session_of_changes clash hb changes
  rw [h.undo_eq] at hr
  cases hm : u.restore clash (idx.inSession clash changes).indices with
  | error e =>
    rw [hm] at hr
    cases hr
  | ok m => exact h.restorable_iff.2 (clear_of_restore hd h.entry hm)

/- The index is what it was at the start, its undo states, revision and next id included. -/
theorem undo_of_restorable (hb : idx.contents.Below) (hd : Distinct clash idx.indices)
    {changes : List (Change α)} (hr : (idx.inSession clash changes).Restorable clash) :
    (idx.inSession clash changes).undo clash = .ok idx := by
  obtain ⟨u, h⟩ := session_of_changes clash hb changes
  rw [h.undo_eq, restore_of_clear hd h.entry (h.restorable_iff.1 hr)]
  rfl

/-- After any changes in a session, refused or not, `undo` returns and gives back the objects of
the start if and only if no object noted was lost, and no old value has a unique key of a new
object or of a changed object that is restored after it. -/
theorem undo_inSession_iff (hb : idx.contents.Below) (hd : Distinct clash idx.indices)
    (changes : List (Change α)) :
    (∃ r, (idx.inSession clash changes).undo clash = .ok r ∧ r.indices = idx.indices) ↔
      (idx.inSession clash changes).Restorable clash := by
  constructor
  · rintro ⟨r, hr, -⟩
    exact restorable_of_undo hb hd hr
  · intro hr
    exact ⟨idx, undo_of_restorable hb hd hr, rfl⟩

/- Two values with one unique key. -/
def sameKey {κ : Type} [DecidableEq κ] (key : α → κ) (a b : α) : Bool := decide (key a = key b)

/- An index with one object, whose key is its value. -/
def oneObject (key : Nat) : GenericIndex Nat :=
  { nextId := 1, indices := (∅ : ExtTreeMap Nat Nat).insert 0 key }

theorem oneObject_below (key : Nat) : (oneObject key).contents.Below := by
  intro k hk
  rcases ExtTreeMap.mem_insert.mp hk with he | hk
  · rw [← Nat.compare_eq_eq.mp he]
    exact Nat.lt_succ_self _
  · exact absurd hk ExtTreeMap.not_mem_empty

theorem oneObject_distinct (key : Nat) : Distinct (sameKey id) (oneObject key).indices := by
  intro i j x y hij hi hj
  have hnone : ∀ k : Nat, k ≠ 0 → (oneObject key).indices[k]? = none := by
    intro k hk
    rw [show (oneObject key).indices = (∅ : ExtTreeMap Nat Nat).insert 0 key from rfl, get_insert,
      if_neg hk]
    exact ExtTreeMap.getElem?_empty
  by_cases hi0 : i = 0
  · rw [hnone j (by omega)] at hj
    cases hj
  · rw [hnone i hi0] at hi
    cases hi

/-- An object gives up its key, a new one takes it, and the session cannot be undone; nor can one
in which a `modify` failed. -/
theorem undo_inSession_fails :
    ((oneObject 10).contents.Below ∧ Distinct (sameKey id) (oneObject 10).indices) ∧
    ¬ (∃ r, ((oneObject 10).inSession (sameKey id)
        [.modify 0 fun _ => 20, .create fun _ => 10]).undo (sameKey id) = .ok r) ∧
    ¬ (∃ r, ((oneObject 10).inSession (sameKey id)
        [.create fun _ => 20, .modify 0 fun _ => 20]).undo (sameKey id) = .ok r) := by
  refine ⟨⟨oneObject_below 10, oneObject_distinct 10⟩, ?_, ?_⟩
  · rintro ⟨r, hr⟩
    cases hr
  · rintro ⟨r, hr⟩
    cases hr

theorem undo_inSession_iff_swap :
    ((oneObject 10).contents.Below ∧ Distinct (sameKey id) (oneObject 10).indices) ∧
    ((∃ r, ((oneObject 10).inSession (sameKey id)
        [.modify 0 fun _ => 20, .modify 0 fun _ => 10, .create fun _ => 20]).undo (sameKey id) =
          .ok r ∧ r.indices = (oneObject 10).indices) ↔
      ((oneObject 10).inSession (sameKey id)
        [.modify 0 fun _ => 20, .modify 0 fun _ => 10, .create fun _ => 20]).Restorable
          (sameKey id)) :=
  ⟨⟨oneObject_below 10, oneObject_distinct 10⟩,
    undo_inSession_iff (oneObject_below 10) (oneObject_distinct 10) _⟩

end WeNode.Chainbase
