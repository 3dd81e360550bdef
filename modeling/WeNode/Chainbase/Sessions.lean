import WeNode.Chainbase.Undo

/-!
# Sessions of an index keyed by id

Every run of calls on an index whose only unique key is the id: undoing a session gives back the
contents at its start, and squashing it into the one below keeps what undoing both gives back.
-/

namespace WeNode.Chainbase

open Std WeNode.Lib

variable {α : Type}

/- The id is the only unique key. -/
def idOnly (_ _ : α) : Bool := false

/-- The objects and the next id of an index. -/
structure Contents (α : Type) where
  objects : ExtTreeMap Nat α
  nextId : Nat

def GenericIndex.contents (idx : GenericIndex α) : Contents α := ⟨idx.indices, idx.nextId⟩

/- The contents at the start of each session on the stack, after a call.  A session squashed is
part of the one below, or of none. -/
def Call.starts (idx : GenericIndex α) (starts : List (Contents α)) : Call α → List (Contents α)
  | .start => idx.contents :: starts
  | .squash => starts.tail
  | .undo => starts.tail
  | _ => starts

/- A call, with the record of the session starts that the index itself does not keep. -/
def traced (clash : α → α → Bool) (s : GenericIndex α × List (Contents α)) (c : Call α) :
    Except Failure (GenericIndex α × List (Contents α)) := do
  let idx ← s.1.call clash c
  return (idx, c.starts s.1 s.2)

/-! ### What a stack records -/

/-- The undo state holds the difference of two contents. -/
structure Records (u : UndoState α) (before now : Contents α) : Prop where
  entry : ∀ id : Nat, Entry False (u.noted id) before.objects[id]? now.objects[id]?
  oldNextId : u.oldNextId = before.nextId
  nextId_le : before.nextId ≤ now.nextId
  fresh : ∀ id ∈ u.newIds, before.nextId ≤ id

/- Ids are handed out in order. -/
def Contents.Below (c : Contents α) : Prop := ∀ id ∈ c.objects, id < c.nextId

inductive Tracks : List (UndoState α) → Contents α → List (Contents α) → Prop
  | nil {c : Contents α} (hc : c.Below) : Tracks [] c []
  | cons {u : UndoState α} {stack : List (UndoState α)} {c before : Contents α}
      {starts : List (Contents α)} (hc : c.Below) (hu : Records u before c)
      (h : Tracks stack before starts) : Tracks (u :: stack) c (before :: starts)

theorem Tracks.ids_below {stack : List (UndoState α)} {c : Contents α} {starts : List (Contents α)}
    (h : Tracks stack c starts) : c.Below := by
  cases h with
  | nil hc => exact hc
  | cons hc => exact hc

theorem Tracks.length_eq {stack : List (UndoState α)} {c : Contents α}
    {starts : List (Contents α)} (h : Tracks stack c starts) : starts.length = stack.length := by
  induction h with
  | nil => rfl
  | cons _ _ _ ih => simp [ih]

theorem Contents.Below.get {c : Contents α} (h : c.Below) {id : Nat} (hid : c.nextId ≤ id) :
    c.objects[id]? = none := by
  apply ExtTreeMap.getElem?_eq_none
  intro hmem
  exact absurd (h id hmem) (by omega)

/-- The top of the stack notes a change, and the contents change. -/
theorem Tracks.note {stack : List (UndoState α)} {c c' : Contents α} {starts : List (Contents α)}
    (h : Tracks stack c starts) (hc' : c'.Below) {f : UndoState α → UndoState α}
    (hf : ∀ (u : UndoState α) (before : Contents α), before.Below → Records u before c →
      Records (f u) before c') :
    Tracks (match stack with | [] => [] | u :: rest => f u :: rest) c' starts := by
  cases h with
  | nil => exact .nil hc'
  | cons hc hu h => exact .cons hc' (hf _ _ h.ids_below hu) h

namespace Records

variable {u : UndoState α} {before now : Contents α} {id : Nat} {v : α}

theorem modify (h : Records u before now) (hv : now.objects[id]? = some v) (w : α) :
    Records (u.onModify id v) before { now with objects := now.objects.insert id w } where
  entry := UndoState.entries_modify h.entry hv w
  oldNextId := (u.onModify_oldNextId id v).trans h.oldNextId
  nextId_le := h.nextId_le
  fresh k hk := h.fresh k (u.onModify_newIds id v ▸ hk)

theorem remove (h : Records u before now) (hv : now.objects[id]? = some v) :
    Records (u.onRemove id v) before { now with objects := now.objects.erase id } where
  entry := UndoState.entries_remove h.entry hv
  oldNextId := (u.onRemove_oldNextId id v).trans h.oldNextId
  nextId_le := h.nextId_le
  fresh k hk := h.fresh k (u.mem_newIds_of_onRemove hk)

theorem create (h : Records u before now) (hb : before.Below) (hn : now.Below) (w : α) :
    Records (u.onCreate now.nextId) before
      ⟨now.objects.insert now.nextId w, now.nextId + 1⟩ where
  entry := by
    have hnone := hn.get (Nat.le_refl _)
    refine UndoState.entries_create h.entry hnone (hb.get h.nextId_le) ?_ w
    cases hnew : (u.noted now.nextId).new with
    | false => rfl
    | true =>
      have hpresent := (h.entry now.nextId).present (.inl hnew)
      rw [hnone] at hpresent
      cases hpresent
  oldNextId := h.oldNextId
  nextId_le := Nat.le_succ_of_le h.nextId_le
  fresh k hk := by
    have hk' : k ∈ u.newIds.insert now.nextId := hk
    rw [ExtTreeSet.mem_insert] at hk'
    rcases hk' with he | hk'
    · rw [← Nat.compare_eq_eq.mp he]
      exact h.nextId_le
    · exact h.fresh k hk'

theorem merge {prev state : UndoState α} {first second now : Contents α}
    (h : Records prev first second) (h' : Records state second now) (hf : first.Below) :
    Records (prev.merge state) first now where
  entry k := by
    rw [noted_merge]
    refine (h.entry k).merge (h'.entry k) ?_
    intro hnew
    have hk := h'.fresh k (ExtTreeSet.mem_iff_contains.mpr hnew)
    exact hf.get (h.nextId_le.trans hk)
  oldNextId := (merge_oldNextId prev state).trans h.oldNextId
  nextId_le := h.nextId_le.trans h'.nextId_le
  fresh k hk := by
    have hnew : ((prev.noted k).merge (state.noted k)).new = true := by
      rw [← noted_merge]
      exact ExtTreeSet.mem_iff_contains.mp hk
    rcases Note.new_of_merge hnew with hp | hs
    · exact h.fresh k (ExtTreeSet.mem_iff_contains.mpr hp)
    · exact h.nextId_le.trans (h'.fresh k (ExtTreeSet.mem_iff_contains.mpr hs))

/-- With the id as the only key nothing stands in the way of `undo`. -/
theorem restore (h : Records u before now) : u.restore idOnly now.objects = .ok before.objects := by
  have he : ∀ k : Nat, Entry True (u.noted k) before.objects[k]? now.objects[k]? :=
    fun k => (h.entry k).weaken
  refine restore_of_clear (fun _ _ _ _ _ _ _ => rfl) he ⟨?_, ?_⟩
  · intro k hk
    exact ExtTreeMap.mem_iff_isSome_getElem?.mpr
      ((h.entry k).present (.inl (ExtTreeSet.mem_iff_contains.mp hk)))
  · intro k x hx
    refine ⟨?_, fun _ _ _ _ => rfl⟩
    have hold : (u.noted k).old.isSome := by
      rw [show (u.noted k).old = some x from hx]
      rfl
    exact ExtTreeMap.mem_iff_isSome_getElem?.mpr ((h.entry k).present (.inr hold))

end Records

/-! ### What a call preserves -/

namespace Tracks

variable {idx : GenericIndex α} {starts : List (Contents α)}

theorem start (h : Tracks idx.stack idx.contents starts) :
    Tracks idx.startUndoSession.stack idx.startUndoSession.contents (idx.contents :: starts) := by
  refine .cons h.ids_below ⟨?_, rfl, Nat.le_refl _, ?_⟩ h
  · intro k
    exact .nop _
  · intro k hk
    exact absurd hk ExtTreeSet.not_mem_empty

theorem create (h : Tracks idx.stack idx.contents starts) (c : Nat → α) :
    Tracks (idx.emplace idOnly c).stack (idx.emplace idOnly c).contents starts := by
  unfold GenericIndex.emplace
  dsimp only
  split
  · exact h
  · have hbelow : (⟨idx.indices.insert idx.nextId (c idx.nextId), idx.nextId + 1⟩ :
        Contents α).Below := by
      intro k hk
      rcases ExtTreeMap.mem_insert.mp hk with he | hk
      · rw [← Nat.compare_eq_eq.mp he]
        exact Nat.lt_succ_self _
      · exact Nat.lt_succ_of_lt (h.ids_below k hk)
    have := h.note hbelow (f := (·.onCreate idx.nextId)) fun u before hb hu =>
      hu.create hb h.ids_below (c idx.nextId)
    unfold GenericIndex.note GenericIndex.contents
    dsimp only
    cases hs : idx.stack <;> simpa [hs] using this

theorem modify (h : Tracks idx.stack idx.contents starts) (id : Nat) (f : α → α) :
    Tracks (idx.modify idOnly id f).stack (idx.modify idOnly id f).contents starts := by
  unfold GenericIndex.modify
  cases hv : idx.indices[id]? with
  | none => exact h
  | some v =>
    have hbelow : (⟨idx.indices.insert id (f v), idx.nextId⟩ : Contents α).Below := by
      intro k hk
      rcases ExtTreeMap.mem_insert.mp hk with he | hk
      · rw [← Nat.compare_eq_eq.mp he]
        exact h.ids_below id (ExtTreeMap.mem_iff_isSome_getElem?.mpr (by simp [GenericIndex.contents, hv]))
      · exact h.ids_below k hk
    have := h.note hbelow (f := (·.onModify id v)) fun u before _ hu => hu.modify hv (f v)
    unfold GenericIndex.note GenericIndex.contents taken idOnly
    cases hs : idx.stack <;> simpa [hs] using this

theorem remove (h : Tracks idx.stack idx.contents starts) (id : Nat) :
    Tracks (idx.remove id).stack (idx.remove id).contents starts := by
  unfold GenericIndex.remove
  cases hv : idx.indices[id]? with
  | none => exact h
  | some v =>
    have hbelow : (⟨idx.indices.erase id, idx.nextId⟩ : Contents α).Below :=
      fun k hk => h.ids_below k (ExtTreeMap.mem_of_mem_erase hk)
    have := h.note hbelow (f := (·.onRemove id v)) fun u before _ hu => hu.remove hv
    unfold GenericIndex.note GenericIndex.contents
    cases hs : idx.stack <;> simpa [hs] using this

theorem squash (h : Tracks idx.stack idx.contents starts) :
    Tracks idx.squash.stack idx.squash.contents starts.tail := by
  obtain ⟨stack, revision, nextId, indices⟩ := idx
  cases h with
  | nil hc => exact .nil hc
  | cons hc hu h =>
    cases h with
    | nil => exact .nil hc
    | cons hc' hu' h => exact .cons hc (hu'.merge hu h.ids_below) h

theorem undo (h : Tracks idx.stack idx.contents starts) :
    ∃ idx', idx.undo idOnly = .ok idx' ∧ Tracks idx'.stack idx'.contents starts.tail ∧
      idx'.contents = starts.headD idx.contents ∧ idx'.stack = idx.stack.tail := by
  obtain ⟨stack, revision, nextId, indices⟩ := idx
  cases h with
  | nil hc => exact ⟨_, rfl, .nil hc, rfl, rfl⟩
  | @cons u rest c before starts hc hu h =>
    refine ⟨⟨rest, revision - 1, u.oldNextId, before.objects⟩, ?_, ?_, ?_, rfl⟩
    · unfold GenericIndex.undo
      dsimp only
      rw [show u.restore idOnly indices = .ok before.objects from hu.restore]
      rfl
    · unfold GenericIndex.contents
      rw [hu.oldNextId]
      exact h
    · unfold GenericIndex.contents
      rw [hu.oldNextId]
      rfl

/-- Undoing the merge of two sessions is undoing both. -/
theorem squash_undo (h : Tracks idx.stack idx.contents starts) (hlen : 2 ≤ idx.stack.length) :
    idx.squash.undo idOnly = idx.undo idOnly >>= (·.undo idOnly) := by
  obtain ⟨stack, revision, nextId, indices⟩ := idx
  cases h with
  | nil => simp at hlen
  | cons hc hu h =>
    cases h with
    | nil => simp at hlen
    | cons hc' hu' h =>
      have hm := hu'.merge hu h.ids_below
      unfold GenericIndex.squash GenericIndex.undo
      dsimp only
      rw [show UndoState.restore idOnly _ indices = .ok _ from hm.restore,
        show UndoState.restore idOnly _ indices = .ok _ from hu.restore]
      simp only [bind, Except.bind, pure, Except.pure]
      rw [hu'.restore, merge_oldNextId]

end Tracks

theorem tracks_traced {s s' : GenericIndex α × List (Contents α)} {c : Call α}
    (h : Tracks s.1.stack s.1.contents s.2) (hs : traced idOnly s c = .ok s') :
    Tracks s'.1.stack s'.1.contents s'.2 := by
  cases c with
  | start => cases hs; exact h.start
  | create c => cases hs; exact h.create c
  | modify id f => cases hs; exact h.modify id f
  | remove id => cases hs; exact h.remove id
  | push => cases hs; exact h
  | squash => cases hs; exact h.squash
  | undo =>
    obtain ⟨idx', hidx, ht, -⟩ := h.undo
    simp only [traced, GenericIndex.call, hidx] at hs
    cases hs
    exact ht

theorem traced_ok {s : GenericIndex α × List (Contents α)} (h : Tracks s.1.stack s.1.contents s.2)
    (c : Call α) : ∃ s', traced idOnly s c = .ok s' := by
  cases c with
  | undo =>
    obtain ⟨idx', hidx, -⟩ := h.undo
    exact ⟨(idx', s.2.tail), by simp only [traced, GenericIndex.call, hidx]; rfl⟩
  | _ => exact ⟨_, rfl⟩

theorem tracks_run (calls : List (Call α)) {s : GenericIndex α × List (Contents α)}
    (h : Tracks s.1.stack s.1.contents s.2) :
    ∃ s', calls.foldlM (traced idOnly) s = .ok s' ∧ Tracks s'.1.stack s'.1.contents s'.2 := by
  induction calls generalizing s with
  | nil => exact ⟨s, rfl, h⟩
  | cons c calls ih =>
    obtain ⟨s₁, hs₁⟩ := traced_ok h c
    obtain ⟨s', hs', ht⟩ := ih (tracks_traced h hs₁)
    refine ⟨s', ?_, ht⟩
    rw [List.foldlM_cons, hs₁]
    exact hs'

/-- Whatever calls were made on an index keyed by id, undoing the session on top of the stack
succeeds and gives back the objects and the next id it started with, and squashing it first and
then undoing once gives the index that undoing twice gives. -/
theorem undo_restores_start (calls : List (Call α)) :
    ∃ idx starts, calls.foldlM (traced idOnly) ({}, []) = .ok (idx, starts) ∧
      starts.length = idx.stack.length ∧
      (∀ start rest, starts = start :: rest →
        ∃ before, idx.undo idOnly = .ok before ∧ before.contents = start) ∧
      (2 ≤ idx.stack.length → idx.squash.undo idOnly = idx.undo idOnly >>= (·.undo idOnly)) := by
  have hnil : Tracks ([] : List (UndoState α)) ⟨∅, 0⟩ [] :=
    .nil fun k hk => absurd hk ExtTreeMap.not_mem_empty
  obtain ⟨⟨idx, starts⟩, hrun, ht⟩ := tracks_run calls (s := ({}, [])) hnil
  refine ⟨idx, starts, hrun, ht.length_eq, ?_, ht.squash_undo⟩
  rintro start rest rfl
  obtain ⟨before, hb, -, hc, -⟩ := ht.undo
  exact ⟨before, hb, hc⟩

end WeNode.Chainbase
