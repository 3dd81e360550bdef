import WeNode.Chainbase.UniqueKeys

/-!
# Revisions of the indexes of a database

`chainbase::database` (chainbase.hpp:655-779, chainbase.cpp:149-193): the indexes of a segment,
of which those added to the database take part in its sessions.  The segment outlives the
process; a database that is opened again lists no index until they are added.
-/

namespace WeNode.Chainbase

open Std WeNode.Lib

variable {α : Type} (clash : α → α → Bool)

/-- `chainbase::database`: the indexes of the segment by their type id, and `_index_list`. -/
structure Database (α : Type) where
  segment : ExtTreeMap Nat (GenericIndex α) := ∅
  indexList : List Nat := []

namespace Database

/-- `add_index`: an index of the segment is found, another one constructed; a type id in use is
refused. -/
def addIndex (db : Database α) (typeId : Nat) : Database α :=
  if typeId ∈ db.indexList then db
  else
    { segment := db.segment.insertIfNew typeId {}
      indexList := db.indexList ++ [typeId] }

/- A call on one index. -/
def onIndex (f : GenericIndex α → Except Failure (GenericIndex α)) (db : Database α)
    (typeId : Nat) : Except Failure (Database α) :=
  match db.segment[typeId]? with
  | none => .ok db
  | some idx => do
    let idx ← f idx
    return { db with segment := db.segment.insert typeId idx }

/- A call on every index of the list. -/
def onAll (f : GenericIndex α → Except Failure (GenericIndex α)) (db : Database α) :
    Except Failure (Database α) :=
  db.indexList.foldlM (onIndex f) db

end Database

/-- A call on a database. -/
inductive Step (α : Type)
  /-- the process ends, and another one opens the segment at a head block -/
  | reopen (headBlockNum : Int)
  | addIndex (typeId : Nat)
  | start
  | change (typeId : Nat) (c : Change α)
  | push
  | squash
  | undo
  | commit (revision : Int)

/- An object is changed in an index that was added. -/
def Database.step (db : Database α) : Step α → Except Failure (Database α)
  | .reopen _ => .ok { db with indexList := [] }
  | .addIndex t => .ok (db.addIndex t)
  | .start => db.onAll fun idx => .ok idx.startUndoSession
  | .change t c => if t ∈ db.indexList then db.onIndex (fun idx => .ok (idx.change clash c)) t else .ok db
  | .push => .ok db
  | .squash => db.onAll fun idx => .ok idx.squash
  | .undo => db.onAll fun idx => idx.undo clash
  | .commit r => db.onAll fun idx => .ok (idx.commit r)

/-! ### Stacks that count down -/

/-- The undo states have the revisions `n`, `n - 1`, .. from the newest. -/
def countsDown : Int → List (UndoState α) → Prop
  | _, [] => True
  | n, u :: rest => u.revision = n ∧ countsDown (n - 1) rest

/-- The index stands at a revision, with so many undo states below it. -/
structure Stands (idx : GenericIndex α) (revision : Int) (states : Nat) : Prop where
  revision : idx.revision = revision
  states : idx.stack.length = states
  counts : countsDown idx.revision idx.stack

theorem countsDown_of_prefix {n : Int} {l l' : List (UndoState α)} (h : countsDown n l)
    (hp : l' <+: l) : countsDown n l' := by
  induction l generalizing n l' with
  | nil => rw [List.prefix_nil.mp hp]; trivial
  | cons u l ih =>
    cases l' with
    | nil => trivial
    | cons v l' =>
      obtain ⟨rfl, hp'⟩ := List.cons_prefix_cons.mp hp
      exact ⟨h.1, ih h.2 hp'⟩

theorem countsDown_le {n : Int} {l : List (UndoState α)} (h : countsDown n l) :
    ∀ u ∈ l, u.revision ≤ n := by
  induction l generalizing n with
  | nil => simp
  | cons v l ih =>
    intro u hu
    rcases List.mem_cons.mp hu with rfl | hu
    · exact Int.le_of_eq h.1
    · have := ih h.2 u hu
      omega

/-- On such a stack the loop of `commit` discards exactly the states up to the revision. -/
theorem commit_stack {n : Int} {l : List (UndoState α)} (h : countsDown n l) (r : Int) :
    l.rdropWhile (fun s => decide (s.revision ≤ r)) = l.filter fun s => decide (r < s.revision) := by
  induction l generalizing n with
  | nil => rfl
  | cons u l ih =>
    by_cases hu : u.revision ≤ r
    · have hall : ∀ v ∈ u :: l, v.revision ≤ r := by
        intro v hv
        have := countsDown_le h v hv
        have := h.1
        omega
      rw [List.rdropWhile_eq_nil_iff.mpr (by simpa using hall), eq_comm, List.filter_eq_nil_iff]
      intro v hv
      have := hall v hv
      simp only [decide_eq_true_eq]
      omega
    · rw [List.filter_cons_of_pos (by simpa using hu), ← ih h.2]
      unfold List.rdropWhile
      rw [List.reverse_cons, List.dropWhile_append]
      split
      · next hnil =>
        have hd := List.isEmpty_iff.mp hnil
        simp [hd, hu]
      · simp

theorem countsDown_map {n : Int} {l : List (UndoState α)} (h : countsDown n l) :
    l.map UndoState.revision = (List.range l.length).map fun (i : Nat) => n - i := by
  induction l generalizing n with
  | nil => rfl
  | cons u l ih =>
    rw [List.map_cons, ih h.2, h.1, List.length_cons, List.range_succ_eq_map, List.map_cons,
      List.map_map]
    congr 1
    · simp
    · apply List.map_congr_left
      intro i _
      simp only [Function.comp_apply, Nat.succ_eq_add_one]
      omega

/- How many states a commit keeps. -/
def kept (n : Int) (states : Nat) (r : Int) : Nat :=
  (((List.range states).map fun (i : Nat) => n - i).filter fun s => decide (r < s)).length

namespace Stands

variable {clash : α → α → Bool} {idx idx' : GenericIndex α} {n : Int} {k : Nat}

theorem start (h : Stands idx n k) : Stands idx.startUndoSession (n + 1) (k + 1) where
  revision := congrArg (· + 1) h.revision
  states := congrArg Nat.succ h.states
  counts := ⟨rfl, by simpa [GenericIndex.startUndoSession] using h.counts⟩

theorem undo (h : Stands idx n k) (hu : idx.undo clash = .ok idx') :
    Stands idx' (if k = 0 then n else n - 1) (k - 1) := by
  obtain ⟨stack, revision, nextId, indices⟩ := idx
  obtain ⟨rfl, rfl, hc⟩ := h
  cases stack with
  | nil =>
    cases hu
    exact ⟨rfl, rfl, hc⟩
  | cons u rest =>
    unfold GenericIndex.undo at hu
    dsimp only at hu
    cases hr : u.restore clash indices with
    | error e =>
      rw [hr] at hu
      cases hu
    | ok m =>
      rw [hr] at hu
      cases hu
      exact ⟨rfl, rfl, hc.2⟩

/-- A session squashed into the one below it ends with its revision. -/
theorem squash (h : Stands idx n k) (hk : k ≠ 1) :
    Stands idx.squash (if k = 0 then n else n - 1) (k - 1) := by
  obtain ⟨stack, revision, nextId, indices⟩ := idx
  obtain ⟨rfl, rfl, hc⟩ := h
  match stack, hc, hk with
  | [], hc, _ => exact ⟨rfl, rfl, hc⟩
  | [u], _, hk => exact absurd rfl hk
  | u :: prev :: rest, hc, _ =>
    refine ⟨rfl, rfl, ?_, hc.2.2⟩
    rw [merge_revision]
    exact hc.2.1

theorem commit (h : Stands idx n k) (r : Int) : Stands (idx.commit r) n (kept n k r) := by
  obtain ⟨stack, revision, nextId, indices⟩ := idx
  obtain ⟨rfl, rfl, hc⟩ := h
  refine ⟨rfl, ?_, countsDown_of_prefix hc (List.rdropWhile_prefix _ _)⟩
  unfold GenericIndex.commit kept
  dsimp only
  rw [commit_stack hc r, ← countsDown_map hc, List.filter_map, List.length_map]
  rfl

end Stands

/-- A change of objects keeps the revisions. -/
theorem change_revisions (idx : GenericIndex α) (c : Change α) :
    (idx.change clash c).revision = idx.revision ∧
      (idx.change clash c).stack.map UndoState.revision = idx.stack.map UndoState.revision := by
  have hnote : ∀ (idx : GenericIndex α) (f : UndoState α → UndoState α),
      (∀ u, (f u).revision = u.revision) → (idx.note f).revision = idx.revision ∧
        (idx.note f).stack.map UndoState.revision = idx.stack.map UndoState.revision := by
    intro idx f hf
    unfold GenericIndex.note
    cases hs : idx.stack with
    | nil => simp [hs]
    | cons u rest => simp [hf]
  cases c with
  | create c =>
    unfold GenericIndex.change GenericIndex.emplace
    dsimp only
    split
    · exact ⟨rfl, rfl⟩
    · exact hnote _ _ fun u => rfl
  | modify id f =>
    unfold GenericIndex.change GenericIndex.modify
    dsimp only
    split
    · exact ⟨rfl, rfl⟩
    · split <;> exact hnote _ _ fun u => u.onModify_revision id _
  | remove id =>
    unfold GenericIndex.change GenericIndex.remove
    dsimp only
    split
    · exact ⟨rfl, rfl⟩
    · exact hnote _ _ fun u => u.onRemove_revision id _

theorem countsDown_of_map {n : Int} {l l' : List (UndoState α)} (h : countsDown n l)
    (hl : l'.map UndoState.revision = l.map UndoState.revision) : countsDown n l' := by
  induction l generalizing n l' with
  | nil =>
    rw [List.map_eq_nil_iff.mp hl]
    trivial
  | cons u l ih =>
    cases l' with
    | nil => trivial
    | cons v l' =>
      simp only [List.map_cons, List.cons.injEq] at hl
      exact ⟨hl.1.trans h.1, ih h.2 hl.2⟩

theorem Stands.change {idx : GenericIndex α} {n : Int} {k : Nat} (h : Stands idx n k)
    (c : Change α) : Stands (idx.change clash c) n k := by
  obtain ⟨hr, hs⟩ := change_revisions clash idx c
  refine ⟨hr.trans h.revision, ?_, ?_⟩
  · rw [← h.states, ← List.length_map UndoState.revision, hs, List.length_map]
  · rw [hr]
    exact countsDown_of_map h.counts hs

/-! ### The indexes of a database -/

namespace Database

/- The indexes of the list. -/
def listed (db : Database α) : List (GenericIndex α) :=
  db.indexList.filterMap fun t => db.segment[t]?

/- A property of every index of the list. -/
def Listed (db : Database α) (P : GenericIndex α → Prop) : Prop :=
  ∀ t ∈ db.indexList, ∃ idx, db.segment[t]? = some idx ∧ P idx

theorem onIndex_ok {f : GenericIndex α → Except Failure (GenericIndex α)} {db db' : Database α}
    {t : Nat} (h : db.onIndex f t = .ok db') :
    db'.indexList = db.indexList ∧ (∀ s ≠ t, db'.segment[s]? = db.segment[s]?) ∧
      ∀ idx, db.segment[t]? = some idx → ∃ idx', f idx = .ok idx' ∧ db'.segment[t]? = some idx' := by
  unfold onIndex at h
  cases hidx : db.segment[t]? with
  | none =>
    rw [hidx] at h
    cases h
    exact ⟨rfl, fun _ _ => rfl, by simp⟩
  | some idx =>
    rw [hidx] at h
    dsimp only at h
    cases hf : f idx with
    | error e =>
      rw [hf] at h
      cases h
    | ok idx' =>
      rw [hf] at h
      cases h
      refine ⟨rfl, ?_, ?_⟩
      · intro s hs
        rw [get_insert, if_neg hs]
      · rintro _ ⟨⟩
        exact ⟨idx', hf, by rw [get_insert, if_pos rfl]⟩

theorem onAll_foldlM {f : GenericIndex α → Except Failure (GenericIndex α)} {l : List Nat}
    (hl : l.Nodup) {db db' : Database α} (h : l.foldlM (onIndex f) db = .ok db') :
    db'.indexList = db.indexList ∧ (∀ t ∉ l, db'.segment[t]? = db.segment[t]?) ∧
      ∀ t ∈ l, ∀ idx, db.segment[t]? = some idx →
        ∃ idx', f idx = .ok idx' ∧ db'.segment[t]? = some idx' := by
  induction l generalizing db with
  | nil =>
    cases h
    exact ⟨rfl, fun _ _ => rfl, by simp⟩
  | cons t l ih =>
    obtain ⟨ht, hl⟩ := List.nodup_cons.mp hl
    rw [List.foldlM_cons] at h
    cases h₁ : db.onIndex f t with
    | error e =>
      rw [h₁] at h
      cases h
    | ok db₁ =>
      rw [h₁] at h
      obtain ⟨hlist₁, hother₁, hidx₁⟩ := onIndex_ok h₁
      obtain ⟨hlist, hother, hidx⟩ := ih hl h
      refine ⟨hlist.trans hlist₁, ?_, ?_⟩
      · intro s hs
        simp only [List.mem_cons, not_or] at hs
        rw [hother s hs.2, hother₁ s hs.1]
      · intro s hs idx hsidx
        rcases List.mem_cons.mp hs with rfl | hs
        · obtain ⟨idx', hf, hseg⟩ := hidx₁ idx hsidx
          exact ⟨idx', hf, (hother s ht).trans hseg⟩
        · have hne : s ≠ t := fun e => ht (e ▸ hs)
          exact hidx s hs idx ((hother₁ s hne).trans hsidx)

end Database

/-- Every index listed stands at the revision `n`, all with the same undo states; those stored
count down. -/
structure Aligned (db : Database α) (n : Int) : Prop where
  nodup : db.indexList.Nodup
  stored : ∀ (t : Nat) (idx : GenericIndex α), db.segment[t]? = some idx →
    countsDown idx.revision idx.stack
  listed : ∃ k, db.Listed fun idx => Stands idx n k

/-- A call on all indexes that brings each to the same place. -/
theorem Aligned.onAll {db db' : Database α} {n n' : Int} (h : Aligned db n)
    {f : GenericIndex α → Except Failure (GenericIndex α)}
    (hf : ∀ k, db.Listed (fun idx => Stands idx n k) → ∃ k', ∀ idx ∈ db.listed, ∀ idx',
      Stands idx n k → f idx = .ok idx' → Stands idx' n' k') (hdb : db.onAll f = .ok db') : Aligned db' n' := by
  obtain ⟨hlist, hother, hidx⟩ := Database.onAll_foldlM h.nodup hdb
  obtain ⟨k, hk⟩ := h.listed
  obtain ⟨k', hk'⟩ := hf k hk
  have hmem : db'.Listed fun idx => Stands idx n' k' := by
    intro t ht
    rw [hlist] at ht
    obtain ⟨idx, hseg, hst⟩ := hk t ht
    obtain ⟨idx', hfi, hseg'⟩ := hidx t ht idx hseg
    exact ⟨idx', hseg', hk' idx (List.mem_filterMap.mpr ⟨t, ht, hseg⟩) idx' hst hfi⟩
  refine ⟨hlist ▸ h.nodup, ?_, k', hmem⟩
  intro t idx hseg
  by_cases ht : t ∈ db.indexList
  · obtain ⟨idx', hseg', hst⟩ := hmem t (hlist ▸ ht)
    rw [hseg] at hseg'
    cases hseg'
    exact hst.counts
  · exact h.stored t idx ((hother t ht).symm.trans hseg)

/-! ### Runs -/

/- An index listed has an undo state. -/
def Database.hasUndoState (db : Database α) : Bool :=
  db.listed.any fun idx => !idx.stack.isEmpty

/- The revision at which a call leaves a database that stood at `n`: one up for a session started,
one down for a session undone or squashed. -/
def Step.height (db : Database α) (n : Int) : Step α → Int
  | .reopen head => head
  | .start => n + 1
  | .squash => if db.hasUndoState then n - 1 else n
  | .undo => if db.hasUndoState then n - 1 else n
  | _ => n

/- An index added has to stand where the others stand: one of the segment may have been stored
elsewhere, a new one stands at 0.  A session is not squashed unless there is one below it. -/
def Step.Keeps (db : Database α) (n : Int) : Step α → Prop
  | .addIndex t => t ∉ db.indexList →
    (db.segment[t]?.getD {}).revision = n ∧
      ∀ idx ∈ db.listed, idx.stack.length = (db.segment[t]?.getD {}).stack.length
  | .squash => ∀ idx ∈ db.listed, idx.stack.length ≠ 1
  | _ => True

inductive Runs (clash : α → α → Bool) : Database α → Int → Prop
  | created : Runs clash {} 0
  | step {db db' : Database α} {n : Int} (s : Step α) (h : Runs clash db n) (hk : s.Keeps db n)
      (hs : db.step clash s = .ok db') : Runs clash db' (s.height db n)

theorem mem_listed {db : Database α} {P : GenericIndex α → Prop} (h : db.Listed P)
    {idx : GenericIndex α} (hidx : idx ∈ db.listed) : P idx := by
  obtain ⟨t, ht, hseg⟩ := List.mem_filterMap.mp hidx
  obtain ⟨idx', hseg', hp⟩ := h t ht
  rw [hseg] at hseg'
  cases hseg'
  exact hp

namespace Aligned

variable {clash : α → α → Bool} {db db' : Database α} {n : Int}

/- Either all indexes listed have an undo state or none has. -/
theorem hasUndoState_iff {k : Nat} (h : db.Listed fun idx => Stands idx n k)
    {idx : GenericIndex α} (hidx : idx ∈ db.listed) : db.hasUndoState = true ↔ k ≠ 0 := by
  unfold Database.hasUndoState
  rw [List.any_eq_true]
  constructor
  · rintro ⟨idx, hidx, hst⟩ hk
    have hs := (mem_listed h hidx).states
    rw [hk, List.length_eq_zero_iff] at hs
    simp [hs] at hst
  · intro hk
    refine ⟨idx, hidx, ?_⟩
    have hs := (mem_listed h hidx).states
    cases hstack : idx.stack with
    | nil => exact absurd (by simpa [hstack] using hs.symm) hk
    | cons u rest => rfl

/- The revision of the indexes after one of their sessions ended. -/
theorem height_ended {k : Nat} (h : db.Listed fun idx => Stands idx n k) {idx : GenericIndex α}
    (hidx : idx ∈ db.listed) :
    (if db.hasUndoState then n - 1 else n) = if k = 0 then n else n - 1 := by
  have := hasUndoState_iff h hidx
  by_cases hk : k = 0 <;> simp_all

theorem addIndex (h : Aligned db n) (t : Nat) (hk : (Step.addIndex t).Keeps db n) :
    Aligned (db.addIndex t) n := by
  unfold Database.addIndex
  split
  · exact h
  · next ht =>
    obtain ⟨hrev, hlen⟩ := hk ht
    obtain ⟨k, hst⟩ := h.listed
    have hcounts : countsDown (db.segment[t]?.getD {}).revision (db.segment[t]?.getD {}).stack := by
      cases hseg : db.segment[t]? with
      | none => trivial
      | some idx => exact h.stored t idx hseg
    have hget : ∀ s : Nat, (db.segment.insertIfNew t {})[s]? =
        if s = t then some (db.segment[t]?.getD {}) else db.segment[s]? := by
      intro s
      rw [get_insertIfNew]
      split
      · next he =>
        subst he
        cases db.segment[s]? <;> rfl
      · rfl
    refine ⟨?_, ?_, (db.segment[t]?.getD {}).stack.length, ?_⟩
    · exact List.nodup_append.mpr ⟨h.nodup, by simp, by
        rintro a ha b hb rfl
        exact ht (List.mem_singleton.mp hb ▸ ha)⟩
    · intro s idx hs
      rw [hget] at hs
      split at hs
      · cases hs
        exact hcounts
      · exact h.stored s idx hs
    · intro s hs
      rw [hget]
      by_cases he : s = t
      · rw [if_pos he]
        exact ⟨_, rfl, hrev, rfl, hcounts⟩
      · rw [if_neg he]
        have hs' : s ∈ db.indexList := by simpa [he] using hs
        obtain ⟨idx, hseg, hidx⟩ := hst s hs'
        refine ⟨idx, hseg, hidx.revision, ?_, hidx.counts⟩
        exact hlen idx (List.mem_filterMap.mpr ⟨s, hs', hseg⟩)

theorem change (h : Aligned db n) (t : Nat) (c : Change α)
    (hs : db.onIndex (fun idx => .ok (idx.change clash c)) t = .ok db') : Aligned db' n := by
  obtain ⟨hlist, hother, hidx⟩ := Database.onIndex_ok hs
  obtain ⟨k, hk⟩ := h.listed
  refine ⟨hlist ▸ h.nodup, ?_, k, ?_⟩
  · intro s idx hseg
    by_cases he : s = t
    · subst he
      cases hold : db.segment[s]? with
      | none =>
        simp only [Database.onIndex, hold] at hs
        cases hs
        rw [hold] at hseg
        cases hseg
      | some old =>
        obtain ⟨idx', hf, hseg'⟩ := hidx old hold
        cases hf
        rw [hseg] at hseg'
        cases hseg'
        have hst : Stands old old.revision old.stack.length := ⟨rfl, rfl, h.stored s old hold⟩
        exact (hst.change clash c).counts
    · exact h.stored s idx ((hother s he).symm.trans hseg)
  · intro s hsl
    rw [hlist] at hsl
    obtain ⟨old, hold, hst⟩ := hk s hsl
    by_cases he : s = t
    · subst he
      obtain ⟨idx', hf, hseg'⟩ := hidx old hold
      cases hf
      exact ⟨_, hseg', hst.change clash c⟩
    · exact ⟨old, (hother s he).trans hold, hst⟩

/-- A call that keeps the indexes together. -/
theorem step (h : Aligned db n) (s : Step α) (hk : s.Keeps db n)
    (hs : db.step clash s = .ok db') : Aligned db' (s.height db n) := by
  cases s with
  | reopen head =>
    cases hs
    exact ⟨List.nodup_nil, h.stored, 0, by simp [Database.Listed]⟩
  | addIndex t =>
    cases hs
    exact h.addIndex t hk
  | start =>
    refine h.onAll ?_ hs
    intro k _
    refine ⟨k + 1, ?_⟩
    rintro idx - idx' hst ⟨⟩
    exact hst.start
  | change t c =>
    unfold Database.step at hs
    dsimp only at hs
    split at hs
    · exact h.change t c hs
    · cases hs
      exact h
  | push =>
    cases hs
    exact h
  | squash =>
    refine h.onAll ?_ hs
    intro k hst
    refine ⟨k - 1, ?_⟩
    rintro idx hidx idx' hidx' ⟨⟩
    simp only [Step.height, height_ended hst hidx]
    exact hidx'.squash (hidx'.states ▸ hk idx hidx)
  | undo =>
    refine h.onAll ?_ hs
    intro k hst
    refine ⟨k - 1, ?_⟩
    intro idx hidx idx' hidx' hu
    simp only [Step.height, height_ended hst hidx]
    exact hidx'.undo hu
  | commit r =>
    refine h.onAll ?_ hs
    intro k _
    refine ⟨kept n k r, ?_⟩
    rintro idx - idx' hst ⟨⟩
    exact hst.commit r

end Aligned

theorem Runs.aligned {clash : α → α → Bool} {db : Database α} {n : Int} (h : Runs clash db n) :
    Aligned db n := by
  induction h with
  | created => exact ⟨List.nodup_nil, by simp, 0, by simp [Database.Listed]⟩
  | step s _ hk hs ih => exact ih.step s hk hs

end WeNode.Chainbase
