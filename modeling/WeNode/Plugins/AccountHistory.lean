import Mathlib.Data.Finset.Sort
import WeNode.Chain.Arithmetic
import WeNode.Chain.Objects
import WeNode.Lib.Attempts
import WeNode.Lib.FlatMap
import WeNode.Lib.NumberedRows
import WeNode.Lib.Table

/-!
# Account history

libraries/plugins/account_history/account_history_plugin.cpp (52-172): every operation is entered in
the history of the tracked accounts it has an impact on.
-/

namespace WeNode.Plugins

open WeNode.Lib WeNode.Chain

/-- `operation_notification` -/
structure OperationNotification (Op : Type) where
  trxId : Bytes := []
  block : Nat := 0
  trxInBlock : Nat := 0
  opInTrx : Nat := 0
  virtualOp : Nat := 0
  op : Op

/-- `operation_object` -/
structure OperationObject where
  id : Nat
  trxId : Bytes
  block : Nat
  trxInBlock : Nat
  opInTrx : Nat
  virtualOp : Nat
  timestamp : Time
  serializedOp : Bytes
deriving DecidableEq

/-- `account_history_object` -/
structure AccountHistory where
  account : Name
  sequence : Nat
  op : Nat
deriving DecidableEq

/-- What the plugin asks of an operation: the set that `operation_get_impacted_accounts` fills, the
name of its type, and its bytes. -/
structure OperationTypes (Op : Type) where
  impacted : Op → Finset Name
  typeName : Op → String
  pack : Op → Bytes

/-- `account_history_plugin_impl` -/
structure HistoryOptions where
  trackedAccounts : FlatMap Name Name := {}
  filterContent : Bool := false
  blacklist : Bool := false
  opList : List String := []

/-- The objects that the plugin creates. -/
structure HistoryObjects where
  operations : Table OperationObject := {}
  history : List AccountHistory := []

/-- The objects, and the id of `new_obj`. -/
structure Visit extends HistoryObjects where
  newObj : Option Nat := none

namespace HistoryOptions

variable (cfg : HistoryOptions)

/- The range that starts at the account, or the one before the first that starts above it. -/
def rangeOf (item : Name) : Option (Name × Name) :=
  let ranges := cfg.trackedAccounts.entries
  let itr := cfg.trackedAccounts.lowerBound item
  let itr := if itr ≠ 0 ∧
    (itr ≠ ranges.length ∧ (ranges[itr]?).map Prod.fst ≠ some item ∨ itr = ranges.length)
    then itr - 1 else itr
  ranges[itr]?

def tracks (item : Name) : Bool :=
  cfg.trackedAccounts.entries.isEmpty ||
    match cfg.rangeOf item with
    | none => false
    | some range => decide (range.1 ≤ item ∧ item ≤ range.2)

/-- The filter of `operation_visitor_filter` -/
def visits (name : String) : Bool :=
  if cfg.filterContent then
    if cfg.opList.contains name then !cfg.blacklist else cfg.blacklist
  else true

end HistoryOptions

section Visitor

variable {Op : Type} (types : OperationTypes Op) (cfg : HistoryOptions) (now : Time)
  (note : OperationNotification Op)

def OperationNotification.object (id : Nat) : OperationObject where
  id := id
  trxId := note.trxId
  block := note.block
  trxInBlock := note.trxInBlock
  opInTrx := note.opInTrx
  virtualOp := note.virtualOp
  timestamp := now
  serializedOp := types.pack note.op

namespace Visit

/- The object of the operation is made for the first account. -/
def newObject (v : Visit) : Nat × Visit :=
  match v.newObj with
  | some id => (id, v)
  | none => (v.operations.nextId, { v with
      operations := v.operations.create (note.object types now)
      newObj := some v.operations.nextId })

/-- `operation_visitor` -/
def enter (v : Visit) (item : Name) : Attempt Visit Visit :=
  let (op, v) := v.newObject types now note
  let sequence := nextNumber AccountHistory.account AccountHistory.sequence item v.history
  if v.history.any fun h => h.account = item ∧ h.sequence = sequence then .error (some v)
  else .ok { v with history := v.history ++ [⟨item, sequence, op⟩] }

end Visit

def onOperation (s : HistoryObjects) : Attempt Visit Visit :=
  ((types.impacted note.op).sort (· ≤ ·)).foldlM (fun v item =>
    if cfg.tracks item && cfg.visits (types.typeName note.op) then v.enter types now note item
    else pure v) ⟨s, none⟩

/-- An operation that is about to be applied.  What the plugin throws is caught. -/
def HistoryObjects.step (s : HistoryObjects) : HistoryObjects :=
  match (onOperation types cfg now note s).left with
  | some v => v.toHistoryObjects
  | none => s

end Visitor

/-- The history after operations at their times. -/
def HistoryObjects.run {Op : Type} (types : OperationTypes Op) (cfg : HistoryOptions)
    (notes : List (Time × OperationNotification Op)) : HistoryObjects :=
  notes.foldl (fun s n => s.step types cfg n.1 n.2) {}

/-! ### Ranges -/

/-- A range contains both of its ends. -/
def Lies (a : Name) (range : Name × Name) : Prop := range.1 ≤ a ∧ a ≤ range.2

instance (a : Name) (range : Name × Name) : Decidable (Lies a range) :=
  inferInstanceAs (Decidable (_ ∧ _))

/-- The accounts of the ranges, or all where there is no range. -/
def Tracked (ranges : List (Name × Name)) (a : Name) : Prop := ranges = [] ∨ ∃ r ∈ ranges, Lies a r

instance (ranges : List (Name × Name)) (a : Name) : Decidable (Tracked ranges a) :=
  inferInstanceAs (Decidable (_ ∨ _))

section Ranges

variable {cfg : HistoryOptions} {item : Name} {r : Name × Name}

/- The last range that does not start above the account. -/
theorem rangeOf_eq (hr : r ∈ cfg.trackedAccounts.entries) (hle : r.1 ≤ item)
    (hlast : ∀ x ∈ cfg.trackedAccounts.entries, x.1 ≤ item → x.1 ≤ r.1) :
    cfg.rangeOf item = some r := by
  obtain ⟨pre, post, hl, hpre, hpost⟩ := FlatMap.split_at hr
  have habove : ∀ x ∈ post, item < x.1 := by
    intro x hx
    have hmem : x ∈ cfg.trackedAccounts.entries := by
      rw [hl]
      exact List.mem_append_right pre (List.mem_cons_of_mem r hx)
    exact not_le.1 fun h => absurd (hlast x hmem h) (not_le.2 (hpost x hx))
  unfold HistoryOptions.rangeOf
  rcases hle.lt_or_eq with hlt | heq
  · -- the bound is after the range, and the step back goes to it
    have hl' : cfg.trackedAccounts.entries = (pre ++ [r]) ++ post := by simpa using hl
    have hitr : cfg.trackedAccounts.lowerBound item = (pre ++ [r]).length := by
      refine FlatMap.lowerBound_eq hl' (fun x hx => ?_) fun x hx => ?_
      · rcases List.mem_append.1 hx with hx | hx
        · exact (hpre x hx).trans hlt
        · exact (List.mem_singleton.1 hx).symm ▸ hlt
      · exact (habove x (List.mem_of_mem_head? hx)).le
    have hback : (pre ++ [r]).length ≠ 0 ∧ ((pre ++ [r]).length ≠ cfg.trackedAccounts.entries.length ∧
        (cfg.trackedAccounts.entries[(pre ++ [r]).length]?).map Prod.fst ≠ some item ∨
        (pre ++ [r]).length = cfg.trackedAccounts.entries.length) := by
      rw [hl]
      cases post with
      | nil => simp
      | cons x post =>
        have hx : x.1 ≠ item := (habove x (List.mem_cons_self ..)).ne'
        simp [hx]
    dsimp only
    rw [hitr, if_pos hback, hl, List.length_append, List.length_singleton, Nat.add_sub_cancel]
    simp
  · -- the bound is the range itself
    have hitr : cfg.trackedAccounts.lowerBound item = pre.length := by
      refine FlatMap.lowerBound_eq hl (fun x hx => (hpre x hx).trans_eq heq) fun x hx => ?_
      cases hx
      exact heq.ge
    have hstay : cfg.trackedAccounts.entries[pre.length]? = some r := by simp [hl]
    have hlen : pre.length ≠ cfg.trackedAccounts.entries.length := by simp [hl]
    simp [hitr, hstay, hlen, heq]

/- What is found is always an account of some range. -/
theorem lies_of_tracks (h : cfg.tracks item = true) : Tracked cfg.trackedAccounts.entries item := by
  unfold HistoryOptions.tracks at h
  rcases (Bool.or_eq_true _ _).mp h with h | h
  · exact Or.inl (List.isEmpty_iff.1 h)
  · split at h
    · cases h
    · next range hrange => exact Or.inr ⟨range, List.mem_of_getElem? hrange, of_decide_eq_true h⟩

theorem tracks_iff (hne : ∀ r ∈ cfg.trackedAccounts.entries, r.1 ≤ r.2)
    (hdisjoint : ∀ r ∈ cfg.trackedAccounts.entries, ∀ r' ∈ cfg.trackedAccounts.entries,
      r ≠ r' → ∀ a, ¬ (Lies a r ∧ Lies a r')) :
    cfg.tracks item = true ↔ Tracked cfg.trackedAccounts.entries item := by
  refine ⟨lies_of_tracks, fun h => ?_⟩
  unfold HistoryOptions.tracks
  rcases h with h | ⟨r, hr, hlies⟩
  · rw [h]
    rfl
  · have hlast : ∀ x ∈ cfg.trackedAccounts.entries, x.1 ≤ item → x.1 ≤ r.1 := by
      intro x hx hle
      by_contra hlt
      have hne' : r ≠ x := fun he => hlt (he ▸ le_refl _)
      -- a later range that starts up to the account would start inside of this one
      exact hdisjoint r hr x hx hne' x.1
        ⟨⟨(not_le.1 hlt).le, hle.trans hlies.2⟩, le_refl _, hne x hx⟩
    rw [rangeOf_eq hr hlies.1 hlast]
    exact (Bool.or_eq_true _ _).mpr (Or.inr (decide_eq_true hlies))

end Ranges

/-! ### Entries -/

def entriesOf (a : Name) (l : List AccountHistory) : List AccountHistory :=
  rowsOf AccountHistory.account a l

/-- The entries of an account have the numbers from zero on. -/
def Numbered (l : List AccountHistory) (a : Name) : Prop :=
  (entriesOf a l).map AccountHistory.sequence = List.range (entriesOf a l).length

section Entries

variable {Op : Type} {types : OperationTypes Op} {cfg : HistoryOptions} {now : Time}
  {note : OperationNotification Op} {v : Visit} {s : HistoryObjects} {a b : Name} {l : List Name}

theorem newObject_history : (v.newObject types now note).2.history = v.history := by
  unfold Visit.newObject
  split <;> rfl

/- Once there is an object, all other accounts are entered with it. -/
theorem newObject_again {history : List AccountHistory} :
    Visit.newObject types now note { (v.newObject types now note).2 with history := history } =
      ((v.newObject types now note).1, { (v.newObject types now note).2 with history := history }) := by
  cases h : v.newObj with
  | none => simp [Visit.newObject, h]
  | some id => simp [Visit.newObject, h]

theorem enter_ok (h : Numbered v.history a) (hroom : (entriesOf a v.history).length < 2 ^ 32) :
    v.enter types now note a = .ok { (v.newObject types now note).2 with
      history := v.history ++
        [⟨a, (entriesOf a v.history).length, (v.newObject types now note).1⟩] } := by
  have hnext : nextNumber AccountHistory.account AccountHistory.sequence a v.history =
      (entriesOf a v.history).length := nextNumber_range h hroom
  have hnew : ¬ (v.history.any fun x =>
      x.account = a ∧ x.sequence = (entriesOf a v.history).length) = true := by
    rw [List.any_eq_true]
    rintro ⟨x, hx, hsame⟩
    obtain ⟨haccount, hsequence⟩ := of_decide_eq_true hsame
    have hmem := List.mem_map_of_mem (f := AccountHistory.sequence) (mem_rowsOf.2 ⟨hx, haccount⟩)
    rw [show (rowsOf _ a v.history).map _ = _ from h, hsequence] at hmem
    exact lt_irrefl _ (List.mem_range.1 hmem)
  unfold Visit.enter
  dsimp only
  rw [newObject_history, hnext, if_neg hnew]

theorem entriesOf_other {history : List AccountHistory} {i j : Nat} (h : b ≠ a) :
    entriesOf b (history ++ [⟨a, i, j⟩]) = entriesOf b history := rowsOf_append_other h.symm

/- All accounts of a list, each with the number of its entries so far. -/
theorem enter_all (hn : l.Nodup)
    (h : ∀ b ∈ l, Numbered v.history b ∧ (entriesOf b v.history).length < 2 ^ 32) :
    l.foldlM (Visit.enter types now note) v = .ok (if l = [] then v else
      { (v.newObject types now note).2 with
        history := v.history ++ l.map fun b =>
          ⟨b, (entriesOf b v.history).length, (v.newObject types now note).1⟩ }) := by
  induction l generalizing v with
  | nil => rfl
  | cons a l ih =>
    obtain ⟨ha, hl⟩ := List.nodup_cons.1 hn
    obtain ⟨hnum, hroom⟩ := h a (List.mem_cons_self ..)
    have hothers : ∀ b ∈ l, b ≠ a := fun b hb he => ha (he ▸ hb)
    rw [List.foldlM_cons, enter_ok hnum hroom]
    refine (ih hl fun b hb => ?_).trans ?_
    · have hb' := h b (List.mem_cons_of_mem a hb)
      unfold Numbered at hb' ⊢
      rwa [entriesOf_other (hothers b hb)]
    · rw [newObject_again, if_neg (List.cons_ne_nil a l)]
      split
      · next hnil => rw [hnil, List.map_singleton]
      · refine congrArg Except.ok ?_
        rw [List.map_cons, List.append_assoc, List.singleton_append]
        have hmap : (l.map fun b => (⟨b, (entriesOf b (v.history ++ [⟨a,
            (entriesOf a v.history).length, (v.newObject types now note).1⟩])).length,
            (v.newObject types now note).1⟩ : AccountHistory)) =
            l.map fun b => ⟨b, (entriesOf b v.history).length, (v.newObject types now note).1⟩ := by
          refine List.map_congr_left fun b hb => ?_
          rw [entriesOf_other (hothers b hb)]
        rw [hmap]

/- The accounts that an operation is entered for. -/
def visited (types : OperationTypes Op) (cfg : HistoryOptions) (op : Op) : List Name :=
  ((types.impacted op).sort (· ≤ ·)).filter fun a => cfg.tracks a && cfg.visits (types.typeName op)

theorem mem_visited {op : Op} : a ∈ visited types cfg op ↔
    a ∈ types.impacted op ∧ cfg.tracks a = true ∧ cfg.visits (types.typeName op) = true := by
  unfold visited
  rw [List.mem_filter, Finset.mem_sort, Bool.and_eq_true]

theorem nodup_visited {op : Op} : (visited types cfg op).Nodup := (Finset.sort_nodup _ _).filter _

theorem onOperation_eq : onOperation types cfg now note s =
    (visited types cfg note.op).foldlM (Visit.enter types now note) ⟨s, none⟩ :=
  List.foldlM_filter.symm

/-- One operation: an object for it, and an entry for every account, under its next number. -/
theorem step_eq (h : ∀ a ∈ visited types cfg note.op,
      Numbered s.history a ∧ (entriesOf a s.history).length < 2 ^ 32) :
    s.step types cfg now note = if visited types cfg note.op = [] then s else {
      operations := s.operations.create (note.object types now)
      history := s.history ++ (visited types cfg note.op).map fun a =>
        ⟨a, (entriesOf a s.history).length, s.operations.nextId⟩ } := by
  unfold HistoryObjects.step
  rw [onOperation_eq, enter_all nodup_visited h]
  split
  · next hv =>
    obtain rfl := Option.some.inj hv
    split <;> rfl
  · next hnone => cases hnone

/- What an operation adds to the history of one account. -/
theorem entriesOf_step (h : ∀ a ∈ visited types cfg note.op,
      Numbered s.history a ∧ (entriesOf a s.history).length < 2 ^ 32) :
    entriesOf a (s.step types cfg now note).history = entriesOf a s.history ++
      if a ∈ visited types cfg note.op then
        [⟨a, (entriesOf a s.history).length, s.operations.nextId⟩] else [] := by
  rw [step_eq h]
  split
  · next hnil => simp [hnil]
  · exact (List.filter_append ..).trans
      (congrArg (entriesOf a s.history ++ ·) (rowsOf_each (fun _ => rfl) nodup_visited))

/-! ### Histories -/

/-- The entries of an account are for exactly these operations, in their order: every entry has the
number of its place, and an object of its own that says what the operation was. -/
structure HistoryOf (types : OperationTypes Op) (s : HistoryObjects) (a : Name)
    (notes : List (Time × OperationNotification Op)) : Prop where
  sequences : (entriesOf a s.history).map AccountHistory.sequence = List.range notes.length
  entered : List.Forall₂ (fun entry n =>
      s.operations.row OperationObject.id entry.op = some (n.2.object types n.1 entry.op))
    (entriesOf a s.history) notes
  once : ((entriesOf a s.history).map AccountHistory.op).Pairwise (· < ·)

/-- An operation of the history of an account. -/
def Concerns (types : OperationTypes Op) (cfg : HistoryOptions) (a : Name)
    (n : Time × OperationNotification Op) : Bool :=
  decide (a ∈ visited types cfg n.2.op)

structure Complete (types : OperationTypes Op) (cfg : HistoryOptions) (s : HistoryObjects)
    (notes : List (Time × OperationNotification Op)) : Prop where
  keyed : s.operations.Keyed OperationObject.id
  histories : ∀ a, HistoryOf types s a (notes.filter (Concerns types cfg a))

namespace HistoryOf

variable {notes : List (Time × OperationNotification Op)}

theorem length_eq (h : HistoryOf types s a notes) : (entriesOf a s.history).length = notes.length :=
  h.entered.length_eq

theorem numbered (h : HistoryOf types s a notes) : Numbered s.history a := by
  unfold Numbered
  rw [h.length_eq]
  exact h.sequences

/- The objects of entries stay when another is created. -/
theorem entered_create {r : Nat → OperationObject} (h : HistoryOf types s a notes)
    (hkeyed : s.operations.Keyed OperationObject.id)
    (hr : (r s.operations.nextId).id = s.operations.nextId) :
    List.Forall₂ (fun entry n => (s.operations.create r).row OperationObject.id entry.op =
      some (n.2.object types n.1 entry.op)) (entriesOf a s.history) notes := by
  refine h.entered.imp fun entry n hrow => ?_
  obtain ⟨hmem, hid⟩ := Table.row_some hrow
  have hlt : entry.op < s.operations.nextId := hid ▸ hkeyed.fresh _ hmem
  rw [hkeyed.row_create hr, if_neg hlt.ne, hrow]

theorem op_lt (h : HistoryOf types s a notes) (hkeyed : s.operations.Keyed OperationObject.id)
    {x : AccountHistory} (hx : x ∈ entriesOf a s.history) : x.op < s.operations.nextId := by
  obtain ⟨i, hi, rfl⟩ := List.mem_iff_getElem.1 hx
  have hrow := List.Forall₂.get h.entered hi (h.length_eq ▸ hi)
  obtain ⟨hmem, hid⟩ := Table.row_some hrow
  exact hid ▸ hkeyed.fresh _ hmem

end HistoryOf

theorem Complete.step {notes : List (Time × OperationNotification Op)}
    (h : Complete types cfg s notes)
    (hroom : ∀ a, ((notes ++ [(now, note)]).filter (Concerns types cfg a)).length ≤ 2 ^ 32) :
    Complete types cfg (s.step types cfg now note) (notes ++ [(now, note)]) := by
  have hready : ∀ a ∈ visited types cfg note.op,
      Numbered s.history a ∧ (entriesOf a s.history).length < 2 ^ 32 := by
    intro a ha
    have hfit := hroom a
    have hself : Concerns types cfg a (now, note) = true := decide_eq_true ha
    rw [List.filter_append, List.filter_singleton, hself, List.length_append,
      ← (h.histories a).length_eq] at hfit
    exact ⟨(h.histories a).numbered, hfit⟩
  have hoperations : (s.step types cfg now note).operations =
      if visited types cfg note.op = [] then s.operations
      else s.operations.create (note.object types now) := by
    rw [step_eq hready]
    split <;> rfl
  refine ⟨?_, fun a => ?_⟩
  · rw [hoperations]
    split
    · exact h.keyed
    · exact h.keyed.create rfl
  · have hold := h.histories a
    have hentries : entriesOf a (s.step types cfg now note).history = _ := entriesOf_step hready
    have hrows : List.Forall₂ (fun entry n =>
        (s.step types cfg now note).operations.row OperationObject.id entry.op =
          some (n.2.object types n.1 entry.op))
        (entriesOf a s.history) (notes.filter (Concerns types cfg a)) := by
      rw [hoperations]
      split
      · exact hold.entered
      · exact hold.entered_create h.keyed rfl
    rw [List.filter_append, List.filter_singleton]
    by_cases ha : a ∈ visited types cfg note.op
    · have hself : Concerns types cfg a (now, note) = true := decide_eq_true ha
      rw [hself, cond_true]
      rw [if_pos ha] at hentries
      refine ⟨?_, ?_, ?_⟩
      · rw [hentries, List.map_append, hold.sequences, hold.length_eq, List.length_append,
          List.length_singleton, List.range_succ, List.map_singleton]
      · rw [hentries]
        refine List.rel_append hrows (.cons ?_ .nil)
        rw [hoperations, if_neg (List.ne_nil_of_mem ha), h.keyed.row_create rfl, if_pos rfl]
      · rw [hentries, List.map_append, List.map_singleton, List.pairwise_append]
        refine ⟨hold.once, List.pairwise_singleton _ _, fun i hi j hj => ?_⟩
        obtain ⟨x, hx, rfl⟩ := List.mem_map.1 hi
        rw [List.mem_singleton.1 hj]
        exact hold.op_lt h.keyed hx
    · have hself : Concerns types cfg a (now, note) = false := decide_eq_false ha
      rw [hself, cond_false, List.append_nil]
      rw [if_neg ha, List.append_nil] at hentries
      exact ⟨hentries ▸ hold.sequences, hentries ▸ hrows, hentries ▸ hold.once⟩

/-- After all operations, whatever the ranges and the filter are. -/
theorem Complete.run {notes : List (Time × OperationNotification Op)}
    (hroom : ∀ a, (notes.filter (Concerns types cfg a)).length ≤ 2 ^ 32) :
    Complete types cfg (HistoryObjects.run types cfg notes) notes := by
  induction notes using List.reverseRecOn with
  | nil => exact ⟨Table.Keyed.empty, fun a => ⟨rfl, .nil, .nil⟩⟩
  | append_singleton notes n ih =>
    unfold HistoryObjects.run
    rw [List.foldl_append]
    refine (ih fun a => ?_).step hroom
    have hle := hroom a
    rw [List.filter_append, List.length_append] at hle
    omega

/-! ### Room -/

/-- The unique index, with the numbers that a sequence can have. -/
structure Indexed (l : List AccountHistory) : Prop where
  unique : (l.map fun x => (x.account, x.sequence)).Nodup
  fit : ∀ x ∈ l, x.sequence < 2 ^ 32

theorem enter_indexed (h : Indexed v.history) :
    (v.enter types now note a).Keeps fun v => Indexed v.history := by
  unfold Visit.enter
  dsimp only
  rw [newObject_history]
  split
  · intro v' hv'
    cases hv'
    rw [newObject_history]
    exact h
  · next hnew =>
    refine .ok ⟨?_, fun x hx => ?_⟩
    · rw [List.map_append, List.map_singleton]
      refine List.Nodup.append h.unique (List.nodup_singleton _) (List.disjoint_singleton.2 ?_)
      intro hmem
      obtain ⟨x, hx, hsame⟩ := List.mem_map.1 hmem
      exact hnew (List.any_eq_true.2 ⟨x, hx, decide_eq_true (Prod.mk.inj hsame)⟩)
    · rcases List.mem_append.1 hx with hx | hx
      · exact h.fit x hx
      · rw [List.mem_singleton.1 hx]
        exact nextNumber_lt

theorem step_indexed (h : Indexed s.history) : Indexed (s.step types cfg now note).history := by
  have hkeeps : (onOperation types cfg now note s).Keeps fun v => Indexed v.history := by
    rw [onOperation_eq]
    exact .foldlM h fun _ _ _ hv => enter_indexed hv
  unfold HistoryObjects.step
  split
  · next v hv => exact hkeeps v hv
  · exact h

/-- There is never an entry more than sequences can tell apart. -/
theorem entries_le (notes : List (Time × OperationNotification Op)) :
    (entriesOf a (HistoryObjects.run types cfg notes).history).length ≤ 2 ^ 32 := by
  have hempty : Indexed ({} : HistoryObjects).history := ⟨List.nodup_nil, nofun⟩
  have hrun : Indexed (HistoryObjects.run types cfg notes).history := List.foldlRecOn
    (motive := fun (s : HistoryObjects) => Indexed s.history) notes _ hempty
    fun _ hs _ _ => step_indexed hs
  exact length_le_numbers hrun.unique hrun.fit

end Entries

/-! ### The history of an account -/

section Main

variable {Op : Type} (types : OperationTypes Op) {ranges : List (Name × Name)}

/-- Ranges that no account is in two of, with none that is empty. -/
structure DisjointRanges (ranges : List (Name × Name)) : Prop where
  nonempty : ∀ r ∈ ranges, r.1 ≤ r.2
  disjoint : ∀ r ∈ ranges, ∀ r' ∈ ranges, r ≠ r' → ∀ a, ¬ (Lies a r ∧ Lies a r')

/- Of two ranges one way suffices. -/
theorem two_disjoint {r r' : Name × Name} (h : ∀ a, ¬ (Lies a r ∧ Lies a r')) :
    ∀ x ∈ [r, r'], ∀ y ∈ [r, r'], x ≠ y → ∀ a, ¬ (Lies a x ∧ Lies a y) := by
  intro x hx y hy hne a
  simp only [List.mem_cons, List.not_mem_nil, or_false] at hx hy
  rcases hx with rfl | rfl <;> rcases hy with rfl | rfl
  · exact absurd rfl hne
  · exact h a
  · exact fun hboth => h a hboth.symm
  · exact absurd rfl hne

theorem DisjointRanges.mem_iff (h : DisjointRanges ranges) {r : Name × Name} :
    r ∈ (FlatMap.ofList ranges).entries ↔ r ∈ ranges := by
  refine FlatMap.mem_ofList fun x hx y hy he => ?_
  by_contra hne
  exact h.disjoint x hx y hy hne x.1 ⟨⟨le_refl _, h.nonempty x hx⟩, he.ge, he ▸ h.nonempty y hy⟩

theorem DisjointRanges.tracks_iff (h : DisjointRanges ranges) {a : Name} :
    HistoryOptions.tracks { trackedAccounts := FlatMap.ofList ranges } a = true ↔
      Tracked ranges a := by
  have hempty : (FlatMap.ofList ranges).entries = [] ↔ ranges = [] := by
    rw [List.eq_nil_iff_forall_not_mem, List.eq_nil_iff_forall_not_mem]
    exact forall_congr' fun r => not_congr h.mem_iff
  rw [Plugins.tracks_iff]
  · unfold Tracked
    rw [hempty]
    exact or_congr_right (exists_congr fun r => and_congr_left fun _ => h.mem_iff)
  · exact fun r hr => h.nonempty r (h.mem_iff.1 hr)
  · exact fun r hr r' hr' => h.disjoint r (h.mem_iff.1 hr) r' (h.mem_iff.1 hr')

/-- Of disjoint ranges, none of them empty, and as long as no account has more operations than there
are sequences: the history of an account of the ranges is of the operations with an impact on it,
and no other account has one. -/
theorem account_history (h : DisjointRanges ranges) (notes : List (Time × OperationNotification Op))
    (hroom : ∀ a, Tracked ranges a →
      (notes.filter fun n => decide (a ∈ types.impacted n.2.op)).length ≤ 2 ^ 32) (a : Name) :
    HistoryOf types
      (HistoryObjects.run types { trackedAccounts := FlatMap.ofList ranges } notes) a
      (if Tracked ranges a then notes.filter fun n => decide (a ∈ types.impacted n.2.op)
        else []) := by
  have hfilter : ∀ a, notes.filter
      (Concerns types { trackedAccounts := FlatMap.ofList ranges } a) =
      if Tracked ranges a then notes.filter fun n => decide (a ∈ types.impacted n.2.op) else [] := by
    intro a
    split
    · next ha =>
      refine List.filter_congr fun n _ => decide_eq_decide.2 ?_
      exact mem_visited.trans ⟨And.left, fun hi => ⟨hi, h.tracks_iff.2 ha, rfl⟩⟩
    · next ha =>
      refine List.filter_eq_nil_iff.2 fun n _ hc => ?_
      exact ha (h.tracks_iff.1 (mem_visited.1 (of_decide_eq_true hc)).2.1)
  rw [← hfilter]
  refine (Complete.run fun b => ?_).histories a
  rw [hfilter]
  split
  · next hb => exact hroom b hb
  · exact Nat.zero_le _

/- Operations of one account each. -/
def ownTypes : OperationTypes Name where
  impacted a := {a}
  typeName _ := "transfer_operation"
  pack a := [UInt8.ofNat a]

def bob : Time × OperationNotification Name := (30, { block := 10, op := 2 })

def gina : Time × OperationNotification Name := (33, { block := 11, op := 7 })

def fred : Time × OperationNotification Name := (33, { block := 11, opInTrx := 1, op := 6 })

/- The ranges of the comment in the source: the first ends before the second starts. -/
theorem account_history_demo :
    HistoryOf ownTypes (HistoryObjects.run ownTypes
      { trackedAccounts := FlatMap.ofList [(7, 9), (1, 3)] } [bob, gina, fred, bob]) 2 [bob, bob] ∧
    HistoryOf ownTypes (HistoryObjects.run ownTypes
      { trackedAccounts := FlatMap.ofList [(7, 9), (1, 3)] } [bob, gina, fred, bob]) 6 [] := by
  have hdisjoint : DisjointRanges [(7, 9), (1, 3)] :=
    ⟨by decide, two_disjoint fun a h => absurd (h.1.1.trans h.2.2) (by decide)⟩
  have hroom : ∀ a, Tracked [(7, 9), (1, 3)] a → ([bob, gina, fred, bob].filter fun n =>
      decide (a ∈ ownTypes.impacted n.2.op)).length ≤ 2 ^ 32 :=
    fun _ _ => (List.length_filter_le _ _).trans (by decide)
  exact ⟨account_history ownTypes hdisjoint _ hroom 2, account_history ownTypes hdisjoint _ hroom 6⟩

/-- A range that is empty, since it starts above its end, hides a range that is not; and of more
operations than there are sequences, not all are entered. -/
theorem history_missed :
    ((∀ r ∈ [(1, 26), (13, 2)], ∀ r' ∈ [(1, 26), (13, 2)], r ≠ r' →
        ∀ a, ¬ (Lies a r ∧ Lies a r')) ∧
      Tracked [(1, 26), (13, 2)] 14 ∧
      entriesOf 14 (HistoryObjects.run ownTypes
        { trackedAccounts := FlatMap.ofList [(1, 26), (13, 2)] } [(30, { op := 14 })]).history =
          []) ∧
    Tracked [] 14 ∧
    (entriesOf 14 (HistoryObjects.run ownTypes {}
      (List.replicate (2 ^ 32 + 1) (30, { op := 14 }))).history).length < 2 ^ 32 + 1 := by
  refine ⟨⟨two_disjoint fun a h => ?_, by decide, ?_⟩, by decide, Nat.lt_succ_of_le (entries_le _)⟩
  · exact absurd (h.2.1.trans h.2.2) (by decide)
  · have hnone : visited ownTypes { trackedAccounts := FlatMap.ofList [(1, 26), (13, 2)] } 14 = [] := by
      refine List.eq_nil_iff_forall_not_mem.2 fun a ha => ?_
      obtain ⟨hself, htracks, -⟩ := mem_visited.1 ha
      rw [Finset.mem_singleton.1 hself] at htracks
      exact absurd htracks (by decide)
    unfold HistoryObjects.run
    rw [List.foldl_cons, List.foldl_nil, step_eq (by simp [hnone]), if_pos hnone]
    rfl

end Main

end WeNode.Plugins
