import WeNode.Fork.ForkChoice
import WeNode.Fork.Finality

/-!
# The block log and the chain

The log is written inside `_apply_block`, before the last steps of the block, and is not part
of the undo state.  It holds exactly the irreversible blocks of the chain as long as no block
fails after it moved the irreversible block, and no switch lowers the irreversible block
number or loses the items the log still needs.
-/

namespace WeNode.Fork

variable {τ : Type} {hash : SignedBlock τ → Nat}

/-! ### Finding the blocks of a branch -/

theorem Branch.onChain {S : ForkItem τ → Prop} {n : Nat} (hS : Sound hash S n) :
    ∀ (l : List (ForkItem τ)) (x y : ForkItem τ), Branch l → (∀ z ∈ l, S z) →
      l.head? = some x → y ∈ l → OnChain hash y.id x.id
  | [], _, _, _, _, h, _ => by simp at h
  | a :: l, x, y, hl, hm, hx, hy => by
    have hax : a = x := by simpa using hx
    subst hax
    rcases List.mem_cons.mp hy with rfl | hy
    · exact .self
    · cases l with
      | nil => cases hy
      | cons b l =>
        have hab := (List.isChain_cons_cons.mp hl).1
        have hb := Branch.onChain hS (b :: l) b y (List.isChain_cons_cons.mp hl).2
          (fun z hz => hm z (List.mem_cons_of_mem _ hz)) rfl hy
        rw [hS.prev_id (hm a (by simp)) (hm b (by simp)) hab] at hb
        rw [hS.id_eq (hm a (by simp))]
        exact .parent a.data hb

theorem OnChain.trans {i j h : BlockId} (hij : OnChain hash i j) (hjh : OnChain hash j h) :
    OnChain hash i h := by
  induction hjh with
  | self => exact hij
  | parent b _ ih => exact .parent b ih

/-- Branches of one set of items that start at the same item run together. -/
theorem Branch.agree {S : ForkItem τ → Prop} {n : Nat} (hS : Sound hash S n) :
    ∀ (l m : List (ForkItem τ)), Branch l → Branch m → (∀ z ∈ l, S z) → (∀ z ∈ m, S z) →
      l.head? = m.head? → ∀ (i : Nat) (x y : ForkItem τ), l[i]? = some x → m[i]? = some y → x = y
  | [], _, _, _, _, _, _, _, _, _, hx, _ => by simp at hx
  | _ :: _, [], _, _, _, _, _, _, _, _, _, hy => by simp at hy
  | a :: l, b :: m, hl, hm, hlS, hmS, hh, i, x, y, hx, hy => by
    have hab : a = b := by simpa using hh
    subst hab
    cases i with
    | zero =>
      simp only [List.getElem?_cons_zero, Option.some.injEq] at hx hy
      rw [← hx, ← hy]
    | succ i =>
      simp only [List.getElem?_cons_succ] at hx hy
      cases l with
      | nil => simp at hx
      | cons c l =>
        cases m with
        | nil => simp at hy
        | cons e m =>
          have hac : a.prev = some c.ptr := (List.isChain_cons_cons.mp hl).1
          have hae : a.prev = some e.ptr := (List.isChain_cons_cons.mp hm).1
          have hce : c = e := hS.ptr_inj (hlS c (by simp)) (hmS e (by simp))
            (Option.some.inj (hac.symm.trans hae))
          exact Branch.agree hS (c :: l) (e :: m) (List.isChain_cons_cons.mp hl).2
            (List.isChain_cons_cons.mp hm).2 (fun z hz => hlS z (List.mem_cons_of_mem _ hz))
            (fun z hz => hmS z (List.mem_cons_of_mem _ hz)) (by rw [hce]; rfl) i x y hx hy

namespace ForkDatabase

variable {S : ForkItem τ → Prop} {n : Nat} {db : ForkDatabase τ} {held : List (ForkItem τ)}

/-- The walk down a branch of live items stops at the item of the number asked for. -/
theorem descend_along (hS : Sound hash S n) (hlive : ∀ x ∈ db.live held, S x) {k : Nat} :
    ∀ (j : Nat) (l : List (ForkItem τ)) (x z : ForkItem τ) (fuel : Nat), Branch l →
      (∀ y ∈ l, y ∈ db.live held) → l.head? = some x → l[j]? = some z → z.num = k → j < fuel →
      ∃ p, db.descend held k fuel x = some (p, z)
  | j, [], x, z, fuel, _, _, hx, _, _, _ => by simp at hx
  | j, a :: l, x, z, fuel, hl, hm, hx, hz, hk, hf => by
    have hax : a = x := by simpa using hx
    subst hax
    obtain ⟨fuel, rfl⟩ : ∃ q, fuel = q + 1 := ⟨fuel - 1, by omega⟩
    have hnum := Branch.num_eq hS (a :: l) hl (fun y hy => hlive y (hm y hy)) j a z rfl hz
    cases j with
    | zero =>
      have haz : a = z := by simpa using hz
      subst haz
      refine ⟨[], ?_⟩
      simp only [descend, hk, lt_irrefl, if_false]
    | succ j =>
      cases l with
      | nil => simp at hz
      | cons b l =>
        have hab : a.prev = some b.ptr := (List.isChain_cons_cons.mp hl).1
        have hlock : db.lock held a.prev = some b := by
          rw [hab]
          exact db.lock_eq_some held hS hlive (hm b (by simp))
        obtain ⟨p, hp⟩ := descend_along hS hlive j (b :: l) b z fuel
          (List.isChain_cons_cons.mp hl).2 (fun y hy => hm y (List.mem_cons_of_mem _ hy)) rfl
          (by simpa using hz) hk (by omega)
        refine ⟨a :: p, ?_⟩
        have hlt : k < a.num := by omega
        simp only [descend, hlt, if_true, hlock, hp, Option.map_some]

/-- A stored item of a branch from the fork database's head is what the search by number
finds. -/
theorem fetch_of_branch (hS : Sound hash S n) (hlive : ∀ x ∈ db.live held, S x)
    {F z : ForkItem τ} (hF : db.head = some F) {l : List (ForkItem τ)} (hl : Branch l)
    (hm : ∀ y ∈ l, y ∈ db.live held) (hh : l.head? = some F) (hz : z ∈ l)
    (hzi : z ∈ db.index) : db.fetchBlockOnMainBranchByNumber held z.num = some z := by
  have hlS : ∀ y ∈ l, S y := fun y hy => hlive y (hm y hy)
  have hzn : z ∈ db.fetchBlockByNumber z.num := by simp [fetchBlockByNumber, hzi]
  unfold fetchBlockOnMainBranchByNumber
  split
  · next he =>
    rw [he] at hzn
    cases hzn
  · next y he =>
    rw [he] at hzn
    simp only [List.mem_singleton] at hzn
    rw [hzn]
  · obtain ⟨j, hj⟩ := List.mem_iff_getElem?.mp hz
    have hnum := Branch.num_eq hS l hl hlS j F z hh hj
    have hlen := Branch.length_le hS hl hlS hh
    have hjl : j < l.length := by
      by_contra hn
      rw [List.getElem?_eq_none (by omega)] at hj
      cases hj
    obtain ⟨p, hp⟩ := descend_along hS hlive j l F z (F.ptr + 1) hl hm hh hj rfl (by omega)
    unfold walkMainBranchToNum
    have hge : ¬ F.num < z.num := by omega
    simp only [hF, hge, if_false, hp, Option.map_some]

/-- What the search by number finds is the only item of its number, or an ancestor of the fork
database's head. -/
theorem fetch_onChain (hS : Sound hash S n) (hlive : ∀ x ∈ db.live held, S x) {F x z : ForkItem τ}
    (hF : db.head = some F) (hz : z ∈ db.index)
    (h : db.fetchBlockOnMainBranchByNumber held z.num = some x) :
    x = z ∨ OnChain hash x.id F.id := by
  have hzn : z ∈ db.fetchBlockByNumber z.num := by simp [fetchBlockByNumber, hz]
  unfold fetchBlockOnMainBranchByNumber at h
  split at h
  · cases h
  · next y he =>
    rw [he] at hzn
    simp only [List.mem_singleton] at hzn
    exact .inl (by rw [hzn]; exact (Option.some.inj h).symm)
  · right
    unfold walkMainBranchToNum at h
    rw [hF] at h
    simp only at h
    split at h
    · cases h
    · obtain ⟨⟨l, y⟩, hd, hy⟩ := Option.map_eq_some_iff.mp h
      cases hy
      obtain ⟨hb, hh, hm, -, -⟩ := db.descend_branch held hd
      have hFl : F ∈ db.live held := (db.mem_live held).mpr (.inr (.inl hF))
      refine Branch.onChain hS (l ++ [y]) F y hb ?_ hh (by simp)
      intro w hw
      exact (hm w hw).elim (fun e => e ▸ hlive F hFl) (hlive w)

end ForkDatabase

namespace Database

open WeNode.Lib

variable {ρ : Type} {R : Rules τ ρ}

/-! ### What the log still needs -/

/-- The blocks of the chain above the log are stored and linked. -/
def StoredPath (d : Database τ ρ) : Prop :=
  ∃ l, Branch l ∧ (∀ x ∈ l, x ∈ d.forkDb.index) ∧
    (∀ x, l.head? = some x → x.id = d.chain.headBlockId) ∧
    d.chain.headBlockNumber ≤ d.blockLog.length + l.length

/-- Moreover, a block that failed on top of the head is linked to the head's item. -/
structure Stocked (d : Database τ ρ) : Prop where
  path : StoredPath d
  stale : ∀ h, d.forkDb.head = some h → d.chain.headBlockNumber < h.num →
    ∀ y ∈ d.forkDb.index, y.id = d.chain.headBlockId → h.prev = some y.ptr

/-- The log holds exactly the irreversible blocks of the chain. -/
def LogAgrees (R : Rules τ ρ) (d : Database τ ρ) : Prop :=
  d.blockLog.length = d.chain.lastIrreversibleBlockNum ∧
    ∀ n b, d.blockLog[n]? = some b →
      b.blockNum = n + 1 ∧ OnChain R.hash (b.id R.hash) d.chain.headBlockId

/-- The items of a branch above the log survive when the others are dropped. -/
theorem path_take {f f' : ForkDatabase τ} (ok : f.Ok R.hash) {i : BlockId} {k k' N : Nat}
    {l : List (ForkItem τ)} (hl : Branch l) (hm : ∀ x ∈ l, x ∈ f.index)
    (hid : ∀ x, l.head? = some x → x.id = i) (hi : i.num = N) (hN : N ≤ k + l.length)
    (hk : k ≤ k') (hkeep : ∀ x ∈ l, k' < x.num → x ∈ f'.index) :
    ∃ m, Branch m ∧ (∀ x ∈ m, x ∈ f'.index) ∧ (∀ x, m.head? = some x → x.id = i) ∧
      N ≤ k' + m.length := by
  have hS := ok.sound
  refine ⟨l.take (N - k'), hl.take _, ?_, ?_, by rw [List.length_take]; omega⟩
  · intro x hx
    have hxl := List.mem_of_mem_take hx
    refine hkeep x hxl ?_
    cases hh : l.head? with
    | none =>
      rw [List.head?_eq_none_iff.mp hh] at hxl
      cases hxl
    | some y =>
      obtain ⟨j, hj⟩ := List.mem_iff_getElem?.mp hx
      have hjt : j < N - k' := by
        by_contra hn
        rw [List.getElem?_take, if_neg hn] at hj
        cases hj
      rw [List.getElem?_take, if_pos hjt] at hj
      have hlive : ∀ z ∈ l, z ∈ f.live [] := fun z hz => ForkDatabase.index_live (hm z hz)
      have hnum := Branch.num_eq hS l hl hlive j y x hh hj
      have hy := hS.id_num (hlive y (List.mem_of_head? hh))
      rw [hid y hh, hi] at hy
      omega
  · intro x hx
    refine hid x ?_
    cases l with
    | nil => simp at hx
    | cons a l =>
      cases hc : N - k' with
      | zero =>
        rw [hc] at hx
        simp at hx
      | succ q =>
        rw [hc] at hx
        simpa using hx

section Push

variable {d : Database τ ρ} {b : SignedBlock τ} {f : ForkDatabase τ} {item newHead : ForkItem τ}

theorem index_mono (ha : Accepted R d b f item newHead) {x : ForkItem τ}
    (hx : x ∈ d.forkDb.index) : x ∈ f.index := by
  rcases ha.pushed.index with ⟨hi, -⟩ | ⟨hi, -⟩
  · rw [hi]
    exact List.mem_append_left _ hx
  · rw [hi]
    exact hx

/-- A block on top of the head is new to the fork database. -/
theorem item_stored (hi : Inv R d) (hal : Aligned d) (ha : Accepted R d b f item newHead)
    (hb : b.previous = d.chain.headBlockId) :
    f.index = d.forkDb.index ++ [item] ∧ item.num = d.chain.headBlockNumber + 1 := by
  have hnum : item.num = d.chain.headBlockNumber + 1 := by
    rw [ha.pushed.num, SignedBlock.blockNum, hb, hi.sane.id_num]
  refine ⟨?_, hnum⟩
  rcases ha.pushed.index with ⟨h, -⟩ | ⟨-, y, hy, hyid⟩
  · exact h
  · have h1 := hal.index_le y hy
    have h2 := hi.forkOk.sound.id_num (ForkDatabase.index_live hy)
    rw [hyid, ha.pushed.id, SignedBlock.id_num, ← ha.pushed.num] at h2
    omega

/-- The item of a block on top of the head is linked to the head's item, if that is stored. -/
theorem item_links (hi : Inv R d) (hal : Aligned d) (ha : Accepted R d b f item newHead)
    (hb : b.previous = d.chain.headBlockId) {y : ForkItem τ} (hy : y ∈ d.forkDb.index)
    (hyid : y.id = d.chain.headBlockId) : item.prev = some y.ptr := by
  have hne : d.forkDb.head ≠ none := by
    intro hn
    rw [hal.empty hn] at hy
    cases hy
  have hz : b.previous ≠ BlockId.zero := by
    rw [hb, ← hyid, hi.forkOk.sound.id_eq (ForkDatabase.index_live hy)]
    exact SignedBlock.id_ne_zero _
  obtain ⟨p, hp, hpid, hpp⟩ := ha.pushed.prev_some hne hz
  rw [hpp, hi.forkOk.unique p hp y hy (by rw [hpid, hb, hyid])]

theorem extend_path (hi : Inv R d) (hal : Aligned d) (hst : Stocked d)
    (ha : Accepted R d b f item newHead) (hb : b.previous = d.chain.headBlockId) :
    ∃ l, Branch (item :: l) ∧ (∀ x ∈ item :: l, x ∈ f.index) ∧
      (∀ x ∈ l, x ∈ d.forkDb.index) ∧ (∀ x, l.head? = some x → x.id = d.chain.headBlockId) ∧
      d.chain.headBlockNumber ≤ d.blockLog.length + l.length := by
  obtain ⟨l, hl, hm, hid, hlen⟩ := hst.path
  obtain ⟨hfi, -⟩ := item_stored hi hal ha hb
  refine ⟨l, ?_, ?_, hm, hid, hlen⟩
  · cases l with
    | nil => exact List.isChain_singleton _
    | cons y l =>
      refine List.isChain_cons_cons.mpr ⟨?_, hl⟩
      exact item_links hi hal ha hb (hm y (by simp)) (hid y rfl)
  · intro x hx
    rcases List.mem_cons.mp hx with rfl | hx
    · rw [hfi]
      simp
    · exact index_mono ha (hm x hx)

/-- Every block above the log, up to the new one, is found by its number. -/
theorem extend_fetch (hi : Inv R d) (hal : Aligned d) (hst : Stocked d)
    (ha : Accepted R d b f item newHead) (hb : b.previous = d.chain.headBlockId)
    (he : newHead.data.previous = d.chain.headBlockId) {i : Nat} (hlog : d.blockLog.length < i)
    (hle : i ≤ d.chain.headBlockNumber + 1) :
    ∃ z, f.fetchBlockOnMainBranchByNumber [newHead] i = some z ∧
      OnChain R.hash z.id (b.id R.hash) := by
  have hS := ha.pushed.ok.sound
  have hlive : ∀ x ∈ f.live [newHead], x ∈ f.live [] := fun _ => ha.live_newHead
  obtain ⟨l, hl, hm, hml, hid, hlen⟩ := extend_path hi hal hst ha hb
  obtain ⟨hfi, hinum⟩ := item_stored hi hal ha hb
  have hmS : ∀ x ∈ item :: l, x ∈ f.live [] := fun x hx => ForkDatabase.index_live (hm x hx)
  -- the block of number `i` on the chain
  obtain ⟨z, hz⟩ : ∃ z, (item :: l)[d.chain.headBlockNumber + 1 - i]? = some z := by
    rw [List.getElem?_eq_getElem (by simp only [List.length_cons]; omega)]
    exact ⟨_, rfl⟩
  have hznum : z.num = i := by
    have := Branch.num_eq hS (item :: l) hl hmS _ item z rfl hz
    omega
  have hzl : z ∈ item :: l := List.mem_of_getElem? hz
  have hon : OnChain R.hash z.id (b.id R.hash) := by
    rw [← ha.pushed.id]
    exact Branch.onChain hS (item :: l) item z hl hmS rfl hzl
  have hin : ∀ x ∈ f.index, x ∈ f.live [newHead] := fun x hx => (f.mem_live _).mpr (.inl hx)
  refine ⟨z, ?_, hon⟩
  by_cases hN : newHead = item
  · rw [← hznum]
    refine ForkDatabase.fetch_of_branch hS hlive (F := item) ?_ hl (fun x hx => hin x (hm x hx))
      rfl hzl (hm z hzl)
    rw [ha.head, hN]
  · -- the fork database's head is an earlier block that failed on top of the chain's head
    obtain ⟨h, hh, hhN, -⟩ := ha.pushed.head.resolve_left (by
      rintro ⟨h1, -⟩
      rw [ha.head] at h1
      exact hN (Option.some.inj h1))
    rw [ha.head] at hhN
    cases hhN
    have hNnum : newHead.num = d.chain.headBlockNumber + 1 := ha.newHead_num hi he
    by_cases hieq : i = d.chain.headBlockNumber + 1
    · -- only the new block has its number
      have hzi : z = item := by
        rw [hieq, Nat.sub_self] at hz
        simpa using hz.symm
      have hone : f.fetchBlockByNumber i = [item] := by
        unfold ForkDatabase.fetchBlockByNumber
        rw [hfi, List.filter_append]
        have hnil : d.forkDb.index.filter (fun x => decide (x.num = i)) = [] := by
          rw [List.filter_eq_nil_iff]
          intro x hx
          have := hal.index_le x hx
          simp only [decide_eq_true_eq]
          omega
        rw [hnil, List.nil_append, List.filter_cons_of_pos (by simp; omega)]
        rfl
      unfold ForkDatabase.fetchBlockOnMainBranchByNumber
      rw [hone, hzi]
    · cases l with
      | nil => simp at hlen; omega
      | cons y l =>
        have hyi := hml y (by simp)
        have hNy : newHead.prev = some y.ptr :=
          hst.stale newHead hh (by omega) y hyi (hid y rfl)
        have hzl' : z ∈ y :: l := by
          rcases List.mem_cons.mp hzl with rfl | h
          · omega
          · exact h
        rw [← hznum]
        refine ForkDatabase.fetch_of_branch hS hlive (l := newHead :: y :: l) ha.head ?_ ?_ rfl
          (List.mem_cons_of_mem _ hzl') (hm z hzl)
        · exact List.isChain_cons_cons.mpr ⟨hNy, (List.isChain_cons.mp hl).2⟩
        · intro x hx
          rcases List.mem_cons.mp hx with rfl | hx
          · exact (f.mem_live _).mpr (.inr (.inl ha.head))
          · exact hin x (hm x (List.mem_cons_of_mem _ hx))

end Push

/-! ### The condition -/

/-- Applying the old branch again after a failed switch drops no item above the log: the fork
database's head then stands as many items below the chain's head as blocks of the new branch
were applied. -/
def DropsNothing (R : Rules τ ρ) (d : Database τ ρ) (first second : List (ForkItem τ)) : Prop :=
  ∀ m ∈ ChainState.advances R (d.stateBack second.length) (blocksOf second),
    threshold (d.chain.headBlockNumber -
      ChainState.coreCount R (d.stateBack second.length) (blocksOf first)) m ≤
      d.blockLog.length + 1

/-- A block on top of the head applies or fails before it moves the irreversible block.  A
switch finds its branches within the undo sessions; it goes through, from a stored fork point,
to a branch with no lower irreversible block number; or it fails before it moves the
irreversible block, and restoring the old branch loses nothing the log needs. -/
def LogSafe (R : Rules τ ρ) (d : Database τ ρ) (b : SignedBlock τ) : Prop :=
  NotStale d b ∧
    ∀ f newHead, d.forkDb.pushBlock R.hash b = .ok f → f.head = some newHead →
      (newHead.data.previous = d.chain.headBlockId →
        ChainState.coreRun R d.chain [b] ≠ none ∨
          LibBelow R d.chain [b] d.chain.lastIrreversibleBlockNum) ∧
      (newHead.data.previous ≠ d.chain.headBlockId →
        d.chain.headBlockNumber < newHead.data.blockNum →
        (f.fetchBranchFrom newHead.id d.chain.headBlockId).isSome = true ∧
          ∀ first second,
            f.fetchBranchFrom newHead.id d.chain.headBlockId = some (first, second) →
            second.length ≤ d.store.stack.length ∧
              ((Goes R { f with head := first.getLast? } (heldBy newHead first second) d.blockLog
                    (d.stateBack second.length) (blocksOf first) ∧
                  (∀ t ∈ ChainState.coreRun R (d.stateBack second.length) (blocksOf first),
                    d.chain.lastIrreversibleBlockNum ≤ t.lastIrreversibleBlockNum) ∧
                  (d.blockLog.length < (d.stateBack second.length).headBlockNumber →
                    ForkPointStored f first)) ∨
                (¬ ChainState.coreRun R (d.stateBack second.length) (blocksOf first) ≠ none ∧
                  LibBelow R (d.stateBack second.length) (blocksOf first)
                    d.chain.lastIrreversibleBlockNum ∧
                  (ChainState.coreRun R (d.stateBack second.length)
                    (blocksOf first).dropLast ≠ none → ForkPointStored f second) ∧
                  DropsNothing R d first second)))

/-- What a run of such pushes keeps. -/
structure LogInv (R : Rules τ ρ) (d : Database τ ρ) : Prop where
  inv : Inv R d
  aligned : Aligned d
  stocked : Stocked d
  agrees : LogAgrees R d

theorem LogSafe.undoable {d : Database τ ρ} {b : SignedBlock τ} (hl : LogInv R d)
    (h : LogSafe R d b) : Undoable R d b := by
  intro f newHead hp hh
  have hi := hl.inv
  obtain ⟨item, hpushed⟩ := ForkDatabase.pushBlock_spec hi.forkOk hp
  have ha : Accepted R d b f item newHead := ⟨hp, hpushed, hh⟩
  obtain ⟨h1, h2⟩ := h.2 f newHead hp hh
  refine ⟨fun he => ?_, fun hne hlt first second hbr => ?_⟩
  · rcases h1 he with hrun | hlib
    · left
      refine ⟨hrun, fun m hm i hi1 hi2 => ?_⟩
      obtain ⟨hms, hgt⟩ := advances_sane hi.sane hm
      obtain ⟨t, ht⟩ := Option.ne_none_iff_exists'.mp hrun
      have h3 := (ChainState.coreRun_sane hi.sane ht).2.2
      have h4 := advances_lib_le hi.sane ht hm
      have h5 := (ChainState.coreRun_sane hi.sane ht).1.lib_le
      simp only [List.length_singleton] at h3
      obtain ⟨z, hz, -⟩ := extend_fetch hi hl.aligned hl.stocked ha
        (h.1.extends hi ha he) he hi1 (by omega)
      rw [hz]
      simp
    · exact .inr fun m hm => (hlib m hm).trans hi.sane.lib_le
  · obtain ⟨hsome, h3⟩ := h2 hne hlt
    obtain ⟨-, hmem, hnum⟩ := hl.aligned.higher ha hne hlt hsome hi.sane
    obtain ⟨hdepth, hcase⟩ := h3 first second hbr
    have hr : Reorg R { d with forkDb := f } newHead first second :=
      ⟨hpushed.ok, hh, hmem, hnum, hne, hbr, hdepth⟩
    have hle := (hr.lib_le_back (hi.toCore.congr rfl rfl) hi.bounded).1
    refine ⟨hmem, hnum, hdepth, ?_⟩
    rcases hcase with ⟨hg, -⟩ | ⟨-, hlib, hfp, -⟩
    · exact .inl hg
    · exact .inr ⟨fun m hm => (hlib m hm).trans hle, hfp⟩

/-! ### One push -/

theorem prefix_eq_of_length {α : Type} {l m : List α} (h : l <+: m) (hl : m.length ≤ l.length) :
    m = l :=
  (h.eq_of_length (le_antisymm h.length_le hl)).symm

/-- The chain, the log and the items above the log are as before. -/
theorem LogInv.same {d d' : Database τ ρ} (hl : LogInv R d) (hi' : Inv R d') (hal' : Aligned d')
    (hch : d'.chain = d.chain) (hlog : d'.blockLog = d.blockLog)
    (hkeep : ∀ x ∈ d.forkDb.index, d.blockLog.length < x.num →
      (∀ l, Branch l → (∀ y ∈ l, y ∈ d.forkDb.index) →
        (∀ y, l.head? = some y → y.id = d.chain.headBlockId) → x ∈ l → x ∈ d'.forkDb.index))
    (hstale : ∀ h, d'.forkDb.head = some h → d.chain.headBlockNumber < h.num →
      ∀ y ∈ d'.forkDb.index, y.id = d.chain.headBlockId → h.prev = some y.ptr) :
    LogInv R d' where
  inv := hi'
  aligned := hal'
  stocked := by
    refine ⟨?_, by rw [hch]; exact hstale⟩
    obtain ⟨l, h1, h2, h3, h4⟩ := hl.stocked.path
    unfold StoredPath
    rw [hch, hlog]
    exact path_take hl.inv.forkOk h1 h2 h3 hl.inv.sane.id_num h4 le_rfl
      fun x hx hgt => hkeep x (h2 x hx) hgt l h1 h2 h3 hx
  agrees := by
    unfold LogAgrees
    rw [hch, hlog]
    exact hl.agrees

theorem LogInv.extended {d d' : Database τ ρ} {b : SignedBlock τ} (hl : LogInv R d)
    (hi' : Inv R d') (hal' : Aligned d') {f : ForkDatabase τ} {item newHead : ForkItem τ}
    (ha : Accepted R d b f item newHead) (he : newHead.data.previous = d.chain.headBlockId)
    (hb : b.previous = d.chain.headBlockId)
    (hd : Applied R [newHead] { d with forkDb := f } b d') : LogInv R d' := by
  have hi := hl.inv
  have hS := ha.pushed.ok.sound
  have hcore : d.chain.coreApply R b = some d'.chain := hd.core
  obtain ⟨hsane, hlibm, hnum⟩ := ChainState.coreApply_sane hi.sane hcore
  have hid' : d'.chain.headBlockId = b.id R.hash := (ChainState.coreApply_head hcore).2.2
  have hlen : d'.blockLog.length = d'.chain.lastIrreversibleBlockNum := by
    have h1 := hd.length
    have h2 := hl.agrees.1
    simp only at h1
    omega
  have hN : newHead.num = d.chain.headBlockNumber + 1 := ha.newHead_num hi he
  refine ⟨hi', hal', ⟨?_, ?_⟩, hlen, ?_⟩
  · obtain ⟨l, h1, h2, h3, h4, h5⟩ := extend_path hi hl.aligned hl.stocked ha hb
    have hgrow : d.blockLog.length ≤ d'.blockLog.length := hd.grow
    refine path_take (f := f) ha.pushed.ok h1 h2 (i := d'.chain.headBlockId) ?_ hsane.id_num
      (k := d.blockLog.length) ?_ hgrow ?_
    · intro x hx
      have : item = x := by simpa using hx
      rw [← this, hid', ha.pushed.id]
    · rw [hnum, List.length_cons]
      omega
    · intro x hx hgt
      rw [hd.fork]
      refine ForkDatabase.mem_setMaxSize.mpr ⟨h2 x hx, fun h hh => ?_⟩
      have hh' : f.head = some h := hh
      rw [ha.head] at hh'
      cases hh'
      have := hsane.lib_le
      omega
  · intro h hh hlt
    rw [hd.fork, ForkDatabase.setMaxSize_head] at hh
    have hh' : f.head = some h := hh
    rw [ha.head] at hh'
    cases hh'
    omega
  · intro n c hc
    refine ⟨hd.logOk n c hc, ?_⟩
    rw [hid']
    by_cases hn : n < d.blockLog.length
    · obtain ⟨t, ht⟩ := hd.grown.1
      have hc' : d.blockLog[n]? = some c := by
        rw [← ht, List.getElem?_append_left hn] at hc
        exact hc
      have hold := (hl.agrees.2 n c hc').2
      rw [← hb] at hold
      exact .parent b hold
    · obtain ⟨x, hx, rfl⟩ := hd.grown.2 n c (by simp only; omega) hc
      have hnl : n + 1 ≤ d.chain.headBlockNumber + 1 := by
        have h1 : n < d'.blockLog.length := by
          by_contra h1
          rw [List.getElem?_eq_none (by omega)] at hc
          cases hc
        have := hsane.lib_le
        omega
      obtain ⟨z, hz, hon⟩ := extend_fetch hi hl.aligned hl.stocked ha hb he
        (show d.blockLog.length < n + 1 by omega) hnl
      have hxz : x = z := Option.some.inj (hx.symm.trans hz)
      have hzl : z ∈ f.live [newHead] := by
        refine (ForkDatabase.fetchBlockOnMainBranchByNumber_spec hS ?_ hz).2
        intro y hy
        rcases (f.mem_live _).mp hy with hy | hy | hy
        · exact ForkDatabase.index_live hy
        · exact ForkDatabase.head_live hy
        · have : y = newHead := by simpa using hy
          rw [this]
          exact ForkDatabase.head_live ha.head
      have hzS : z ∈ f.live [] := by
        rcases (f.mem_live _).mp hzl with hy | hy | hy
        · exact ForkDatabase.index_live hy
        · exact ForkDatabase.head_live hy
        · have : z = newHead := by simpa using hy
          rw [this]
          exact ForkDatabase.head_live ha.head
      rw [hxz, ← hS.id_eq hzS]
      exact hon

section Switch

variable {d d' : Database τ ρ} {f : ForkDatabase τ} {newHead G : ForkItem τ}
  {first second : List (ForkItem τ)}

theorem first_num (hr : Reorg R d newHead first second) (hc : Core R d) {x : ForkItem τ} (hx : x ∈ first) :
    (d.stateBack second.length).headBlockNumber < x.num := by
  obtain ⟨-, hnum⟩ := hr.back hc
  obtain ⟨i, hi⟩ := List.mem_iff_getElem?.mp hx
  have h1 := Branch.num_eq hr.ok.sound first hr.spec.first_branch hr.spec.first_live i newHead x
    hr.first_head hi
  have h2 : i < first.length := by
    by_contra hn
    rw [List.getElem?_eq_none (by omega)] at hi
    cases hi
  have h3 := hr.length hc
  have h4 := hr.next
  omega

/-- The old branch is the newest part of the chain's stored path. -/
theorem path_second (hr : Reorg R d newHead first second) {l : List (ForkItem τ)}
    (hl : Branch l) (hm : ∀ x ∈ l, x ∈ d.forkDb.index)
    (hid : ∀ x, l.head? = some x → x.id = d.chain.headBlockId) {i : Nat} {x y : ForkItem τ}
    (hx : l[i]? = some x) (hy : second[i]? = some y) : x = y := by
  obtain ⟨z, hzi, hz, hzid⟩ := hr.spec.second_head
  have hhead : l.head? = second.head? := by
    cases hh : l.head? with
    | none =>
      rw [List.head?_eq_none_iff.mp hh] at hx
      simp at hx
    | some w =>
      rw [hz, hr.ok.unique w (hm w (List.mem_of_head? hh)) z hzi (by rw [hid w hh, hzid])]
  exact Branch.agree hr.ok.sound l second hl hr.spec.second_branch
    (fun w hw => ForkDatabase.index_live (hm w hw)) hr.spec.second_live hhead i x y hx hy

/-- The stored path of the new chain. -/
theorem switched_path (hr : Reorg R d newHead first second) (hc : Core R d) (hst : StoredPath d)
    (hfp : d.blockLog.length < (d.stateBack second.length).headBlockNumber →
      ForkPointStored d.forkDb first) :
    ∃ l, Branch l ∧ (∀ x ∈ l, x ∈ d.forkDb.index) ∧ l.head? = some newHead ∧
      d.chain.headBlockNumber + 1 ≤ d.blockLog.length + l.length ∧ ∀ x ∈ first, x ∈ l := by
  have hS := hr.ok.sound
  obtain ⟨-, hnum⟩ := hr.back hc
  have hlen := hr.length hc
  by_cases hlow : d.blockLog.length < (d.stateBack second.length).headBlockNumber
  · obtain ⟨l, hl, hm, hid, hcov⟩ := hst
    obtain ⟨G, P, hG, hP, hGP⟩ := hfp hlow
    obtain ⟨G', a, hG', ha, haG⟩ := hr.spec.last
    rw [hG] at hG'
    cases hG'
    have hspos : 0 < second.length := List.length_pos_of_ne_nil hr.spec.second_ne
    -- the item below the old branch is the one the new branch points to
    obtain ⟨q, hq⟩ : ∃ q, l[second.length]? = some q := by
      rw [List.getElem?_eq_getElem (by omega)]
      exact ⟨_, rfl⟩
    obtain ⟨p, hp⟩ : ∃ p, l[second.length - 1]? = some p := by
      rw [List.getElem?_eq_getElem (by omega)]
      exact ⟨_, rfl⟩
    have hpa : p = a := by
      rw [List.getLast?_eq_getElem?] at ha
      exact path_second hr hl hm hid hp ha
    have hdrop : l.drop (second.length - 1) = p :: q :: l.drop (second.length + 1) := by
      rw [List.drop_eq_getElem_cons (by omega), List.drop_eq_getElem_cons (by omega)]
      rw [List.getElem?_eq_getElem (by omega)] at hp hq
      have h1 := Option.some.inj hp
      have h2 := Option.some.inj hq
      have h3 : second.length - 1 + 1 = second.length := by omega
      simp only [h3, h1, h2]
    have hpq : Links p q := by
      have := hl.drop (second.length - 1)
      rw [hdrop] at this
      exact (List.isChain_cons_cons.mp this).1
    have hqi := hm q (List.mem_of_getElem? hq)
    have hqP : q = P := by
      refine hr.ok.unique q hqi P hP ?_
      have h1 := hS.prev_id (ForkDatabase.index_live (hm p (List.mem_of_getElem? hp)))
        (ForkDatabase.index_live hqi) hpq
      have h2 := hS.prev_id (hr.spec.first_live G (List.mem_of_getLast? hG))
        (ForkDatabase.index_live hP) hGP
      rw [h1, h2, hpa, haG]
    have hdq : (l.drop second.length).head? = some P := by
      rw [List.head?_drop, hq, hqP]
    refine ⟨first ++ l.drop second.length, ?_, ?_, ?_, ?_, fun x hx => List.mem_append_left _ hx⟩
    · refine List.IsChain.append hr.spec.first_branch (hl.drop _) ?_
      intro u hu v hv
      rw [hG] at hu
      rw [hdq] at hv
      cases hu
      cases hv
      exact hGP
    · intro x hx
      rcases List.mem_append.mp hx with hx | hx
      · exact hr.first_index x hx
      · exact hm x (List.mem_of_mem_drop hx)
    · cases hf : first with
      | nil => exact absurd hf hr.spec.first_ne
      | cons y t =>
        have := hr.first_head
        rw [hf] at this
        simpa using this
    · rw [List.length_append, List.length_drop]
      omega
  · refine ⟨first, hr.spec.first_branch, hr.first_index, hr.first_head, ?_, fun x hx => hx⟩
    omega

theorem switched_head_id (hr : Reorg R d newHead first second)
    (hw : Switched R d newHead G first second d') : d'.chain.headBlockId = newHead.id := by
  have hrun := hw.run
  obtain ⟨x, t, hxt⟩ := List.exists_cons_of_ne_nil hr.spec.first_ne
  have hx := hr.first_head
  rw [hxt] at hx
  have hx' : x = newHead := by simpa using hx
  have hsplit : blocksOf first = blocksOf t ++ [newHead.data] := by
    rw [hxt, hx']
    simp [blocksOf]
  rw [hsplit] at hrun
  rw [coreRun_last_id hrun, hr.ok.sound.id_eq (ForkDatabase.index_live hr.stored)]

/-- A switch that goes through takes the log along. -/
theorem switched_logInv (hr : Reorg R d newHead first second) (hag : LogAgrees R d)
    (hst : StoredPath d) (hc : Core R d) (hb : Bounded d) (hcf : CollisionFree R.hash)
    (hG : first.getLast? = some G) (hw : Switched R d newHead G first second d')
    (hi' : Inv R d') (hal' : Aligned d')
    (hlib : d.chain.lastIrreversibleBlockNum ≤ d'.chain.lastIrreversibleBlockNum)
    (hfp : d.blockLog.length < (d.stateBack second.length).headBlockNumber →
      ForkPointStored d.forkDb first) : LogInv R d' := by
  have hS := hr.ok.sound
  obtain ⟨hle, hsane⟩ := hr.lib_le_back hc hb
  have hnum := hw.headBlockNumber hr hc
  have hid := switched_head_id hr hw
  have hlen : d'.blockLog.length = d'.chain.lastIrreversibleBlockNum := by
    have h1 := hw.log_le d'.chain.lastIrreversibleBlockNum (by rw [hag.1]; exact hlib)
      fun m hm => advances_lib_le hsane hw.run hm
    have h2 := hw.core.logged
    omega
  obtain ⟨l, h1, h2, h3, h4, h5⟩ := switched_path hr hc hst hfp
  have hGl : G ∈ l := h5 G (List.mem_of_getLast? hG)
  refine ⟨hi', hal', ⟨?_, ?_⟩, hlen, ?_⟩
  · refine path_take hr.ok h1 h2 (i := d'.chain.headBlockId) ?_ hw.core.sane.id_num
      (k := d.blockLog.length) (by omega) hw.grown.1.length_le ?_
    · intro x hx
      rw [h3] at hx
      cases hx
      exact hid.symm
    · intro x hx hgt
      exact hw.trimmed.keep x (h2 x hx) (by omega)
  · intro h hh hlt
    rw [hw.trimmed.head] at hh
    cases hh
    obtain ⟨j, hj⟩ := List.mem_iff_getElem?.mp hGl
    have := Branch.num_eq hS l h1 (fun x hx => ForkDatabase.index_live (h2 x hx)) j newHead G h3 hj
    have := hr.next
    omega
  · intro n c hcn
    refine ⟨hw.core.logOk n c hcn, ?_⟩
    by_cases hn : n < d.blockLog.length
    · obtain ⟨t, ht⟩ := hw.grown.1
      have hcd : d.blockLog[n]? = some c := by
        rw [← ht, List.getElem?_append_left hn] at hcn
        exact hcn
      obtain ⟨hnb, hon⟩ := hag.2 n c hcd
      have hlow : (c.id R.hash).num ≤ (d.stateBack second.length).headBlockNumber := by
        rw [SignedBlock.id_num, hnb]
        have := hag.1
        omega
      exact (onChain_coreRun hcf hsane hw.run hlow).mpr
        ((onChain_coreRun hcf hsane (hr.second_run hc hcf).1 hlow).mp hon)
    · obtain ⟨x, hx, rfl⟩ := hw.grown.2 n c (by omega) hcn
      have hnl : n < d'.blockLog.length := by
        by_contra h6
        rw [List.getElem?_eq_none (by omega)] at hcn
        cases hcn
      have hlb := hw.core.sane.lib_le
      have hlS : ∀ y ∈ l, y ∈ d.forkDb.live [] := fun y hy => ForkDatabase.index_live (h2 y hy)
      have hNn := hr.next
      obtain ⟨z, hz⟩ : ∃ z, l[newHead.num - (n + 1)]? = some z := by
        rw [List.getElem?_eq_getElem (by omega)]
        exact ⟨_, rfl⟩
      have hzl := List.mem_of_getElem? hz
      have hzn : z.num = n + 1 := by
        have := Branch.num_eq hS l h1 hlS _ newHead z h3 hz
        omega
      rw [← hzn] at hx
      have hlive : ∀ y ∈ ({ d.forkDb with head := some G } : ForkDatabase τ).live
          (heldBy newHead first second), y ∈ d.forkDb.live [] := by
        intro y hy
        rcases (ForkDatabase.mem_live _ _).mp hy with hy | hy | hy
        · exact ForkDatabase.index_live hy
        · cases hy
          exact hlS G hGl
        · exact hr.held_live ((d.forkDb.mem_live _).mpr (.inr (.inr hy)))
      have hxS : x ∈ d.forkDb.live [] :=
        hlive x (ForkDatabase.fetchBlockOnMainBranchByNumber_spec hS hlive hx).2
      rw [hid, ← hS.id_eq hxS]
      rcases ForkDatabase.fetch_onChain hS hlive rfl (h2 z hzl) hx with rfl | hon
      · exact Branch.onChain hS l newHead x h1 hlS h3 hzl
      · exact hon.trans (Branch.onChain hS l newHead G h1 hlS h3 hGl)

/-- Restoring the old branch keeps the items above the log. -/
theorem restored_keep {x : ForkItem τ} {good rest : List (ForkItem τ)} {e : ForkItem τ}
    (hr : Reorg R d newHead first second) (hc : Core R d)
    (hsplit : first.reverse = good ++ e :: rest)
    (hgood : ChainState.coreRun R (d.stateBack second.length) (good.map (·.data)) ≠ none)
    (hbad : ¬ ChainState.coreRun R (d.stateBack second.length)
      ((good ++ [e]).map (·.data)) ≠ none)
    (hlib : LibBelow R (d.stateBack second.length) (blocksOf first) d.blockLog.length)
    (hdrop : DropsNothing R d first second)
    (hw : Restored R d first second good (e :: rest) d') {l : List (ForkItem τ)} (hl : Branch l)
    (hm : ∀ y ∈ l, y ∈ d.forkDb.index)
    (hid : ∀ y, l.head? = some y → y.id = d.chain.headBlockId) (hx : x ∈ l)
    (hgt : d.blockLog.length < x.num) : x ∈ d'.forkDb.index := by
  have hS := hr.ok.sound
  have hcount : ChainState.coreCount R (d.stateBack second.length) (blocksOf first) =
      good.length := by
    obtain ⟨t, ht⟩ := Option.ne_none_iff_exists'.mp hgood
    have hblocks : blocksOf first = good.map (·.data) ++ (e.data :: rest.map (·.data)) := by
      unfold blocksOf
      rw [hsplit]
      simp
    have hnone : t.coreApply R e.data = none := by
      rw [List.map_append, ChainState.coreRun_append, ht, not_not] at hbad
      cases hte : t.coreApply R e.data with
      | none => rfl
      | some u => simp [ChainState.coreRun, hte] at hbad
    rw [hblocks, ChainState.coreCount_append ht, List.length_map]
    simp only [ChainState.coreCount, hnone]
    omega
  refine hw.keep (d.blockLog.length + 1) (fun m hm => (hlib m hm).trans (Nat.le_succ _)) ?_ x
    (hm x hx) hgt ?_
  · intro m hm
    have := hdrop m hm
    rwa [hcount] at this
  · intro y hy he
    have hyf : y ∈ first := by
      rw [← List.mem_reverse, hsplit]
      exact List.mem_append_right _ hy
    have hyn := first_num hr hc hyf
    have hxy : x.num = y.num := by
      rw [← hS.id_num (ForkDatabase.index_live (hm x hx)), he, hS.id_num (hr.spec.first_live y hyf)]
    -- above the fork point the path is the old branch, which shares no block with the new one
    obtain ⟨i, hi⟩ := List.mem_iff_getElem?.mp hx
    obtain ⟨-, hnum⟩ := hr.back hc
    have hin : x.num + i = d.chain.headBlockNumber := by
      cases hh : l.head? with
      | none =>
        rw [List.head?_eq_none_iff.mp hh] at hx
        cases hx
      | some h =>
        have h1 := Branch.num_eq hS l hl (fun w hw => ForkDatabase.index_live (hm w hw)) i h x hh hi
        have h2 := hS.id_num (ForkDatabase.index_live (hm h (List.mem_of_head? hh)))
        rw [hid h hh, hc.sane.id_num] at h2
        omega
    obtain ⟨z, hz⟩ : ∃ z, second[i]? = some z := by
      rw [List.getElem?_eq_getElem (by omega)]
      exact ⟨_, rfl⟩
    have hxz := path_second hr hl hm hid hi hz
    refine fetchBranchFrom_disjoint hr.ok hr.branches ?_ hr.stored rfl hr.other y hyf z
      (List.mem_of_getElem? hz) (by rw [← hxz, he])
    rw [hS.id_num (ForkDatabase.index_live hr.stored), hc.sane.id_num, hr.next]

end Switch

theorem push_logInv {d : Database τ ρ} {b : SignedBlock τ} (hcf : CollisionFree R.hash)
    (hl : LogInv R d) (hs : LogSafe R d b) : LogInv R (push R d b) := by
  have hi := hl.inv
  have hu := hs.undoable hl
  have hout := pushBlock_cases hi hcf hu
  have hi' : Inv R (push R d b) := push_inv hi hcf hu
  have hal' : Aligned (push R d b) := hout.aligned hi hl.aligned
    fun f newHead hp hh hne hlt => ((hs.2 f newHead hp hh).2 hne hlt).1
  -- the head of a block refused on top of the chain's head is linked to it
  have hstale : ∀ {f : ForkDatabase τ} {item newHead : ForkItem τ},
      Accepted R d b f item newHead → newHead.data.previous = d.chain.headBlockId →
      ∀ y ∈ f.index, y.id ≠ b.id R.hash → y.id = d.chain.headBlockId →
        newHead.prev = some y.ptr := by
    intro f item newHead ha he y hy hyb hyid
    have hb := hs.1.extends hi ha he
    have hyd : y ∈ d.forkDb.index := (ha.mem_index hy).resolve_right fun h =>
      hyb (by rw [h, ha.pushed.id])
    rcases ha.pushed.head with ⟨h1, -⟩ | ⟨h, h1, h2, -⟩
    · rw [ha.head] at h1
      cases h1
      exact item_links hi hl.aligned ha hb hyd hyid
    · rw [ha.head] at h2
      cases h2
      refine hl.stocked.stale newHead h1 ?_ y hyd hyid
      have := ha.newHead_num hi he
      omega
  have hnotb : ∀ {f : ForkDatabase τ} {item newHead : ForkItem τ},
      Accepted R d b f item newHead → newHead.data.previous = d.chain.headBlockId →
      ∀ x ∈ d.forkDb.index, x.id ≠ b.id R.hash := by
    intro f item newHead ha he x hx hxb
    have hb := hs.1.extends hi ha he
    have h1 := hl.aligned.index_le x hx
    have h2 := hi.forkOk.sound.id_num (ForkDatabase.index_live hx)
    rw [hxb, SignedBlock.id_num, SignedBlock.blockNum, hb, hi.sane.id_num] at h2
    omega
  unfold push at hi' hal' ⊢
  generalize pushBlock R d b = r at hout hi' hal'
  cases hout with
  | rejected he => exact hl
  | @parked f item newHead ha hne hle =>
    refine hl.same hi' hal' rfl rfl (fun x hx _ _ _ _ _ _ => index_mono ha hx) ?_
    intro h hh hlt
    have hh' : f.head = some h := hh
    rw [ha.head] at hh'
    cases hh'
    rw [ha.pushed.ok.sound.num_eq (ForkDatabase.head_live ha.head)] at hlt
    omega
  | unlinked ha hne hlt hb =>
    have := ((hs.2 _ _ ha.push ha.head).2 hne hlt).1
    rw [hb] at this
    cases this
  | extended ha he hd => exact hl.extended hi' hal' ha he (hs.1.extends hi ha he) hd
  | @refused f item newHead e ha he hadv =>
    refine hl.same hi' hal' rfl rfl ?_ ?_
    · intro x hx _ _ _ _ _ _
      simp only [after_error, ForkDatabase.remove, List.mem_filter]
      exact ⟨index_mono ha hx, by simpa using hnotb ha he x hx⟩
    · intro h hh hlt y hy hyid
      simp only [after_error, ForkDatabase.remove, List.mem_filter] at hh hy
      rw [ha.head] at hh
      cases hh
      exact hstale ha he y hy.1 (by simpa using hy.2) hyid
  | @undone f item newHead d₁ m e ha he hadv hlib hng hf =>
    have hmem : m ∈ ChainState.advances R d.chain [b] := by
      simp only [ChainState.advances, hadv]
      split <;> simp
    have hml : m.lastIrreversibleBlockNum ≤ d.chain.lastIrreversibleBlockNum := by
      refine ((hs.2 _ _ ha.push ha.head).1 he).resolve_left (fun hrun => hng ?_) m hmem
      rcases (hu f newHead ha.push ha.head).1 he with hg | hb'
      · exact hg
      · refine ⟨hrun, fun m' hm' i hi1 hi2 => ?_⟩
        obtain ⟨z, hz, -⟩ := extend_fetch hi hl.aligned hl.stocked ha (hs.1.extends hi ha he) he
          hi1 (by have := hb' m' hm'; omega)
        rw [hz]
        simp
    have hstore := hf.store (by
      change m.lastIrreversibleBlockNum ≤ d.store.revision
      rw [hi.revision]
      exact hlib)
    obtain ⟨hms, hmn⟩ := advances_sane hi.sane hmem
    have hmn' := (ChainState.advance_sane hi.sane hadv).2.2
    have hlog : d₁.blockLog = d.blockLog := prefix_eq_of_length hf.grown.1 (by
      have h1 := hf.length
      have h2 := hl.agrees.1
      simp only at h1 ⊢
      omega)
    have hN : newHead.num = d.chain.headBlockNumber + 1 := ha.newHead_num hi he
    have hhead : d₁.forkDb.head = some newHead := by
      rcases hf.fork with h | h
      · rw [h]
        exact ha.head
      · rw [h, ForkDatabase.setMaxSize_head]
        exact ha.head
    refine hl.same hi' hal' ?_ hlog ?_ ?_
    · change d₁.store.current = d.store.current
      rw [hstore]
      rfl
    · intro x hx hgt _ _ _ _ _
      simp only [after_error, ForkDatabase.remove, List.mem_filter]
      refine ⟨?_, by simpa using hnotb ha he x hx⟩
      rcases hf.fork with h | h
      · rw [h]
        exact index_mono ha hx
      · rw [h]
        refine ForkDatabase.mem_setMaxSize.mpr ⟨index_mono ha hx, fun t ht => ?_⟩
        have ht' : f.head = some t := ht
        rw [ha.head] at ht'
        cases ht'
        have h2 := hl.agrees.1
        have h3 := hms.lib_le
        omega
    · intro h hh hlt y hy hyid
      simp only [after_error, ForkDatabase.remove, List.mem_filter] at hh hy
      rw [hhead] at hh
      cases hh
      refine hstale ha he y ?_ (by simpa using hy.2) hyid
      rcases hf.fork with h | h
      · rw [h] at hy
        exact hy.1
      · rw [h] at hy
        exact (ForkDatabase.mem_setMaxSize.mp hy.1).1
  | @switched f item newHead G first second d' ha hr hG hgoes hw =>
    have hlt : d.chain.headBlockNumber < newHead.data.blockNum := hr.higher
    obtain ⟨-, hcase⟩ := ((hs.2 _ _ ha.push ha.head).2 hr.other hlt).2 first second hr.branches
    obtain ⟨-, hlow, hfp⟩ := hcase.resolve_right fun h => h.1 hgoes.1
    have hpath : StoredPath { d with forkDb := f } := by
      obtain ⟨l, h1, h2, h3, h4⟩ := hl.stocked.path
      exact ⟨l, h1, fun x hx => index_mono ha (h2 x hx), h3, h4⟩
    exact switched_logInv hr hl.agrees hpath (hi.toCore.congr rfl rfl) hi.bounded hcf hG hw hi'
      hal' (hlow d'.chain hw.run) hfp
  | @restored f item newHead x first second good rest d' e ha hr hsplit hlib hgood hfail hw =>
    have hlt : d.chain.headBlockNumber < newHead.data.blockNum := hr.higher
    have hblocks : blocksOf first = (good ++ [x]).map (·.data) ++ rest.map (·.data) := by
      unfold blocksOf
      rw [hsplit]
      simp
    obtain ⟨-, hcase⟩ := ((hs.2 _ _ ha.push ha.head).2 hr.other hlt).2 first second hr.branches
    obtain ⟨-, hlow, -, hdrop⟩ := hcase.resolve_left (by
      rintro ⟨hg, -⟩
      rw [hblocks] at hg
      exact hfail hg.append_left)
    have hlow' : LibBelow R (d.stateBack second.length) (blocksOf first) d.blockLog.length := by
      rw [hl.agrees.1]
      exact hlow
    -- the log had reached every number, so the failing block did not core-apply
    have hbad : ¬ ChainState.coreRun R (d.stateBack second.length)
        ((good ++ [x]).map (·.data)) ≠ none := by
      intro hrun
      refine hfail ⟨hrun, fun m hm i hi1 hi2 => ?_⟩
      obtain ⟨t, ht⟩ := Option.ne_none_iff_exists'.mp hrun
      have := hlow' m (by
        rw [hblocks, ChainState.advances_append ht]
        exact List.mem_append_left _ hm)
      omega
    have hlog : d'.blockLog = d.blockLog :=
      prefix_eq_of_length hw.log (hw.log_le _ le_rfl hlow')
    obtain ⟨F, hF, -, hFn, -⟩ := hw.head
    refine hl.same hi' hal' hw.chain hlog ?_ ?_
    · intro y hy hgt l h1 h2 h3 hyl
      exact restored_keep hr (hi.toCore.congr rfl rfl) hsplit hgood.1 hbad hlow' hdrop hw h1
        (fun z hz => index_mono ha (h2 z hz)) h3 hyl hgt
    · intro h hh hlt'
      rw [after_error, hF] at hh
      cases hh
      have hFn' : F.num + good.length = d.chain.headBlockNumber := hFn
      omega

/-- In every run of such pushes from a database whose log agrees with its chain, the log holds
exactly the irreversible blocks of the chain. -/
theorem log_agrees_with_chain {d₀ d : Database τ ρ} (hcf : CollisionFree R.hash)
    (ho : Opened R d₀) (h0 : LogAgrees R d₀) (hr : Run R (LogSafe R) d₀ d) : LogAgrees R d := by
  have hstart : LogInv R d₀ := by
    refine ⟨ho.inv, ho.aligned, ⟨⟨[], List.isChain_nil, by simp, by simp, ?_⟩, ?_⟩, h0⟩
    · simpa using ho.logged
    · intro h hh hlt
      rcases ho.aligned.head_le h hh with h1 | h1
      · omega
      · have h2 := ho.inv.forkOk.sound.previous_num (ForkDatabase.head_live hh)
        rw [h1, ho.sane.id_num] at h2
        intro y hy hyid
        -- the started fork database holds the head block's item alone
        have h3 := ho.aligned.index_le
        rcases ho.fork with ⟨-, hf⟩ | ⟨b, -, -, hf⟩
        · rw [hf] at hh
          cases hh
        · have h4 : h = ⟨0, none, b.blockNum, false, b.id R.hash, b⟩ := by
            rw [hf] at hh
            simpa [ForkDatabase.startBlock, ForkDatabase.empty] using hh.symm
          have h5 := h3 h (by rw [hf, h4]; simp [ForkDatabase.startBlock, ForkDatabase.insert,
            ForkDatabase.empty])
          omega
  exact (hr.invariant hstart fun d b hd hb => push_logInv hcf hd hb).agrees

instance (d : Database τ ρ) (first second : List (ForkItem τ)) :
    Decidable (DropsNothing R d first second) :=
  inferInstanceAs (Decidable (∀ m ∈ ChainState.advances R _ _, _ ≤ _))

instance [DecidableEq τ] (d : Database τ ρ) (b : SignedBlock τ) : Decidable (LogSafe R d b) :=
  inferInstanceAs (Decidable (NotStale d b ∧
    ∀ f x, d.forkDb.pushBlock R.hash b = .ok f → f.head = some x →
      ((x.data.previous = d.chain.headBlockId → ChainState.coreRun R d.chain [b] ≠ none ∨
        LibBelow R d.chain [b] d.chain.lastIrreversibleBlockNum) ∧
      (x.data.previous ≠ d.chain.headBlockId → d.chain.headBlockNumber < x.data.blockNum →
        ((f.fetchBranchFrom x.id d.chain.headBlockId).isSome = true ∧ ∀ first second,
          f.fetchBranchFrom x.id d.chain.headBlockId = some (first, second) →
          (second.length ≤ d.store.stack.length ∧
            ((Goes R { f with head := first.getLast? } (heldBy x first second) d.blockLog
                  (d.stateBack second.length) (blocksOf first) ∧
                (∀ t ∈ ChainState.coreRun R (d.stateBack second.length) (blocksOf first),
                  d.chain.lastIrreversibleBlockNum ≤ t.lastIrreversibleBlockNum) ∧
                (d.blockLog.length < (d.stateBack second.length).headBlockNumber →
                  ForkPointStored f first)) ∨
              (¬ ChainState.coreRun R (d.stateBack second.length) (blocksOf first) ≠ none ∧
                LibBelow R (d.stateBack second.length) (blocksOf first)
                  d.chain.lastIrreversibleBlockNum ∧
                (ChainState.coreRun R (d.stateBack second.length)
                  (blocksOf first).dropLast ≠ none → ForkPointStored f second) ∧
                DropsNothing R d first second))))))))

theorem newNode_logAgrees : LogAgrees linkRules newNode :=
  ⟨rfl, by intro n b h; simp [newNode] at h⟩

/-- 51 blocks, a fork of the last two that overtakes them, and a failing block on top of it. -/
theorem log_agrees_with_chain_switch :
    let i := (branchOn BlockId.zero 0 49).foldl (fun _ b => b.id linkDigest) BlockId.zero
    let j := (branchOn i 1 3).foldl (fun _ b => b.id linkDigest) i
    let d := pushAll linkRules newNode
      (branchOn BlockId.zero 0 51 ++ branchOn i 1 3 ++ [blockOn j 9])
    d.blockLog.length = 2 ∧ LogAgrees linkRules d := by
  intro i j d
  have hrun : Run linkRules (LogSafe linkRules) newNode d :=
    Run.start.along _ (by decide +kernel)
  exact ⟨by decide +kernel, log_agrees_with_chain linkDigest_collisionFree newNode_opened
    newNode_logAgrees hrun⟩

/-- A block that fails in its end-of-block steps leaves its mark in the log: block 51 makes
block 1 irreversible and then fails.  The chain is back at block 50 with nothing irreversible,
the log holds block 1. -/
theorem log_disagrees_with_chain :
    ¬ ∀ (R : Rules Nat Unit) (d₀ d : Database Nat Unit), CollisionFree R.hash → Opened R d₀ →
      LogAgrees R d₀ → Run R (fun _ _ => True) d₀ d → LogAgrees R d := by
  intro h
  let i := (branchOn BlockId.zero 0 50).foldl (fun _ b => b.id linkDigest) BlockId.zero
  have hlen := (h linkRules newNode
    (pushAll linkRules newNode (branchOn BlockId.zero 0 50 ++ [blockOn i 7]))
    linkDigest_collisionFree newNode_opened newNode_logAgrees (Run.start.pushes _)).1
  revert hlen
  decide +kernel

end Database

end WeNode.Fork
