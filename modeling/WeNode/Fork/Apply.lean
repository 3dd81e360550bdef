import WeNode.Fork.Database
import WeNode.Fork.Branches

/-!
# One block

Facts about one application of a block: what it does to the consensus state, how far the
irreversible block number can move, what is appended to the block log, and what an undo
session leaves of a block that failed.
-/

namespace WeNode.Fork

open WeNode.Lib

variable {τ ρ : Type} {R : Rules τ ρ}

/-! ### The consensus state -/

/-- What every reachable consensus state keeps: the head number is the one in the head id, and
nothing is irreversible or confirmed above the head. -/
structure Sane (s : ChainState ρ) : Prop where
  id_num : s.headBlockId.num = s.headBlockNumber
  lib_le : s.lastIrreversibleBlockNum ≤ s.headBlockNumber
  early : s.headBlockNumber < startMinerVotingBlock →
    s.lastIrreversibleBlockNum ≤ s.headBlockNumber - maxWitnesses
  confirmed : ∀ w, s.lastConfirmedBlockNum w ≤ s.headBlockNumber

namespace ChainState

theorem newLastIrreversible_bounds {s : ChainState ρ} {n : Nat}
    (hn : s.newLastIrreversible = some n) (hle : s.lastIrreversibleBlockNum ≤ s.headBlockNumber)
    (hearly : s.headBlockNumber < startMinerVotingBlock →
      s.lastIrreversibleBlockNum ≤ s.headBlockNumber - maxWitnesses)
    (hconf : ∀ w, s.lastConfirmedBlockNum w ≤ s.headBlockNumber) :
    s.lastIrreversibleBlockNum ≤ n ∧ n ≤ s.headBlockNumber ∧
      (s.headBlockNumber < startMinerVotingBlock → n ≤ s.headBlockNumber - maxWitnesses) := by
  unfold newLastIrreversible at hn
  split at hn
  · next hlt =>
    have hs := hearly hlt
    cases hn
    split <;> omega
  · next hge =>
    simp only at hn
    split at hn
    · cases hn
    · next m hm =>
      have hmem : m ∈ s.confirmations := List.mem_of_getElem? hm
      have hmle : m ≤ s.headBlockNumber := by
        rw [confirmations, List.mem_mergeSort] at hmem
        obtain ⟨w, -, rfl⟩ := List.mem_map.mp hmem
        exact hconf w
      cases hn
      split <;> omega

/-- The head after `advance`, and what it needs of the head before. -/
theorem advance_head {s m : ChainState ρ} {b : SignedBlock τ} (h : s.advance R b = some m) :
    s.headBlockId = b.previous ∧ m.headBlockNumber = b.blockNum ∧
      m.headBlockId = b.id R.hash := by
  unfold advance at h
  split at h
  · cases h
  · next hprev =>
    split at h
    · cases h
    · split at h
      · cases h
      · next s₁ hs₁ =>
        simp only at h
        split at h
        · cases h
        · cases h
          unfold updateGlobalDynamicData at hs₁
          simp only at hs₁
          split at hs₁
          · cases hs₁
            exact ⟨not_not.mp hprev, rfl, rfl⟩
          · cases hs₁

theorem advance_sane {s m : ChainState ρ} {b : SignedBlock τ} (hs : Sane s)
    (h : s.advance R b = some m) :
    Sane m ∧ s.lastIrreversibleBlockNum ≤ m.lastIrreversibleBlockNum ∧
      m.headBlockNumber = s.headBlockNumber + 1 := by
  obtain ⟨hprev, hnum, hid⟩ := advance_head h
  have hnum' : b.blockNum = s.headBlockNumber + 1 := by
    rw [SignedBlock.blockNum, ← hprev, hs.id_num]
  unfold advance at h
  simp only [hprev, ne_eq, not_true_eq_false, if_false] at h
  split at h
  · cases h
  · split at h
    · cases h
    · next s₁ hs₁ =>
      split at h
      · cases h
      · next n hn =>
        unfold updateGlobalDynamicData at hs₁
        simp only at hs₁
        split at hs₁
        · cases hs₁
          cases h
          have hconf : ∀ w, Function.update s.lastConfirmedBlockNum b.witness b.blockNum w
              ≤ b.blockNum := by
            intro w
            by_cases hw : w = b.witness
            · rw [hw, Function.update_self]
            · rw [Function.update_of_ne hw]
              have := hs.confirmed w
              omega
          have hlib := hs.lib_le
          have hb := newLastIrreversible_bounds hn
            (show s.lastIrreversibleBlockNum ≤ b.blockNum by omega)
            (fun hlt => by
              have he := hs.early (by
                simp only [updateSigningWitness] at hlt
                omega)
              simp only [updateSigningWitness]
              omega) hconf
          simp only [updateSigningWitness] at hb
          exact ⟨⟨rfl, hb.2.1, hb.2.2, hconf⟩, hb.1, hnum'⟩
        · cases hs₁

theorem settle_sane {m : ChainState ρ} (h : Sane m) (r : List AccountName × ρ) :
    Sane (m.settle r) :=
  ⟨h.id_num, h.lib_le, h.early, h.confirmed⟩

/-- A block that applies passes both halves. -/
theorem coreApply_parts {s t : ChainState ρ} {b : SignedBlock τ}
    (h : s.coreApply R b = some t) :
    ∃ m r, s.advance R b = some m ∧ R.finish m b = .ok r ∧ t = m.settle r := by
  unfold coreApply at h
  split at h
  · cases h
  · next m hm =>
    split at h
    · cases h
    · next r hr => exact ⟨m, r, hm, hr, (Option.some.inj h).symm⟩

theorem coreApply_head {s t : ChainState ρ} {b : SignedBlock τ}
    (h : s.coreApply R b = some t) :
    s.headBlockId = b.previous ∧ t.headBlockNumber = b.blockNum ∧
      t.headBlockId = b.id R.hash := by
  obtain ⟨m, r, hm, -, rfl⟩ := coreApply_parts h
  have hh := advance_head hm
  exact ⟨hh.1, hh.2.1, hh.2.2⟩

theorem coreApply_sane {s t : ChainState ρ} {b : SignedBlock τ} (hs : Sane s)
    (h : s.coreApply R b = some t) :
    Sane t ∧ s.lastIrreversibleBlockNum ≤ t.lastIrreversibleBlockNum ∧
      t.headBlockNumber = s.headBlockNumber + 1 := by
  obtain ⟨m, r, hm, -, rfl⟩ := coreApply_parts h
  obtain ⟨h1, h2, h3⟩ := advance_sane hs hm
  exact ⟨settle_sane h1 r, h2, h3⟩

end ChainState

/-- One block on the chain, from a sane state. -/
def Step (R : Rules τ ρ) (p s : ChainState ρ) : Prop := Sane p ∧ ∃ b, p.coreApply R b = some s

/-! ### The block log -/

namespace Database

/-- The log holds block `n + 1` at position `n`. -/
def LogOk (log : List (SignedBlock τ)) : Prop := ∀ n b, log[n]? = some b → b.blockNum = n + 1

theorem logHeadNum_eq {log : List (SignedBlock τ)} (h : LogOk log) :
    logHeadNum log = log.length := by
  unfold logHeadNum
  cases hl : log.getLast? with
  | none => rw [List.getLast?_eq_none_iff.mp hl]; rfl
  | some b =>
    rw [List.getLast?_eq_getElem?] at hl
    have hb := h _ _ hl
    have : 0 < log.length := by
      by_contra h0
      have h0' : log = [] := List.length_eq_zero_iff.mp (by omega)
      simp [h0'] at hl
    simp only
    omega

/-- `log'` is `log` with blocks added that the fork database has at their numbers. -/
def Grown (f : ForkDatabase τ) (held : List (ForkItem τ)) (log log' : List (SignedBlock τ)) :
    Prop :=
  log <+: log' ∧ ∀ n b, log.length ≤ n → log'[n]? = some b →
    ∃ x, f.fetchBlockOnMainBranchByNumber held (n + 1) = some x ∧ x.data = b

theorem Grown.refl (f : ForkDatabase τ) (held : List (ForkItem τ)) (log : List (SignedBlock τ)) :
    Grown f held log log := by
  refine ⟨List.prefix_rfl, fun n b hn hb => ?_⟩
  rw [List.getElem?_eq_none hn] at hb
  cases hb

theorem Grown.snoc {f : ForkDatabase τ} {held : List (ForkItem τ)}
    {log log' : List (SignedBlock τ)} {x : ForkItem τ}
    (hx : f.fetchBlockOnMainBranchByNumber held (log.length + 1) = some x)
    (h : Grown f held (log ++ [x.data]) log') : Grown f held log log' := by
  obtain ⟨hp, hg⟩ := h
  refine ⟨(List.prefix_append _ _).trans hp, fun n b hn hb => ?_⟩
  by_cases he : n = log.length
  · subst he
    obtain ⟨t, rfl⟩ := hp
    rw [List.append_assoc, List.getElem?_append_right (Nat.le_refl _), Nat.sub_self] at hb
    exact ⟨x, hx, by simpa using hb⟩
  · exact hg n b (by simp; omega) hb

theorem Grown.trans {f : ForkDatabase τ} {held : List (ForkItem τ)}
    {a b c : List (SignedBlock τ)} (h₁ : Grown f held a b) (h₂ : Grown f held b c) :
    Grown f held a c := by
  refine ⟨h₁.1.trans h₂.1, fun n x hn hx => ?_⟩
  by_cases hb : b.length ≤ n
  · exact h₂.2 n x hb hx
  · obtain ⟨t, rfl⟩ := h₂.1
    rw [List.getElem?_append_left (by omega)] at hx
    exact h₁.2 n x hn hx

theorem Grown.congr {f g : ForkDatabase τ} {held : List (ForkItem τ)}
    {log log' : List (SignedBlock τ)} (h : Grown f held log log')
    (hfg : ∀ k, log.length < k →
      f.fetchBlockOnMainBranchByNumber held k = g.fetchBlockOnMainBranchByNumber held k) :
    Grown g held log log' := by
  refine ⟨h.1, fun n b hn hb => ?_⟩
  rw [← hfg (n + 1) (by omega)]
  exact h.2 n b hn hb

theorem LogOk.snoc {log : List (SignedBlock τ)} (h : LogOk log) {b : SignedBlock τ}
    (hb : log.length + 1 = b.blockNum) : LogOk (log ++ [b]) := by
  intro n x hx
  by_cases hn : n < log.length
  · rw [List.getElem?_append_left hn] at hx
    exact h n x hx
  · rw [List.getElem?_append_right (by omega)] at hx
    have h0 : n - log.length = 0 := by
      by_contra h0
      rw [List.getElem?_eq_none (by simp; omega)] at hx
      cases hx
    rw [h0] at hx
    have : b = x := by simpa using hx
    rw [← this, ← hb]
    omega

theorem appendBlocks_ok {f : ForkDatabase τ} {held : List (ForkItem τ)} :
    ∀ (k : Nat) (log log' : List (SignedBlock τ)), LogOk log →
      appendBlocks f held k log.length log = .ok log' →
      Grown f held log log' ∧ LogOk log' ∧ log'.length = log.length + k
  | 0, log, log', hl, h => by
    cases h
    exact ⟨.refl _ _ _, hl, rfl⟩
  | k + 1, log, log', hl, h => by
    rw [appendBlocks] at h
    split at h
    · cases h
    · next x hx =>
      split at h
      · next hn =>
        rw [show log.length + 1 = (log ++ [x.data]).length by simp] at h
        obtain ⟨h1, h2, h3⟩ := appendBlocks_ok k _ _ (hl.snoc hn) h
        exact ⟨h1.snoc hx, h2, by rw [h3]; simp; omega⟩
      · cases h

theorem appendBlocks_error {f : ForkDatabase τ} {held : List (ForkItem τ)} :
    ∀ (k : Nat) (log log' : List (SignedBlock τ)) (e : DbError), LogOk log →
      appendBlocks f held k log.length log = .error (e, log') →
      Grown f held log log' ∧ LogOk log' ∧ log'.length < log.length + k
  | 0, log, log', e, hl, h => by cases h
  | k + 1, log, log', e, hl, h => by
    rw [appendBlocks] at h
    split at h
    · cases h
      exact ⟨.refl _ _ _, hl, by omega⟩
    · next x hx =>
      split at h
      · next hn =>
        rw [show log.length + 1 = (log ++ [x.data]).length by simp] at h
        obtain ⟨h1, h2, h3⟩ := appendBlocks_error k _ _ _ (hl.snoc hn) h
        refine ⟨h1.snoc hx, h2, ?_⟩
        simp only [List.length_append, List.length_singleton] at h3
        omega
      · cases h
        exact ⟨.refl _ _ _, hl, by omega⟩

/-- Appending goes through when the fork database has every number asked for. -/
theorem appendBlocks_total {f : ForkDatabase τ} {held : List (ForkItem τ)}
    {S : ForkItem τ → Prop} {n : Nat} (hS : Sound R.hash S n) (hl : ∀ x ∈ f.live held, S x) :
    ∀ (k : Nat) (log : List (SignedBlock τ)),
      (∀ i, log.length < i → i ≤ log.length + k →
        f.fetchBlockOnMainBranchByNumber held i ≠ none) →
      ∃ log', appendBlocks f held k log.length log = .ok log'
  | 0, log, _ => ⟨log, rfl⟩
  | k + 1, log, h => by
    cases hx : f.fetchBlockOnMainBranchByNumber held (log.length + 1) with
    | none => exact absurd hx (h _ (by omega) (by omega))
    | some x =>
      obtain ⟨hn, hxl⟩ := ForkDatabase.fetchBlockOnMainBranchByNumber_spec hS hl hx
      have hb : log.length + 1 = x.data.blockNum := by rw [← hS.num_eq (hl x hxl), hn]
      obtain ⟨log', hlog⟩ := appendBlocks_total hS hl k (log ++ [x.data]) (by
        intro i h1 h2
        simp only [List.length_append, List.length_singleton] at h1 h2
        exact h i (by omega) (by omega))
      refine ⟨log', ?_⟩
      rw [appendBlocks, hx]
      simp only [hb, if_true]
      rw [← hlog, ← hb]
      simp

/-! ### A block in its undo session -/

/-- A block that was applied. -/
structure Applied (R : Rules τ ρ) (held : List (ForkItem τ)) (d : Database τ ρ)
    (b : SignedBlock τ) (d' : Database τ ρ) : Prop where
  core : d.chain.coreApply R b = some d'.chain
  store : d'.store =
    (d.store.startSession.modify d'.chain).commit d'.chain.lastIrreversibleBlockNum
  fork : d'.forkDb = d.forkDb.setMaxSize
    (d'.chain.headBlockNumber - d'.chain.lastIrreversibleBlockNum + 1)
  grown : Grown d.forkDb held d.blockLog d'.blockLog
  logOk : LogOk d'.blockLog
  length : d'.blockLog.length = max d.blockLog.length d'.chain.lastIrreversibleBlockNum

theorem persist_ok {held : List (ForkItem τ)} {d d' : Database τ ρ} {m : ChainState ρ}
    (h : persist held d m = .ok d') (hl : LogOk d.blockLog) :
    d'.store = (d.store.modify m).commit m.lastIrreversibleBlockNum ∧
      d'.forkDb = d.forkDb.setMaxSize (m.headBlockNumber - m.lastIrreversibleBlockNum + 1) ∧
      Grown d.forkDb held d.blockLog d'.blockLog ∧ LogOk d'.blockLog ∧
      d'.blockLog.length = max d.blockLog.length m.lastIrreversibleBlockNum := by
  unfold persist at h
  simp only [logHeadNum_eq hl] at h
  split at h
  · cases h
  · next log hlog =>
    cases h
    obtain ⟨h1, h2, h3⟩ := appendBlocks_ok _ _ _ hl hlog
    exact ⟨rfl, rfl, h1, h2, by simp only; omega⟩

theorem persist_error {held : List (ForkItem τ)} {d d' : Database τ ρ} {m : ChainState ρ}
    {e : DbError} (h : persist held d m = .error (e, d')) (hl : LogOk d.blockLog) :
    d'.store = (d.store.modify m).commit m.lastIrreversibleBlockNum ∧ d'.forkDb = d.forkDb ∧
      Grown d.forkDb held d.blockLog d'.blockLog ∧ LogOk d'.blockLog ∧
      d'.blockLog.length ≤ max d.blockLog.length m.lastIrreversibleBlockNum := by
  unfold persist at h
  simp only [logHeadNum_eq hl] at h
  split at h
  · next e' log hlog =>
    cases h
    obtain ⟨h1, h2, h3⟩ := appendBlocks_error _ _ _ _ hl hlog
    exact ⟨rfl, rfl, h1, h2, by simp only; omega⟩
  · cases h

theorem applySession_ok {held : List (ForkItem τ)} {d d' : Database τ ρ} {b : SignedBlock τ}
    (hl : LogOk d.blockLog) (h : applySession R held d b = .ok d') : Applied R held d b d' := by
  unfold applySession at h
  split at h
  · next d₁ hd₁ =>
    cases h
    unfold applyBlock at hd₁
    split at hd₁
    · cases hd₁
    · next m hm =>
      split at hd₁
      · cases hd₁
      · next d₂ hp =>
        split at hd₁
        · cases hd₁
        · next r hr =>
          cases hd₁
          obtain ⟨h1, h2, h3, h4, h5⟩ := persist_ok hp hl
          have hm' : d.chain.advance R b = some m := hm
          refine ⟨?_, ?_, h2, h3, h4, h5⟩
          · simp only [ChainState.coreApply, hm', hr]
            rfl
          · simp only [h1]
            rfl
  · cases h

/-- A block that failed: nothing happened, or the irreversible number `m` gives was acted on
and the session was undone. -/
structure Failed (R : Rules τ ρ) (held : List (ForkItem τ)) (d : Database τ ρ)
    (m : ChainState ρ) (d' : Database τ ρ) : Prop where
  store : m.lastIrreversibleBlockNum ≤ d.store.revision →
    d'.store = d.store.commit m.lastIrreversibleBlockNum
  fork : d'.forkDb = d.forkDb ∨ d'.forkDb = d.forkDb.setMaxSize
    (m.headBlockNumber - m.lastIrreversibleBlockNum + 1)
  grown : Grown d.forkDb held d.blockLog d'.blockLog
  logOk : LogOk d'.blockLog
  length : d'.blockLog.length ≤ max d.blockLog.length m.lastIrreversibleBlockNum

theorem applySession_error {held : List (ForkItem τ)} {d d' : Database τ ρ} {b : SignedBlock τ}
    {e : DbError} (hl : LogOk d.blockLog) (h : applySession R held d b = .error (e, d')) :
    (d.chain.advance R b = none ∧ d' = d) ∨
      ∃ m, d.chain.advance R b = some m ∧ Failed R held d m d' := by
  unfold applySession at h
  split at h
  · cases h
  · next e₁ d₁ hd₁ =>
    cases h
    unfold applyBlock at hd₁
    split at hd₁
    · next hm =>
      cases hd₁
      exact .inl ⟨hm, rfl⟩
    · next m hm =>
      refine .inr ⟨m, hm, ?_⟩
      split at hd₁
      · next e₂ hp =>
        cases hd₁
        obtain ⟨h1, h2, h3, h4, h5⟩ := persist_error hp hl
        refine ⟨fun hr => ?_, .inl h2, h3, h4, h5⟩
        simp only [h1]
        exact Versioned.undo_commit_session _ _ _ hr
      · next d₂ hp =>
        obtain ⟨h1, h2, h3, h4, h5⟩ := persist_ok hp hl
        split at hd₁
        · cases hd₁
          refine ⟨fun hr => ?_, .inr h2, h3, h4, h5.le⟩
          simp only [h1]
          exact Versioned.undo_commit_session d.store (m.settle _) _ hr
        · cases hd₁

/-- A block that core-applies is applied when the log can follow. -/
theorem applySession_goes (held : List (ForkItem τ)) {d : Database τ ρ} {b : SignedBlock τ}
    {t : ChainState ρ} {S : ForkItem τ → Prop} {n : Nat} (hS : Sound R.hash S n)
    (hlive : ∀ x ∈ d.forkDb.live held, S x) (hl : LogOk d.blockLog)
    (hcore : d.chain.coreApply R b = some t)
    (hready : ∀ i, d.blockLog.length < i → i ≤ t.lastIrreversibleBlockNum →
      d.forkDb.fetchBlockOnMainBranchByNumber held i ≠ none) :
    ∃ d', applySession R held d b = .ok d' ∧ d'.chain = t := by
  obtain ⟨m, r, hm, hr, rfl⟩ := ChainState.coreApply_parts hcore
  obtain ⟨log', hlog⟩ := appendBlocks_total (R := R) hS hlive
    (m.lastIrreversibleBlockNum - d.blockLog.length) d.blockLog (by
      intro i h1 h2
      exact hready i h1 (by simp only [ChainState.settle]; omega))
  have hm' : ({ d with store := d.store.startSession } : Database τ ρ).chain.advance R b = some m :=
    hm
  simp only [applySession, applyBlock, hm', persist, logHeadNum_eq hl, hlog, hr]
  exact ⟨_, rfl, rfl⟩

end Database

end WeNode.Fork
