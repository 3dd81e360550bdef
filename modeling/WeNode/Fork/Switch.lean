import WeNode.Fork.Apply

/-!
# Walking back and forth along branches

The loops of a fork switch (database.cpp:563-618): popping the blocks of one branch, applying
the items of another, and applying the popped ones again.
-/

namespace WeNode.Fork

open WeNode.Lib

variable {τ ρ : Type} {R : Rules τ ρ}

/-! ### Runs of the consensus state -/

namespace ChainState

/-- Core-apply a list of blocks. -/
def coreRun (R : Rules τ ρ) : ChainState ρ → List (SignedBlock τ) → Option (ChainState ρ)
  | s, [] => some s
  | s, b :: bs =>
    match s.coreApply R b with
    | none => none
    | some t => coreRun R t bs

/-- The consensus states in which the irreversible block number is acted upon while the blocks
are applied one after the other, up to the first that fails. -/
def advances (R : Rules τ ρ) : ChainState ρ → List (SignedBlock τ) → List (ChainState ρ)
  | _, [] => []
  | s, b :: bs =>
    match s.advance R b with
    | none => []
    | some m =>
      match s.coreApply R b with
      | none => [m]
      | some t => m :: advances R t bs

/-- How many of the blocks core-apply before one fails. -/
def coreCount (R : Rules τ ρ) : ChainState ρ → List (SignedBlock τ) → Nat
  | _, [] => 0
  | s, b :: bs =>
    match s.coreApply R b with
    | none => 0
    | some t => coreCount R t bs + 1

theorem coreRun_append {s : ChainState ρ} {bs cs : List (SignedBlock τ)} :
    coreRun R s (bs ++ cs) = (coreRun R s bs).bind (fun t => coreRun R t cs) := by
  induction bs generalizing s with
  | nil => rfl
  | cons b bs ih =>
    simp only [List.cons_append, coreRun]
    split
    · rfl
    · exact ih

theorem advances_cons (bs : List (SignedBlock τ)) {s t : ChainState ρ} {b : SignedBlock τ}
    (h : s.coreApply R b = some t) :
    ∃ m, s.advance R b = some m ∧ m.lastIrreversibleBlockNum = t.lastIrreversibleBlockNum ∧
      m.headBlockNumber = t.headBlockNumber ∧ advances R s (b :: bs) = m :: advances R t bs := by
  obtain ⟨m, r, hm, hr, rfl⟩ := coreApply_parts h
  refine ⟨m, hm, rfl, rfl, ?_⟩
  simp only [advances, hm, h]

theorem coreRun_next {s t : ChainState ρ} {b : SignedBlock τ} {bs : List (SignedBlock τ)}
    (h : coreRun R s (b :: bs) = some t) :
    ∃ u, s.coreApply R b = some u ∧ coreRun R u bs = some t := by
  simp only [coreRun] at h
  split at h
  · cases h
  · next u hu => exact ⟨u, hu, h⟩

theorem advances_append {s t : ChainState ρ} {bs cs : List (SignedBlock τ)}
    (h : coreRun R s bs = some t) :
    advances R s (bs ++ cs) = advances R s bs ++ advances R t cs := by
  induction bs generalizing s with
  | nil =>
    cases h
    rfl
  | cons b bs ih =>
    obtain ⟨u, hu, h⟩ := coreRun_next h
    obtain ⟨m, hm, -, -, -⟩ := advances_cons bs hu
    simp only [List.cons_append, advances, hm, hu, ih h]

theorem coreCount_append {s t : ChainState ρ} {bs cs : List (SignedBlock τ)}
    (h : coreRun R s bs = some t) :
    coreCount R s (bs ++ cs) = bs.length + coreCount R t cs := by
  induction bs generalizing s with
  | nil =>
    cases h
    simp
  | cons b bs ih =>
    obtain ⟨u, hu, h⟩ := coreRun_next h
    simp only [List.cons_append, coreCount, hu, ih h, List.length_cons]
    omega

theorem coreRun_sane {s t : ChainState ρ} {bs : List (SignedBlock τ)} (hs : Sane s)
    (h : coreRun R s bs = some t) :
    Sane t ∧ s.lastIrreversibleBlockNum ≤ t.lastIrreversibleBlockNum ∧
      t.headBlockNumber = s.headBlockNumber + bs.length := by
  induction bs generalizing s with
  | nil =>
    cases h
    exact ⟨hs, le_rfl, rfl⟩
  | cons b bs ih =>
    obtain ⟨u, hu, h⟩ := coreRun_next h
    obtain ⟨h1, h2, h3⟩ := coreApply_sane hs hu
    obtain ⟨h4, h5, h6⟩ := ih h1 h
    exact ⟨h4, h2.trans h5, by rw [h6, h3, List.length_cons]; omega⟩

end ChainState

/-! ### What holds between blocks -/

namespace Database

/-- The undo stack records the chain, and the log has caught up with every state on it. -/
structure Core (R : Rules τ ρ) (d : Database τ ρ) : Prop where
  records : d.store.Records (Step R)
  revision : d.store.revision = d.chain.headBlockNumber
  sane : Sane d.chain
  logOk : LogOk d.blockLog
  logged : d.chain.lastIrreversibleBlockNum ≤ d.blockLog.length
  savedLogged : ∀ e ∈ d.store.stack, e.state.lastIrreversibleBlockNum ≤ d.blockLog.length

/-- No saved state is irreversible. -/
def Bounded (d : Database τ ρ) : Prop :=
  d.chain.lastIrreversibleBlockNum + d.store.stack.length ≤ d.store.revision

theorem Applied.grow {held : List (ForkItem τ)} {d d' : Database τ ρ} {b : SignedBlock τ}
    (h : Applied R held d b d') : d.blockLog.length ≤ d'.blockLog.length := h.grown.1.length_le

theorem Applied.core_step {held : List (ForkItem τ)} {d d' : Database τ ρ} {b : SignedBlock τ}
    (hc : Core R d) (h : Applied R held d b d') : Core R d' ∧ Bounded d' := by
  obtain ⟨hs, -, hn⟩ := ChainState.coreApply_sane hc.sane h.core
  have hrec : (d.store.startSession.modify d'.chain).Records (Step R) :=
    hc.records.startSession ⟨hc.sane, b, h.core⟩
  have hrev : d'.store.revision = d'.chain.headBlockNumber := by
    rw [h.store, hn, ← hc.revision]
    rfl
  have hlen := h.length
  refine ⟨⟨?_, hrev, hs, h.logOk, by omega, ?_⟩, ?_⟩
  · rw [h.store]
    exact hrec.commit _
  · intro e he
    rw [h.store] at he
    have he' : e ∈ (d.store.startSession.modify d'.chain).stack :=
      (Versioned.keepAbove_suffix _ _).subset he
    rcases List.mem_cons.mp he' with rfl | he'
    · exact hc.logged.trans h.grow
    · exact (hc.savedLogged e he').trans h.grow
  · unfold Bounded
    have hl := hrec.commit_length d'.chain.lastIrreversibleBlockNum
    rw [← h.store] at hl
    have hr' : (d.store.startSession.modify d'.chain).revision = d'.store.revision := by
      rw [h.store]
      rfl
    rw [hr'] at hl
    have := hs.lib_le
    omega

theorem commit_core {d d' : Database τ ρ} {r : Nat} (hc : Core R d)
    (hs : d'.store = d.store.commit r) (hl : LogOk d'.blockLog)
    (hp : d.blockLog <+: d'.blockLog) :
    Core R d' ∧ d'.chain = d.chain ∧ (Bounded d → Bounded d') := by
  have hch : d'.chain = d.chain := by
    unfold chain
    rw [hs]
    rfl
  refine ⟨⟨?_, ?_, by rw [hch]; exact hc.sane, hl, ?_, ?_⟩, hch, ?_⟩
  · rw [hs]
    exact hc.records.commit r
  · rw [hs, hch]
    exact hc.revision
  · rw [hch]
    exact hc.logged.trans hp.length_le
  · intro e he
    rw [hs] at he
    exact (hc.savedLogged e ((Versioned.keepAbove_suffix _ _).subset he)).trans hp.length_le
  · unfold Bounded
    intro hb
    have := (Versioned.keepAbove_suffix r d.store.stack).length_le
    rw [hch, hs]
    simp only [Versioned.commit] at this ⊢
    omega

/-- `f'` is `f` with items numbered below `T` dropped, perhaps not all of them. -/
structure Trimmed (f f' : ForkDatabase τ) (T : Nat) : Prop where
  head : f'.head = f.head
  nextPtr : f'.nextPtr = f.nextPtr
  sub : ∀ x ∈ f'.index, x ∈ f.index
  keep : ∀ x ∈ f.index, T ≤ x.num → x ∈ f'.index

theorem Trimmed.refl (f : ForkDatabase τ) (T : Nat) : Trimmed f f T :=
  ⟨rfl, rfl, fun _ h => h, fun _ h _ => h⟩

theorem Trimmed.trans {f g h : ForkDatabase τ} {T : Nat} (h₁ : Trimmed f g T)
    (h₂ : Trimmed g h T) : Trimmed f h T :=
  ⟨h₂.head.trans h₁.head, h₂.nextPtr.trans h₁.nextPtr, fun x hx => h₁.sub x (h₂.sub x hx),
    fun x hx hT => h₂.keep x (h₁.keep x hx hT) hT⟩

theorem Trimmed.mono {f g : ForkDatabase τ} {T T' : Nat} (h : Trimmed f g T) (hT : T ≤ T') :
    Trimmed f g T' :=
  ⟨h.head, h.nextPtr, h.sub, fun x hx hx' => h.keep x hx (hT.trans hx')⟩

theorem Trimmed.live {f g : ForkDatabase τ} {T : Nat} (h : Trimmed f g T)
    {held : List (ForkItem τ)} {x : ForkItem τ} (hx : x ∈ g.live held) : x ∈ f.live held := by
  rw [ForkDatabase.mem_live, h.head] at hx
  rw [ForkDatabase.mem_live]
  exact hx.imp_left (h.sub x)

theorem setMaxSize_trimmed {f : ForkDatabase τ} {F : ForkItem τ} (hF : f.head = some F) (s : Nat)
    {T : Nat} (hT : F.num - s ≤ T) : Trimmed f (f.setMaxSize s) T where
  head := f.setMaxSize_head s
  nextPtr := f.setMaxSize_nextPtr s
  sub x hx := (ForkDatabase.mem_setMaxSize.mp hx).1
  keep x hx hx' := ForkDatabase.mem_setMaxSize.mpr ⟨hx, fun h hh => by
    rw [hF] at hh
    cases hh
    omega⟩

/-- The number below which `set_max_size` drops items when the irreversible block number of
`m` is acted upon and the fork database's head is at height `h`. -/
def threshold (h : Nat) (m : ChainState ρ) : Nat :=
  h - (m.headBlockNumber - m.lastIrreversibleBlockNum + 1)

/-! ### Applying the items of a branch -/

theorem applyItems_error_split {held : List (ForkItem τ)} {xs : List (ForkItem τ)}
    {d d' : Database τ ρ} {e : DbError} {bad : List (ForkItem τ)}
    (h : applyItems R held xs d = .error (e, d', bad)) :
    ∃ good x rest d₁, xs = good ++ x :: rest ∧ bad = x :: rest ∧
      applyItems R held good d = .ok d₁ ∧ applySession R held d₁ x.data = .error (e, d') := by
  induction xs generalizing d with
  | nil => cases h
  | cons x xs ih =>
    simp only [applyItems] at h
    split at h
    · next e' d₂ hx =>
      cases h
      exact ⟨[], x, xs, d, rfl, rfl, rfl, hx⟩
    · next d₂ hx =>
      obtain ⟨good, y, rest, d₁, rfl, hbad, hgood, hy⟩ := ih h
      refine ⟨x :: good, y, rest, d₁, rfl, hbad, ?_, hy⟩
      simp only [applyItems, hx, hgood]

/-- The first item of a branch that was applied, and the rest of it. -/
theorem applyItems_next {held : List (ForkItem τ)} {x : ForkItem τ} {xs : List (ForkItem τ)}
    {d d' : Database τ ρ} (hc : Core R d) (h : applyItems R held (x :: xs) d = .ok d') :
    ∃ d₁, Applied R held d x.data d₁ ∧ applyItems R held xs d₁ = .ok d' := by
  simp only [applyItems] at h
  split at h
  · cases h
  · next d₁ hx => exact ⟨d₁, applySession_ok hc.logOk hx, h⟩

theorem applyItems_core {held : List (ForkItem τ)} {xs : List (ForkItem τ)}
    {d d' : Database τ ρ} (hc : Core R d) (h : applyItems R held xs d = .ok d') :
    Core R d' ∧ (xs ≠ [] → Bounded d') ∧
      ChainState.coreRun R d.chain (xs.map (·.data)) = some d'.chain ∧
      d.blockLog <+: d'.blockLog := by
  induction xs generalizing d with
  | nil =>
    cases h
    exact ⟨hc, fun hn => absurd rfl hn, rfl, List.prefix_rfl⟩
  | cons x xs ih =>
    obtain ⟨d₁, ha, h⟩ := applyItems_next hc h
    obtain ⟨hc₁, hb₁⟩ := ha.core_step hc
    obtain ⟨h1, h2, h3, h4⟩ := ih hc₁ h
    refine ⟨h1, fun _ => ?_, ?_, ha.grown.1.trans h4⟩
    · cases xs with
      | nil =>
        cases h
        exact hb₁
      | cons y ys => exact h2 (by simp)
    · simp only [List.map_cons, ChainState.coreRun, ha.core, h3]

theorem applyItems_log_le {held : List (ForkItem τ)} {xs : List (ForkItem τ)}
    {d d' : Database τ ρ} (hc : Core R d) (h : applyItems R held xs d = .ok d') {L : Nat}
    (hL : d.blockLog.length ≤ L)
    (hm : ∀ m ∈ ChainState.advances R d.chain (xs.map (·.data)), m.lastIrreversibleBlockNum ≤ L) :
    d'.blockLog.length ≤ L := by
  induction xs generalizing d with
  | nil =>
    cases h
    exact hL
  | cons x xs ih =>
    obtain ⟨d₁, ha, h⟩ := applyItems_next hc h
    obtain ⟨m, -, hlib, -, hadv⟩ := ChainState.advances_cons (xs.map (·.data)) ha.core
    rw [List.map_cons, hadv] at hm
    refine ih (ha.core_step hc).1 h ?_ fun m' hm' => hm m' (List.mem_cons_of_mem _ hm')
    have := hm m (List.mem_cons_self ..)
    have := ha.length
    omega

theorem applyItems_trimmed {held : List (ForkItem τ)} {xs : List (ForkItem τ)}
    {d d' : Database τ ρ} (hc : Core R d) (h : applyItems R held xs d = .ok d') {F : ForkItem τ}
    (hF : d.forkDb.head = some F) {T : Nat}
    (hT : ∀ m ∈ ChainState.advances R d.chain (xs.map (·.data)), threshold F.num m ≤ T) :
    Trimmed d.forkDb d'.forkDb T := by
  induction xs generalizing d with
  | nil =>
    cases h
    exact .refl _ _
  | cons x xs ih =>
    obtain ⟨d₁, ha, h⟩ := applyItems_next hc h
    obtain ⟨m, -, hlib, hnum, hadv⟩ := ChainState.advances_cons (xs.map (·.data)) ha.core
    rw [List.map_cons, hadv] at hT
    have ht := hT m (List.mem_cons_self ..)
    unfold threshold at ht
    rw [hlib, hnum] at ht
    have h1 : Trimmed d.forkDb d₁.forkDb T := by
      rw [ha.fork]
      exact setMaxSize_trimmed hF _ ht
    exact h1.trans (ih (ha.core_step hc).1 h (by rw [h1.head, hF])
      fun m' hm' => hT m' (List.mem_cons_of_mem _ hm'))

/-- The undo stack after a branch was applied without making anything above `r`
irreversible: one session for each item, the oldest holding the state before. -/
theorem applyItems_stack {held : List (ForkItem τ)} {xs : List (ForkItem τ)}
    {d d' : Database τ ρ} (hc : Core R d) (h : applyItems R held xs d = .ok d') {r : Nat}
    (hr : r ≤ d.store.revision)
    (hm : ∀ m ∈ ChainState.advances R d.chain (xs.map (·.data)), m.lastIrreversibleBlockNum ≤ r)
    (hfull : d.store.revision - r ≤ d.store.stack.length) :
    d'.store.revision = d.store.revision + xs.length ∧
      d'.store.revision - r ≤ d'.store.stack.length ∧
      ∃ top low, d'.store.stack = top ++ low ∧ top.length = xs.length ∧
        low <+: d.store.stack ∧ (∀ e, top.getLast? = some e → e.state = d.chain) ∧
        (top = [] → d'.chain = d.chain) := by
  induction xs generalizing d with
  | nil =>
    cases h
    exact ⟨rfl, hfull, [], _, rfl, rfl, List.prefix_rfl, by simp, fun _ => rfl⟩
  | cons x xs ih =>
    obtain ⟨d₁, ha, h⟩ := applyItems_next hc h
    obtain ⟨m, -, hlib, -, hadv⟩ := ChainState.advances_cons (xs.map (·.data)) ha.core
    rw [List.map_cons, hadv] at hm
    have hmr := hm m (List.mem_cons_self ..)
    rw [hlib] at hmr
    have hrev₁ : d₁.store.revision = d.store.revision + 1 := by rw [ha.store]; rfl
    have hstack₁ : d₁.store.stack = ⟨d.store.revision + 1, d.chain⟩ ::
        Versioned.keepAbove d₁.chain.lastIrreversibleBlockNum d.store.stack := by
      rw [ha.store]
      exact Versioned.keepAbove_cons _ _ _ (by simp only; omega)
    have hlen := hc.records.commit_length d₁.chain.lastIrreversibleBlockNum
    simp only [Versioned.commit] at hlen
    obtain ⟨h1, h2, top, low, h3, h4, h5, h6, h7⟩ := ih (ha.core_step hc).1 h (by omega)
      (fun m' hm' => hm m' (List.mem_cons_of_mem _ hm')) (by
        rw [hrev₁, hstack₁, List.length_cons, hlen]
        omega)
    have hlow : low ≠ [] := by
      intro hl
      rw [h3, hl, List.append_nil] at h2
      omega
    obtain ⟨e, low', rfl⟩ := List.exists_cons_of_ne_nil hlow
    rw [hstack₁] at h5
    obtain ⟨he, hlow'⟩ := List.cons_prefix_cons.mp h5
    refine ⟨by rw [h1, hrev₁, List.length_cons]; omega, h2, top ++ [e], low', by simp [h3],
      by simp [h4], hlow'.trans (Versioned.keepAbove_suffix _ _), ?_, by simp⟩
    intro e' he'
    simp only [List.getLast?_append, List.getLast?_singleton, Option.some_or,
      Option.some.injEq] at he'
    rw [← he', he]

/-- Every saved state was saved before, or lies on the branch that was applied. -/
theorem applyItems_saved {held : List (ForkItem τ)} {xs : List (ForkItem τ)}
    {d d' : Database τ ρ} (hc : Core R d) (h : applyItems R held xs d = .ok d') :
    ∀ e ∈ d'.store.stack, e ∈ d.store.stack ∨
      ∃ bs, bs <+: xs.map (·.data) ∧ ChainState.coreRun R d.chain bs = some e.state := by
  induction xs generalizing d with
  | nil =>
    cases h
    exact fun e he => .inl he
  | cons x xs ih =>
    obtain ⟨d₁, ha, h⟩ := applyItems_next hc h
    intro e he
    rcases ih (ha.core_step hc).1 h e he with he | ⟨bs, hbs, hrun⟩
    · rw [ha.store] at he
      have he' : e ∈ (d.store.startSession.modify d₁.chain).stack :=
        (Versioned.keepAbove_suffix _ _).subset he
      rcases List.mem_cons.mp he' with rfl | he'
      · exact .inr ⟨[], List.nil_prefix, rfl⟩
      · exact .inl he'
    · refine .inr ⟨x.data :: bs, ?_, by simp only [ChainState.coreRun, ha.core, hrun]⟩
      rw [List.map_cons]
      exact List.cons_prefix_cons.mpr ⟨rfl, hbs⟩

/-- The log can follow: every number the irreversible block number reaches is on the fork
database's main branch or the only one of its height there. -/
def LogReady (f : ForkDatabase τ) (held : List (ForkItem τ)) (log : List (SignedBlock τ))
    (ms : List (ChainState ρ)) : Prop :=
  ∀ m ∈ ms, ∀ i, log.length < i → i ≤ m.lastIrreversibleBlockNum →
    f.fetchBlockOnMainBranchByNumber held i ≠ none

/-- Items that `set_max_size` drops after a block are below what the log still needs, as long
as the fork database's head is not above the chain's. -/
theorem Applied.fetch_eq {held : List (ForkItem τ)} {d d' : Database τ ρ} {b : SignedBlock τ}
    (ha : Applied R held d b d') {S : ForkItem τ → Prop} {n : Nat} (hS : Sound R.hash S n)
    (hlive : ∀ x ∈ d.forkDb.live held, S x) {F : ForkItem τ} (hF : d.forkDb.head = some F)
    (hle : F.num ≤ d'.chain.headBlockNumber) {k : Nat} (hk : d'.blockLog.length < k) :
    d'.forkDb.fetchBlockOnMainBranchByNumber held k =
      d.forkDb.fetchBlockOnMainBranchByNumber held k := by
  have hlen := ha.length
  rw [ha.fork]
  refine ForkDatabase.fetchBlockOnMainBranchByNumber_setMaxSize hS hlive fun h hh => ?_
  rw [hF] at hh
  cases hh
  omega

theorem Applied.live_sub {held : List (ForkItem τ)} {d d' : Database τ ρ} {b : SignedBlock τ}
    (ha : Applied R held d b d') {x : ForkItem τ} (hx : x ∈ d'.forkDb.live held) :
    x ∈ d.forkDb.live held := by
  rw [ha.fork] at hx
  exact ForkDatabase.setMaxSize_live hx

theorem applyItems_grown {held : List (ForkItem τ)} {xs : List (ForkItem τ)}
    {d d' : Database τ ρ} (hc : Core R d) (h : applyItems R held xs d = .ok d')
    {S : ForkItem τ → Prop} {n : Nat} (hS : Sound R.hash S n)
    (hlive : ∀ x ∈ d.forkDb.live held, S x) {F : ForkItem τ} (hF : d.forkDb.head = some F)
    (hle : F.num ≤ d.chain.headBlockNumber + 1) :
    Grown d.forkDb held d.blockLog d'.blockLog := by
  induction xs generalizing d with
  | nil =>
    cases h
    exact .refl _ _ _
  | cons x xs ih =>
    obtain ⟨d₁, ha, h⟩ := applyItems_next hc h
    have hnum := (ChainState.coreApply_sane hc.sane ha.core).2.2
    have hF₁ : d₁.forkDb.head = some F := by rw [ha.fork, ForkDatabase.setMaxSize_head, hF]
    have hg := ih (ha.core_step hc).1 h (fun y hy => hlive y (ha.live_sub hy)) hF₁ (by omega)
    exact ha.grown.trans (hg.congr fun k hk => ha.fetch_eq hS hlive hF (by omega) hk)

/-- A branch that core-applies is applied when the log can follow. -/
theorem applyItems_goes (held xs : List (ForkItem τ)) {d : Database τ ρ}
    {t : ChainState ρ} (hc : Core R d)
    (hrun : ChainState.coreRun R d.chain (xs.map (·.data)) = some t)
    {S : ForkItem τ → Prop} {n : Nat} (hS : Sound R.hash S n)
    (hlive : ∀ x ∈ d.forkDb.live held, S x) {F : ForkItem τ} (hF : d.forkDb.head = some F)
    (hle : F.num ≤ d.chain.headBlockNumber + 1)
    (hready : LogReady d.forkDb held d.blockLog
      (ChainState.advances R d.chain (xs.map (·.data)))) :
    ∃ d', applyItems R held xs d = .ok d' ∧ d'.chain = t := by
  induction xs generalizing d with
  | nil =>
    cases hrun
    exact ⟨d, rfl, rfl⟩
  | cons x xs ih =>
    obtain ⟨u, hu, hrun⟩ := ChainState.coreRun_next hrun
    obtain ⟨m, -, hlib, -, hadv⟩ := ChainState.advances_cons (xs.map (·.data)) hu
    rw [List.map_cons, hadv] at hready
    obtain ⟨d₁, hx, rfl⟩ := applySession_goes held hS hlive hc.logOk hu (by
      intro i h1 h2
      rw [← hlib] at h2
      exact hready m (List.mem_cons_self ..) i h1 h2)
    have ha := applySession_ok hc.logOk hx
    have hnum := (ChainState.coreApply_sane hc.sane ha.core).2.2
    have hF₁ : d₁.forkDb.head = some F := by rw [ha.fork, ForkDatabase.setMaxSize_head, hF]
    obtain ⟨d', hd', ht⟩ := ih (ha.core_step hc).1 hrun (fun y hy => hlive y (ha.live_sub hy))
      hF₁ (by omega) (by
        intro m' hm' i h1 h2
        rw [ha.fetch_eq hS hlive hF (by omega) h1]
        exact hready m' (List.mem_cons_of_mem _ hm') i (ha.grow.trans_lt h1) h2)
    exact ⟨d', by simp only [applyItems, hx, hd'], ht⟩

/-- Blocks whose irreversible block numbers the log has reached are applied without it. -/
theorem applyItems_quiet (held xs : List (ForkItem τ)) {d : Database τ ρ}
    {t : ChainState ρ} (hc : Core R d)
    (hrun : ChainState.coreRun R d.chain (xs.map (·.data)) = some t)
    {S : ForkItem τ → Prop} {n : Nat} (hS : Sound R.hash S n)
    (hlive : ∀ x ∈ d.forkDb.live held, S x)
    (hquiet : ∀ m ∈ ChainState.advances R d.chain (xs.map (·.data)),
      m.lastIrreversibleBlockNum ≤ d.blockLog.length) :
    ∃ d', applyItems R held xs d = .ok d' ∧ d'.chain = t := by
  induction xs generalizing d with
  | nil =>
    cases hrun
    exact ⟨d, rfl, rfl⟩
  | cons x xs ih =>
    obtain ⟨u, hu, hrun⟩ := ChainState.coreRun_next hrun
    obtain ⟨m, -, hlib, -, hadv⟩ := ChainState.advances_cons (xs.map (·.data)) hu
    rw [List.map_cons, hadv] at hquiet
    have hm := hquiet m (List.mem_cons_self ..)
    rw [hlib] at hm
    obtain ⟨d₁, hx, rfl⟩ := applySession_goes held hS hlive hc.logOk hu (by
      intro i h1 h2
      omega)
    have ha := applySession_ok hc.logOk hx
    obtain ⟨d', hd', ht⟩ := ih (ha.core_step hc).1 hrun (fun y hy => hlive y (ha.live_sub hy))
      (fun m' hm' => (hquiet m' (List.mem_cons_of_mem _ hm')).trans ha.grow)
    exact ⟨d', by simp only [applyItems, hx, hd'], ht⟩

/-! ### Popping the blocks of a branch -/

theorem fetchBlockById_of_mem {d : Database τ ρ} {x : ForkItem τ} (hx : x ∈ d.forkDb.index) :
    ∃ b, d.fetchBlockById R x.id = some b := by
  unfold fetchBlockById
  cases hf : d.forkDb.fetchBlock x.id with
  | none =>
    have := List.find?_eq_none.mp hf x hx
    simp at this
  | some y => exact ⟨y.data, rfl⟩

/-- One round of the pop loop. -/
theorem popBlock_step {held : List (ForkItem τ)} {S : ForkItem τ → Prop} {n : Nat}
    (hS : Sound R.hash S n) {d : Database τ ρ} (hlive : ∀ x ∈ d.forkDb.live held, S x)
    {x F G : ForkItem τ} (hx : x ∈ d.forkDb.index) (hid : d.chain.headBlockId = x.id)
    (hF : d.forkDb.head = some F) (hG : G ∈ d.forkDb.index ∨ G ∈ held) (hFG : Links F G) :
    ∃ txs, popBlock R held d = .ok
      { d with store := d.store.undo, forkDb := { d.forkDb with head := some G },
               poppedTx := txs } := by
  obtain ⟨b, hb⟩ := fetchBlockById_of_mem (R := R) hx
  have hGl : G ∈ d.forkDb.live held := (d.forkDb.mem_live held).mpr (hG.imp_right .inr)
  have hlock : d.forkDb.lock held F.prev = some G := by
    rw [show F.prev = some G.ptr from hFG]
    exact d.forkDb.lock_eq_some held hS hlive hGl
  refine ⟨b.transactions ++ d.poppedTx, ?_⟩
  simp only [popBlock, hid, hb, ForkDatabase.popBlock, hF, hlock]

theorem popBlock_ok {held : List (ForkItem τ)} {d d' : Database τ ρ}
    (h : popBlock R held d = .ok d') :
    ∃ x p, d.forkDb.head = some x ∧ d.forkDb.lock held x.prev = some p ∧
      d'.forkDb = { d.forkDb with head := some p } := by
  unfold popBlock ForkDatabase.popBlock at h
  split at h
  · cases h
  cases hh : d.forkDb.head with
  | none => simp [hh] at h
  | some x =>
    cases hp : d.forkDb.lock held x.prev with
    | none => simp [hh, hp] at h
    | some p =>
      simp only [hh, hp, Except.ok.injEq] at h
      exact ⟨x, p, rfl, hp, by rw [← h]⟩

theorem popBlock_error_ne_fuel {held : List (ForkItem τ)} {d : Database τ ρ} {e : DbError}
    (h : popBlock R held d = .error e) : e ≠ .fuel := by
  rintro rfl
  unfold popBlock at h
  split at h
  · cases h
  · split at h <;> cases h

/-- The rounds given to `popUntil` never run out: every round moves the fork database's head to
an item allocated before it. -/
theorem popUntil_ne_fuel {held : List (ForkItem τ)} {S : ForkItem τ → Prop} {n : Nat}
    (hS : Sound R.hash S n) {i : BlockId} :
    ∀ (fuel : Nat) (d d' : Database τ ρ), 0 < fuel → (∀ x ∈ d.forkDb.live held, S x) →
      (∀ h, d.forkDb.head = some h → h.ptr < fuel) →
      popUntil R held i fuel d ≠ .error (.fuel, d') := by
  intro fuel
  induction fuel with
  | zero =>
    intro d d' hpos
    omega
  | succ fuel ih =>
    intro d d' _ hlive hfuel
    unfold popUntil
    split
    · exact fun h => nomatch h
    cases hpop : popBlock R held d with
    | error e =>
      intro h
      simp only [Except.error.injEq, Prod.mk.injEq] at h
      exact popBlock_error_ne_fuel hpop h.1
    | ok d₁ =>
      obtain ⟨x, p, hx, hp, hf⟩ := popBlock_ok hpop
      obtain ⟨hmem, hq⟩ := ForkDatabase.lock_mem _ held hp
      have hlt := hS.prev_lt (hlive x ((d.forkDb.mem_live held).mpr (.inr (.inl hx)))) hq
      have hbound := hfuel x hx
      refine ih d₁ d' (by omega) ?_ ?_
      · intro y hy
        rw [hf] at hy
        rcases (ForkDatabase.mem_live _ held).mp hy with hy | hy | hy
        · exact hlive y ((d.forkDb.mem_live held).mpr (.inl hy))
        · cases hy
          exact hlive p hmem
        · exact hlive y ((d.forkDb.mem_live held).mpr (.inr (.inr hy)))
      · intro y hy
        rw [hf] at hy
        cases hy
        omega

/-- Popping until the parent of a branch's last block undoes exactly the branch, and takes the
fork database's head as many items down its own branch. -/
theorem popUntil_branch {held : List (ForkItem τ)} {S : ForkItem τ → Prop} {n : Nat}
    (hS : Sound R.hash S n) (hcf : CollisionFree R.hash) {a : ForkItem τ} :
    ∀ (l g : List (ForkItem τ)) (d : Database τ ρ) (fuel : Nat),
      (∀ x ∈ d.forkDb.live held, S x) → Branch l → l.getLast? = some a →
      (∀ x, l.head? = some x → d.chain.headBlockId = x.id) → (∀ x ∈ l, x ∈ d.forkDb.index) →
      d.store.Records (Step R) → l.length ≤ d.store.stack.length →
      Branch g → g.head? = d.forkDb.head → l.length < g.length →
      (∀ y ∈ g, y ∈ d.forkDb.index ∨ y ∈ held) → l.length < fuel →
      ∃ G txs, g[l.length]? = some G ∧ popUntil R held a.data.previous fuel d = .ok
        { d with store := Versioned.undo^[l.length] d.store,
                 forkDb := { d.forkDb with head := some G }, poppedTx := txs } := by
  intro l
  induction l with
  | nil =>
    intro g d fuel _ _ ha
    simp at ha
  | cons x l ih =>
    intro g d fuel hlive hl ha hid hidx hrec hlen hg hgh hgl hgm hfuel
    have hxid := hid x rfl
    have hxS : S x := hlive x ((d.forkDb.mem_live held).mpr (.inl (hidx x (by simp))))
    -- the fork database's branch has a next item
    obtain ⟨F, G, g', rfl⟩ : ∃ F G g', g = F :: G :: g' := by
      match g, hgl with
      | F :: G :: g', _ => exact ⟨F, G, g', rfl⟩
      | [_], h => simp at h
      | [], h => simp at h
    obtain ⟨hFG, hg'⟩ := List.isChain_cons_cons.mp hg
    obtain ⟨txs, hpop⟩ := popBlock_step (R := R) hS hlive (hidx x (by simp)) hxid hgh.symm
      (hgm G (by simp)) hFG
    -- the block undone is the one of `x`
    have hne : d.store.stack ≠ [] := by
      intro hn
      rw [hn] at hlen
      simp at hlen
    obtain ⟨⟨-, b, hb⟩, -, htail⟩ := hrec.undo_step hne
    obtain ⟨hprev, -, hbid⟩ := ChainState.coreApply_head hb
    have hxb : x.data = b := hS.data_inj hcf hxS (by rw [← hxid]; exact hbid)
    obtain ⟨fuel, rfl⟩ : ∃ k, fuel = k + 1 := ⟨fuel - 1, by omega⟩
    have hlS : ∀ y ∈ x :: l, S y := fun y hy =>
      hlive y ((d.forkDb.mem_live held).mpr (.inl (hidx y hy)))
    have hnum := Branches.length_of_last hS hl hlS rfl ha
    have hgo : d.chain.headBlockId ≠ a.data.previous := by
      intro he
      have := congrArg BlockId.num (hxid.symm.trans he)
      rw [hS.id_num hxS] at this
      simp only [List.length_cons] at hnum
      omega
    rw [popUntil, if_neg hgo, hpop]
    simp only
    cases l with
    | nil =>
      have hax : x = a := by simpa using ha
      subst hax
      obtain ⟨fuel, rfl⟩ : ∃ k, fuel = k + 1 := ⟨fuel - 1, by simp at hfuel; omega⟩
      refine ⟨G, txs, rfl, ?_⟩
      have hstop : d.store.undo.current.headBlockId = x.data.previous := by rw [hxb]; exact hprev
      rw [popUntil]
      exact if_pos hstop
    | cons y l =>
      have hyx := (List.isChain_cons_cons.mp hl).1
      have hyS : S y := hlS y (by simp)
      have hyid : d.store.undo.current.headBlockId = y.id := by
        rw [hprev, ← hxb, hS.prev_id hxS hyS hyx]
      obtain ⟨G', txs', hG', hrest⟩ := ih (G :: g')
        { d with store := d.store.undo, forkDb := { d.forkDb with head := some G },
                 poppedTx := txs } fuel
        (by
          intro z hz
          rcases (ForkDatabase.mem_live _ held).mp hz with hz | hz | hz
          · exact hlive z ((d.forkDb.mem_live held).mpr (.inl hz))
          · cases hz
            rcases hgm G (by simp) with hz | hz
            · exact hlive G ((d.forkDb.mem_live held).mpr (.inl hz))
            · exact hlive G ((d.forkDb.mem_live held).mpr (.inr (.inr hz)))
          · exact hlive z ((d.forkDb.mem_live held).mpr (.inr (.inr hz))))
        (List.isChain_cons_cons.mp hl).2 (by simpa using ha)
        (by
          intro z hz
          have : y = z := by simpa using hz
          rw [← this]
          exact hyid)
        (fun z hz => hidx z (List.mem_cons_of_mem _ hz)) hrec.undo
        (by
          simp only [htail, List.length_tail]
          simp only [List.length_cons] at hlen ⊢
          omega)
        hg' rfl (by simp only [List.length_cons] at hgl ⊢; omega)
        (fun z hz => hgm z (List.mem_cons_of_mem _ hz))
        (by simp only [List.length_cons] at hfuel ⊢; omega)
      exact ⟨G', txs', by simpa using hG', hrest⟩

/-! ### The popped blocks again -/

theorem Core.congr {d d' : Database τ ρ} (hc : Core R d) (hs : d'.store = d.store)
    (hl : d'.blockLog = d.blockLog) : Core R d' := by
  have hch : d'.chain = d.chain := by unfold chain; rw [hs]
  refine ⟨by rw [hs]; exact hc.records, by rw [hs, hch]; exact hc.revision,
    by rw [hch]; exact hc.sane, by rw [hl]; exact hc.logOk, by rw [hch, hl]; exact hc.logged, ?_⟩
  rw [hs, hl]
  exact hc.savedLogged

theorem Core.undo {d d' : Database τ ρ} (hc : Core R d) (hne : d.store.stack ≠ [])
    (hs : d'.store = d.store.undo) (hl : d'.blockLog = d.blockLog) : Core R d' := by
  obtain ⟨⟨hsane, b, hb⟩, hrev, htail⟩ := hc.records.undo_step hne
  have hnum : d.chain.headBlockNumber = d.store.undo.current.headBlockNumber + 1 :=
    (ChainState.coreApply_sane hsane hb).2.2
  have hlib : d.store.undo.current.lastIrreversibleBlockNum ≤ d.chain.lastIrreversibleBlockNum :=
    (ChainState.coreApply_sane hsane hb).2.1
  have hrev' := hc.revision
  have hch : d'.chain = d.store.undo.current := by unfold chain; rw [hs]
  refine ⟨by rw [hs]; exact hc.records.undo, by rw [hs, hch]; omega, by rw [hch]; exact hsane,
    by rw [hl]; exact hc.logOk, by rw [hch, hl]; exact hlib.trans hc.logged, ?_⟩
  intro e he
  rw [hs, htail] at he
  rw [hl]
  exact hc.savedLogged e (List.mem_of_mem_tail he)

/-- The state `k` blocks back. -/
theorem Core.back {d : Database τ ρ} (hc : Core R d) (k : Nat) (hk : k ≤ d.store.stack.length)
    {d' : Database τ ρ} (hs : d'.store = Versioned.undo^[k] d.store)
    (hl : d'.blockLog = d.blockLog) : Core R d' := by
  induction k generalizing d with
  | zero => exact hc.congr hs hl
  | succ k ih =>
    rw [Function.iterate_succ_apply] at hs
    have hne : d.store.stack ≠ [] := by
      intro hn
      rw [hn] at hk
      simp at hk
    obtain ⟨-, -, htail⟩ := hc.records.undo_step hne
    refine ih (d := { d with store := d.store.undo }) (hc.undo hne rfl rfl) ?_ hs hl
    simp only [htail, List.length_tail]
    omega

/-- The blocks of the chain's newest branch, oldest first, lead from the state before them to
the current one, and irreversibility was acted upon there as the saved states say. -/
theorem records_coreRun {S : ForkItem τ → Prop} {n : Nat} (hS : Sound R.hash S n)
    (hcf : CollisionFree R.hash) (l : List (ForkItem τ)) (v : Versioned (ChainState ρ))
    (hrec : v.Records (Step R)) (hl : Branch l) (hm : ∀ x ∈ l, S x)
    (hid : ∀ x, l.head? = some x → v.current.headBlockId = x.id)
    (hlen : l.length ≤ v.stack.length) :
    ChainState.coreRun R (Versioned.undo^[l.length] v).current (l.reverse.map (·.data)) =
        some v.current ∧
      ∀ m ∈ ChainState.advances R (Versioned.undo^[l.length] v).current
          (l.reverse.map (·.data)),
        ∃ s, (s = v.current ∨ ∃ e ∈ v.stack, e.state = s) ∧
          m.lastIrreversibleBlockNum = s.lastIrreversibleBlockNum ∧
          m.headBlockNumber = s.headBlockNumber := by
  induction l generalizing v with
  | nil =>
    refine ⟨rfl, ?_⟩
    intro m hm
    simp [ChainState.advances] at hm
  | cons x l ih =>
    have hne : v.stack ≠ [] := by
      intro hn
      rw [hn] at hlen
      simp at hlen
    obtain ⟨⟨-, b, hb⟩, -, htail⟩ := hrec.undo_step hne
    obtain ⟨hprev, -, hbid⟩ := ChainState.coreApply_head hb
    have hxS := hm x (List.mem_cons_self ..)
    have hxb : x.data = b := hS.data_inj hcf hxS (by rw [← hid x rfl]; exact hbid)
    have hid' : ∀ y, l.head? = some y → v.undo.current.headBlockId = y.id := by
      intro y hy
      cases l with
      | nil => simp at hy
      | cons z l =>
        have hzy : z = y := by simpa using hy
        subst hzy
        have hxz := (List.isChain_cons_cons.mp hl).1
        rw [hprev, ← hxb, hS.prev_id hxS (hm z (by simp)) hxz]
    obtain ⟨hrun, hadv⟩ := ih v.undo hrec.undo (List.isChain_cons.mp hl).2
      (fun y hy => hm y (List.mem_cons_of_mem _ hy)) hid' (by
        simp only [htail, List.length_tail]
        simp only [List.length_cons] at hlen
        omega)
    rw [← hxb] at hb
    have hsplit : (x :: l).reverse.map (·.data) = l.reverse.map (·.data) ++ [x.data] := by simp
    have hlast : ChainState.coreRun R v.undo.current [x.data] = some v.current := by
      simp only [ChainState.coreRun, hb]
    rw [List.length_cons, Function.iterate_succ_apply, hsplit]
    refine ⟨by rw [ChainState.coreRun_append, hrun]; exact hlast, ?_⟩
    intro m hmem
    rw [ChainState.advances_append hrun] at hmem
    rcases List.mem_append.mp hmem with hmem | hmem
    · obtain ⟨s, hs, hs'⟩ := hadv m hmem
      refine ⟨s, .inr ?_, hs'⟩
      rcases hs with rfl | ⟨e, he, rfl⟩
      · obtain ⟨e, l', hl'⟩ := List.exists_cons_of_ne_nil hne
        refine ⟨e, by rw [hl']; simp, ?_⟩
        simp only [Versioned.undo, hl']
      · rw [htail] at he
        exact ⟨e, List.mem_of_mem_tail he, rfl⟩
    · obtain ⟨m', -, h1, h2, h3⟩ := ChainState.advances_cons [] hb
      rw [h3] at hmem
      have : m = m' := by simpa [ChainState.advances] using hmem
      rw [this]
      exact ⟨v.current, .inl rfl, h1, h2⟩

theorem advances_sane {s m : ChainState ρ} {bs : List (SignedBlock τ)} (hs : Sane s)
    (hm : m ∈ ChainState.advances R s bs) :
    Sane m ∧ s.headBlockNumber < m.headBlockNumber := by
  induction bs generalizing s with
  | nil => simp [ChainState.advances] at hm
  | cons b bs ih =>
    simp only [ChainState.advances] at hm
    split at hm
    · simp at hm
    · next m' hm' =>
      obtain ⟨h1, -, h3⟩ := ChainState.advance_sane hs hm'
      split at hm
      · have : m = m' := by simpa using hm
        rw [this]
        exact ⟨h1, by omega⟩
      · next t ht =>
        rcases List.mem_cons.mp hm with rfl | hm
        · exact ⟨h1, by omega⟩
        · obtain ⟨h4, -, h5⟩ := ChainState.coreApply_sane hs ht
          obtain ⟨h6, h7⟩ := ih h4 hm
          exact ⟨h6, by omega⟩

theorem advances_lib_le {s t m : ChainState ρ} {bs : List (SignedBlock τ)} (hs : Sane s)
    (ht : ChainState.coreRun R s bs = some t) (hm : m ∈ ChainState.advances R s bs) :
    m.lastIrreversibleBlockNum ≤ t.lastIrreversibleBlockNum := by
  induction bs generalizing s with
  | nil => simp [ChainState.advances] at hm
  | cons b bs ih =>
    obtain ⟨u, hu, ht⟩ := ChainState.coreRun_next ht
    obtain ⟨m', -, hlib, -, hadv⟩ := ChainState.advances_cons bs hu
    obtain ⟨hu', -, -⟩ := ChainState.coreApply_sane hs hu
    rw [hadv] at hm
    rcases List.mem_cons.mp hm with rfl | hm
    · rw [hlib]
      exact (ChainState.coreRun_sane hu' ht).2.1
    · exact ih hu' ht hm

theorem threshold_le {h : Nat} {m : ChainState ρ} (hm : Sane m) (hh : h ≤ m.headBlockNumber) :
    threshold h m ≤ m.lastIrreversibleBlockNum := by
  unfold threshold
  have := hm.lib_le
  omega

end Database

end WeNode.Fork
