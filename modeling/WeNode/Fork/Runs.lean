import Mathlib.Logic.Encodable.Pi
import WeNode.Fork.Push

/-!
# Sequences of `push_block` calls

An opened database (database.cpp:95-145), runs of `push_block` from it, and the invariant that
every push whose effects can be undone preserves.
-/

namespace WeNode.Fork

open WeNode.Lib

variable {τ ρ : Type} {R : Rules τ ρ}

namespace Database

/-- The state `open` leaves: no undo sessions, and a fork database that is empty or started
with the head block, which is read from the block log. -/
structure Opened (R : Rules τ ρ) (d : Database τ ρ) : Prop where
  stack : d.store.stack = []
  revision : d.store.revision = d.chain.headBlockNumber
  sane : Sane d.chain
  logOk : LogOk d.blockLog
  logged : d.chain.headBlockNumber ≤ d.blockLog.length
  fork : (d.chain.headBlockId = BlockId.zero ∧ d.forkDb = ForkDatabase.empty) ∨
    ∃ b, d.blockLog[d.chain.headBlockNumber - 1]? = some b ∧
      b.id R.hash = d.chain.headBlockId ∧
      d.forkDb = ForkDatabase.empty.startBlock R.hash b

theorem Opened.inv {d : Database τ ρ} (h : Opened R d) : Inv R d := by
  have hlib := h.sane.lib_le
  refine { records := ?_, revision := h.revision, sane := h.sane, logOk := h.logOk,
           logged := hlib.trans h.logged, savedLogged := ?_, forkOk := ?_, bounded := ?_ }
  · unfold Versioned.Records
    rw [h.stack]
    exact .nil _ _
  · rw [h.stack]
    simp
  · rcases h.fork with ⟨-, hf⟩ | ⟨b, -, -, hf⟩
    · rw [hf]
      exact ForkDatabase.empty_ok
    · rw [hf]
      exact ForkDatabase.startBlock_ok b
  · unfold Bounded
    rw [h.stack, h.revision]
    simpa using hlib

/-- The pushes of a run all meet the condition `C`, on the state before the push. -/
inductive Run (R : Rules τ ρ) (C : Database τ ρ → SignedBlock τ → Prop) (d₀ : Database τ ρ) :
    Database τ ρ → Prop
  | start : Run R C d₀ d₀
  | push {d : Database τ ρ} (b : SignedBlock τ) (hr : Run R C d₀ d) (hb : C d b) :
      Run R C d₀ (push R d b)

/-- What every push that meets `C` preserves holds at the end of a run. -/
theorem Run.invariant {C : Database τ ρ → SignedBlock τ → Prop} {P : Database τ ρ → Prop}
    {d₀ d : Database τ ρ} (h : Run R C d₀ d) (h0 : P d₀)
    (hs : ∀ d b, P d → C d b → P (Database.push R d b)) : P d := by
  induction h with
  | start => exact h0
  | push b _ hb ih => exact hs _ b ih hb

theorem Run.mono {C C' : Database τ ρ → SignedBlock τ → Prop} {d₀ d : Database τ ρ}
    (h : Run R C d₀ d) (hC : ∀ d b, C d b → C' d b) : Run R C' d₀ d := by
  induction h with
  | start => exact .start
  | push b _ hb ih => exact .push b ih (hC _ _ hb)

/-! ### The invariant -/

theorem Accepted.inv {d : Database τ ρ} {b : SignedBlock τ} (hi : Inv R d)
    {f : ForkDatabase τ} {item newHead : ForkItem τ} (ha : Accepted R d b f item newHead) :
    Inv R { d with forkDb := f } where
  toCore := hi.toCore.congr rfl rfl
  forkOk := ha.pushed.ok
  bounded := hi.bounded

theorem remove_ok {f : ForkDatabase τ} (h : f.Ok R.hash) (i : BlockId) :
    (f.remove i).Ok R.hash :=
  h.shrink (fun x hx => by
    simp only [ForkDatabase.remove, List.mem_filter] at hx
    exact hx.1) (fun x hx => ForkDatabase.head_live hx) rfl

theorem setMaxSize_ok {f : ForkDatabase τ} (h : f.Ok R.hash) (s : Nat) :
    (f.setMaxSize s).Ok R.hash :=
  h.shrink (fun x hx => (ForkDatabase.mem_setMaxSize.mp hx).1)
    (fun x hx => by rw [ForkDatabase.setMaxSize_head] at hx; exact ForkDatabase.head_live hx)
    (f.setMaxSize_nextPtr s)

theorem Trimmed.ok {f g : ForkDatabase τ} {T : Nat} (h : Trimmed f g T) (hf : f.Ok R.hash) :
    g.Ok R.hash :=
  hf.shrink h.sub (fun x hx => by rw [h.head] at hx; exact ForkDatabase.head_live hx) h.nextPtr

theorem Outcome.inv {d : Database τ ρ} {b : SignedBlock τ}
    {r : Except (DbError × Database τ ρ) (Database τ ρ × Bool)} (hi : Inv R d)
    (h : Outcome R d b r) : Inv R (after r) := by
  cases h with
  | rejected he => exact hi
  | parked ha hne hle => exact ha.inv hi
  | unlinked ha hne hlt hb => exact ha.inv hi
  | extended ha he hd =>
    obtain ⟨hc, hb⟩ := hd.core_step (ha.inv hi).toCore
    refine { toCore := hc, forkOk := ?_, bounded := hb }
    rw [after_ok, hd.fork]
    exact setMaxSize_ok ha.pushed.ok _
  | @refused f item newHead e ha he hadv =>
    exact { toCore := hi.toCore.congr rfl rfl, forkOk := remove_ok ha.pushed.ok _,
            bounded := hi.bounded }
  | @undone f item newHead d₁ m e ha he hadv hlib hng hf =>
    have hstore := hf.store (by
      change m.lastIrreversibleBlockNum ≤ d.store.revision
      rw [hi.revision]
      exact hlib)
    obtain ⟨hc, -, hb⟩ := commit_core (ha.inv hi).toCore hstore hf.logOk hf.grown.1
    refine { toCore := hc.congr rfl rfl, forkOk := remove_ok ?_ _, bounded := hb hi.bounded }
    rcases hf.fork with hfd | hfd
    · rw [hfd]
      exact ha.pushed.ok
    · rw [hfd]
      exact setMaxSize_ok ha.pushed.ok _
  | switched ha hr hG hgoes hw =>
    refine { toCore := hw.core, forkOk := ?_, bounded := hw.bounded }
    refine hw.trimmed.ok (hr.ok.shrink (fun x hx => hx) (fun x hx => ?_) rfl)
    cases hx
    exact hr.spec.first_live _ (List.mem_of_getLast? hG)
  | restored ha hr hsplit hlib hgood hfail hw =>
    refine { toCore := hw.core, forkOk := ?_, bounded := hw.bounded }
    obtain ⟨F, hF, hFi, -⟩ := hw.head
    refine hr.ok.shrink (fun x hx => (hw.sub x hx).1) (fun x hx => ?_) hw.nextPtr
    rw [after_error, hF] at hx
    cases hx
    exact ForkDatabase.index_live hFi

/-- An exception that leaves a push which can be undone leaves the chain as it was. -/
theorem Outcome.throw_unchanged {d : Database τ ρ} {b : SignedBlock τ}
    {e : DbError × Database τ ρ} (hi : Inv R d) (h : Outcome R d b (.error e)) :
    e.2.chain = d.chain ∧ e.2.store.revision = d.store.revision := by
  have hafter : Inv R e.2 := h.inv hi
  have hch : e.2.chain = d.chain := by
    cases h with
    | rejected he => rfl
    | unlinked ha hne hlt hb => rfl
    | refused ha he hadv => rfl
    | @undone f item newHead d₁ m e ha he hadv hlib hng hf =>
      have hstore := hf.store (by
        change m.lastIrreversibleBlockNum ≤ d.store.revision
        rw [hi.revision]
        exact hlib)
      change d₁.store.current = d.store.current
      rw [hstore]
      rfl
    | restored ha hr hsplit hlib hgood hfail hw => exact hw.chain
  exact ⟨hch, by rw [hafter.revision, hi.revision, hch]⟩

theorem push_inv {d : Database τ ρ} {b : SignedBlock τ} (hi : Inv R d)
    (hcf : CollisionFree R.hash) (hu : Undoable R d b) : Inv R (push R d b) :=
  (pushBlock_cases hi hcf hu).inv hi

theorem Run.inv {C : Database τ ρ → SignedBlock τ → Prop} {d₀ d : Database τ ρ}
    (h : Run R C d₀ d) (hC : ∀ d b, C d b → Undoable R d b) (hcf : CollisionFree R.hash)
    (h0 : Inv R d₀) : Inv R d :=
  h.invariant h0 fun _ _ hi hb => push_inv hi hcf (hC _ _ hb)

/-! ### The conditions can be evaluated -/

instance (s : ChainState ρ) (bs : List (SignedBlock τ)) :
    Decidable (ChainState.coreRun R s bs ≠ none) :=
  decidable_of_iff ((ChainState.coreRun R s bs).isSome = true) Option.isSome_iff_ne_none

instance (f : ForkDatabase τ) (held : List (ForkItem τ)) (log : List (SignedBlock τ))
    (ms : List (ChainState ρ)) : Decidable (LogReady f held log ms) :=
  decidable_of_iff (ms.all (fun m => (List.range (m.lastIrreversibleBlockNum + 1)).all
      fun i => i ≤ log.length || (f.fetchBlockOnMainBranchByNumber held i).isSome) = true) (by
    have hi : ∀ (i : Nat) (p : Prop), (i ≤ log.length ∨ p) ↔ (log.length < i → p) :=
      fun i p => by rw [← Nat.not_lt, imp_iff_not_or]
    unfold LogReady
    simp only [List.all_eq_true, List.mem_range, Bool.or_eq_true, decide_eq_true_eq,
      Option.isSome_iff_ne_none, hi]
    exact ⟨fun h m hm i h1 h2 => h m hm i (by omega) h1,
      fun h m hm i h1 h2 => h m hm i h2 (by omega)⟩)

instance (f : ForkDatabase τ) (held : List (ForkItem τ)) (log : List (SignedBlock τ))
    (s : ChainState ρ) (bs : List (SignedBlock τ)) : Decidable (Goes R f held log s bs) :=
  inferInstanceAs (Decidable (_ ∧ _))

instance (s : ChainState ρ) (bs : List (SignedBlock τ)) (c : Nat) :
    Decidable (LibBelow R s bs c) :=
  inferInstanceAs (Decidable (∀ m ∈ ChainState.advances R s bs, _ ≤ _))

instance (d : Database τ ρ) (f : ForkDatabase τ) (newHead : ForkItem τ) (b : SignedBlock τ) :
    Decidable (ExtendSafe R d f newHead b) :=
  inferInstanceAs (Decidable (_ ∨ _))

instance (f : ForkDatabase τ) (second : List (ForkItem τ)) :
    Decidable (ForkPointStored f second) :=
  match h : second.getLast? with
  | none => isFalse (by rintro ⟨a, P, ha, -⟩; rw [h] at ha; cases ha)
  | some a => decidable_of_iff (∃ P ∈ f.index, a.prev = some P.ptr) (by
      constructor
      · rintro ⟨P, hP, hl⟩
        exact ⟨a, P, h, hP, hl⟩
      · rintro ⟨a', P, ha, hP, hl⟩
        rw [h] at ha
        cases ha
        exact ⟨P, hP, hl⟩)

instance [DecidableEq τ] (d : Database τ ρ) (f : ForkDatabase τ) (newHead : ForkItem τ)
    (first second : List (ForkItem τ)) : Decidable (SwitchSafe R d f newHead first second) :=
  inferInstanceAs (Decidable (_ ∧ _ ∧ _ ∧ (_ ∨ _ ∧ (_ → _))))

/-- A property of the branches `fetch_branch_from` finds, if it finds any. -/
instance (f : ForkDatabase τ) (i j : BlockId)
    (P : List (ForkItem τ) → List (ForkItem τ) → Prop) [∀ a b, Decidable (P a b)] :
    Decidable (∀ first second, f.fetchBranchFrom i j = some (first, second) → P first second) :=
  match h : f.fetchBranchFrom i j with
  | none => isTrue (by intro a b hab; cases hab)
  | some (a, b) => decidable_of_iff (P a b) (by
      constructor
      · intro hp a' b' hab
        cases hab
        exact hp
      · intro hp
        exact hp a b rfl)

/-- A property of the fork database after a push and its head, if the push succeeds. -/
instance (g : ForkDatabase τ) (b : SignedBlock τ) (P : ForkDatabase τ → ForkItem τ → Prop)
    [∀ f x, Decidable (P f x)] :
    Decidable (∀ f x, g.pushBlock R.hash b = .ok f → f.head = some x → P f x) :=
  match h : g.pushBlock R.hash b with
  | .error e => isTrue (by intro f x hf; cases hf)
  | .ok f =>
    match hh : f.head with
    | none => isTrue (by
        intro f' x hf hx
        cases hf
        rw [hh] at hx
        cases hx)
    | some x => decidable_of_iff (P f x) (by
        constructor
        · intro hp f' x' hf hx
          cases hf
          rw [hh] at hx
          cases hx
          exact hp
        · intro hp
          exact hp f x rfl hh)

instance [DecidableEq τ] (d : Database τ ρ) (b : SignedBlock τ) : Decidable (Undoable R d b) :=
  inferInstanceAs (Decidable (∀ f x, d.forkDb.pushBlock R.hash b = .ok f → f.head = some x →
    ((x.data.previous = d.chain.headBlockId → ExtendSafe R d f x b) ∧
    (x.data.previous ≠ d.chain.headBlockId → d.chain.headBlockNumber < x.data.blockNum →
      ∀ first second, f.fetchBranchFrom x.id d.chain.headBlockId = some (first, second) →
        SwitchSafe R d f x first second))))

/-- The pushes of a list of blocks all meet the condition. -/
def Along (R : Rules τ ρ) (C : Database τ ρ → SignedBlock τ → Prop) :
    Database τ ρ → List (SignedBlock τ) → Prop
  | _, [] => True
  | d, b :: bs => C d b ∧ Along R C (push R d b) bs

instance decidableAlong (C : Database τ ρ → SignedBlock τ → Prop) [∀ d b, Decidable (C d b)] :
    ∀ (d : Database τ ρ) (bs : List (SignedBlock τ)), Decidable (Along R C d bs)
  | _, [] => isTrue trivial
  | d, b :: bs =>
    have := decidableAlong C (push R d b) bs
    inferInstanceAs (Decidable (C d b ∧ Along R C (push R d b) bs))

theorem Run.along {C : Database τ ρ → SignedBlock τ → Prop} {d₀ d : Database τ ρ}
    (h : Run R C d₀ d) (bs : List (SignedBlock τ)) (hb : Along R C d bs) :
    Run R C d₀ (pushAll R d bs) := by
  induction bs generalizing d with
  | nil => exact h
  | cons b bs ih => exact ih (.push b h hb.1) hb.2

/-- Any pushes are a run. -/
theorem Run.pushes {d₀ d : Database τ ρ} (h : Run R (fun _ _ => True) d₀ d)
    (bs : List (SignedBlock τ)) : Run R (fun _ _ => True) d₀ (pushAll R d bs) := by
  induction bs generalizing d with
  | nil => exact h
  | cons b bs ih => exact ih (.push b h trivial)

end Database

/-! ### A digest without collisions -/

/-- A digest of blocks that carry nothing but their parent and a signature is cheap; other
blocks are numbered. -/
def linkDigest (b : SignedBlock Nat) : Nat :=
  if b.timestamp = 0 ∧ b.witness = "" ∧ b.transactionMerkleRoot = 0 ∧ b.extensions = [] ∧
      b.transactions = [] then
    2 * (2 ^ b.witnessSignature * (2 * b.previous.hash + 1))
  else
    2 * Encodable.encode (b.previous.hash, b.timestamp, b.witness.toList.map Char.toNat,
      b.transactionMerkleRoot, b.extensions, b.witnessSignature, b.transactions) + 1

theorem two_pow_mul_odd_inj {a b m n : Nat} (h : 2 ^ a * (2 * m + 1) = 2 ^ b * (2 * n + 1)) :
    a = b ∧ m = n := by
  induction a generalizing b with
  | zero =>
    cases b with
    | zero =>
      simp only [pow_zero, one_mul] at h
      exact ⟨rfl, by omega⟩
    | succ b =>
      rw [pow_succ, pow_zero, one_mul, mul_comm (2 ^ b), mul_assoc] at h
      omega
  | succ a ih =>
    cases b with
    | zero =>
      rw [pow_succ, pow_zero, one_mul, mul_comm (2 ^ a), mul_assoc] at h
      omega
    | succ b =>
      rw [pow_succ, pow_succ, mul_comm (2 ^ a), mul_comm (2 ^ b), mul_assoc, mul_assoc] at h
      obtain ⟨h1, h2⟩ := ih (Nat.eq_of_mul_eq_mul_left (by omega) h)
      exact ⟨by omega, h2⟩

theorem linkDigest_collisionFree : CollisionFree linkDigest := by
  rintro ⟨⟨pn, ph⟩, t, w, r, e, s, x⟩ ⟨⟨pn', ph'⟩, t', w', r', e', s', x'⟩ h
  have hn : pn = pn' := by
    have := congrArg BlockId.num h
    simpa [SignedBlock.id, SignedBlock.blockNum] using this
  have hh : linkDigest ⟨⟨pn, ph⟩, t, w, r, e, s, x⟩ = linkDigest ⟨⟨pn', ph'⟩, t', w', r', e', s', x'⟩ :=
    congrArg BlockId.hash h
  subst hn
  unfold linkDigest at hh
  simp only at hh
  split at hh <;> split at hh
  · next h1 h2 =>
    obtain ⟨rfl, rfl, rfl, rfl, rfl⟩ := h1
    obtain ⟨rfl, rfl, rfl, rfl, rfl⟩ := h2
    obtain ⟨rfl, rfl⟩ := two_pow_mul_odd_inj (Nat.eq_of_mul_eq_mul_left (by omega) hh)
    rfl
  · omega
  · omega
  · have he := Encodable.encode_injective (Nat.eq_of_mul_eq_mul_left (by omega)
      (Nat.succ_injective hh))
    simp only [Prod.mk.injEq] at he
    obtain ⟨rfl, rfl, hw, rfl, rfl, rfl, rfl⟩ := he
    have hw' := List.map_injective_iff.mpr (fun a b hab => Char.ext (UInt32.toNat_inj.mp hab)) hw
    rw [String.toList_inj.mp hw']

/-- Rules under which a block of signature 9 does not verify, one of signature 7 fails in its
end-of-block steps, and every other block applies. -/
def linkRules : Rules Nat Unit where
  hash := linkDigest
  evaluate _ b := if b.witnessSignature = 9 then none else some ()
  finish s b := if b.witnessSignature = 7 then .error ([], ())
    else .ok (s.currentShuffledWitnesses, ())

/-- The block of signature `s` on top of block id `i`. -/
def blockOn (i : BlockId) (s : Nat) : SignedBlock Nat := ⟨i, 0, "", 0, [], s, []⟩

/-- `n` blocks of signature `s`, each on top of the one before, the first on `i`. -/
def branchOn (i : BlockId) (s : Nat) : Nat → List (SignedBlock Nat)
  | 0 => []
  | n + 1 => blockOn i s :: branchOn ((blockOn i s).id linkDigest) s n

/-- A new node. -/
def newNode : Database Nat Unit :=
  ⟨⟨⟨0, BlockId.zero, 0, fun _ => 0, [], ()⟩, [], 0⟩, ForkDatabase.empty, [], []⟩

theorem newNode_opened : Database.Opened linkRules newNode where
  stack := rfl
  revision := rfl
  sane := ⟨rfl, le_rfl, fun _ => Nat.zero_le _, fun _ => le_rfl⟩
  logOk := by intro n b h; simp [newNode] at h
  logged := le_rfl
  fork := .inl ⟨rfl, rfl⟩

end WeNode.Fork
