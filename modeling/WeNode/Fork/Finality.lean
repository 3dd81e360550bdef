import WeNode.Fork.Runs

/-!
# Finality

The blocks up to the last irreversible block number stay on the chain, and the number does not
go down, as long as a switch reaches back no further than the undo sessions and leads to a
branch whose own irreversible block number is not lower.
-/

namespace WeNode.Fork

variable {τ : Type}

/-- Block `i` is on the chain that ends in block `h`: the parent ids lead there. -/
inductive OnChain (hash : SignedBlock τ → Nat) (i : BlockId) : BlockId → Prop
  | self : OnChain hash i i
  | parent (b : SignedBlock τ) (h : OnChain hash i b.previous) : OnChain hash i (b.id hash)

theorem OnChain.iff_previous {hash : SignedBlock τ → Nat} (hcf : CollisionFree hash)
    {b : SignedBlock τ} {i : BlockId} (hi : i.num ≤ b.previous.num) :
    OnChain hash i (b.id hash) ↔ OnChain hash i b.previous := by
  constructor
  · intro h
    generalize hj : b.id hash = j at h
    cases h with
    | self =>
      rw [← hj, SignedBlock.id_num, SignedBlock.blockNum] at hi
      omega
    | parent c hc => rwa [hcf b c hj]
  · exact .parent b

namespace Database

variable {ρ : Type} {R : Rules τ ρ}

theorem onChain_coreRun (hcf : CollisionFree R.hash) {s t : ChainState ρ}
    {bs : List (SignedBlock τ)} (hs : Sane s) (h : ChainState.coreRun R s bs = some t)
    {i : BlockId} (hi : i.num ≤ s.headBlockNumber) :
    OnChain R.hash i t.headBlockId ↔ OnChain R.hash i s.headBlockId := by
  induction bs generalizing s with
  | nil =>
    cases h
    exact Iff.rfl
  | cons b bs ih =>
    obtain ⟨u, hu, h⟩ := ChainState.coreRun_next h
    obtain ⟨hu', -, hn⟩ := ChainState.coreApply_sane hs hu
    obtain ⟨hprev, -, hid⟩ := ChainState.coreApply_head hu
    rw [ih hu' h (by omega), hid, hprev, OnChain.iff_previous hcf]
    rw [← hprev, hs.id_num]
    exact hi

/-- The push can be undone, and a switch leads to a branch with no lower irreversible block
number than the chain's. -/
def Settled (R : Rules τ ρ) (d : Database τ ρ) (b : SignedBlock τ) : Prop :=
  Undoable R d b ∧
    ∀ f newHead, d.forkDb.pushBlock R.hash b = .ok f → f.head = some newHead →
      ∀ first second, f.fetchBranchFrom newHead.id d.chain.headBlockId = some (first, second) →
        ∀ t ∈ ChainState.coreRun R (d.stateBack second.length) (blocksOf first),
          d.chain.lastIrreversibleBlockNum ≤ t.lastIrreversibleBlockNum

/-- The fork point of a switch is not below the irreversible block. -/
theorem Reorg.lib_le_back {d : Database τ ρ} {newHead : ForkItem τ}
    {first second : List (ForkItem τ)} (hr : Reorg R d newHead first second) (hc : Core R d)
    (hb : Bounded d) :
    d.chain.lastIrreversibleBlockNum ≤ (d.stateBack second.length).headBlockNumber ∧
      Sane (d.stateBack second.length) := by
  obtain ⟨hsane, hnum⟩ := hr.back hc
  have h1 := hr.depth
  have h2 := hc.revision
  unfold Bounded at hb
  refine ⟨?_, hsane⟩
  omega

/-- Two states of which neither lost a block up to the irreversible one of the first. -/
def Extends (R : Rules τ ρ) (d d' : Database τ ρ) : Prop :=
  d.chain.lastIrreversibleBlockNum ≤ d'.chain.lastIrreversibleBlockNum ∧
    ∀ i : BlockId, i.num ≤ d.chain.lastIrreversibleBlockNum →
      (OnChain R.hash i d'.chain.headBlockId ↔ OnChain R.hash i d.chain.headBlockId)

theorem Extends.of_chain {d d' : Database τ ρ} (h : d'.chain = d.chain) : Extends R d d' :=
  ⟨by rw [h], fun i _ => by rw [h]⟩

theorem Extends.trans {d d' d'' : Database τ ρ} (h : Extends R d d') (h' : Extends R d' d'') :
    Extends R d d'' :=
  ⟨h.1.trans h'.1, fun i hi => (h'.2 i (hi.trans h.1)).trans (h.2 i hi)⟩

theorem push_extends {d : Database τ ρ} {b : SignedBlock τ} (hi : Inv R d)
    (hcf : CollisionFree R.hash) (hs : Settled R d b) : Extends R d (push R d b) := by
  have hout := pushBlock_cases hi hcf hs.1
  unfold push
  generalize pushBlock R d b = r at hout
  cases r with
  | error e => exact .of_chain (hout.throw_unchanged hi).1
  | ok p =>
    cases hout with
    | parked ha hne hle => exact .of_chain rfl
    | @extended f item newHead d' ha he hd =>
      have hcore : d.chain.coreApply R b = some d'.chain := hd.core
      obtain ⟨-, hlib, -⟩ := ChainState.coreApply_sane hi.sane hcore
      refine ⟨hlib, fun i hin => ?_⟩
      have hrun : ChainState.coreRun R d.chain [b] = some d'.chain := by
        simp only [ChainState.coreRun, hcore]
      exact onChain_coreRun hcf hi.sane hrun (hin.trans hi.sane.lib_le)
    | @switched f item newHead G first second d' ha hr hG hgoes hw =>
      have hc : Core R { d with forkDb := f } := hi.toCore.congr rfl rfl
      obtain ⟨hle, hsane⟩ := hr.lib_le_back hc hi.bounded
      have hrun := hw.run
      refine ⟨hs.2 f newHead ha.push ha.head first second hr.branches d'.chain hrun,
        fun i hin => ?_⟩
      have hold := onChain_coreRun hcf hsane (hr.second_run hc hcf).1 (hin.trans hle)
      exact (onChain_coreRun hcf hsane hrun (hin.trans hle)).trans hold.symm

instance [DecidableEq τ] (d : Database τ ρ) (b : SignedBlock τ) : Decidable (Settled R d b) :=
  inferInstanceAs (Decidable (Undoable R d b ∧ ∀ f x, d.forkDb.pushBlock R.hash b = .ok f →
    f.head = some x → ∀ first second,
      f.fetchBranchFrom x.id d.chain.headBlockId = some (first, second) →
      ∀ t ∈ ChainState.coreRun R (d.stateBack second.length) (blocksOf first),
        d.chain.lastIrreversibleBlockNum ≤ t.lastIrreversibleBlockNum))

end Database

end WeNode.Fork
