import WeNode.Chain.CommentVotes
import WeNode.Chain.SquareRoot

/-!
# What a vote changes

A new vote adds to its comment a difference of the approximate square root and keeps a part of it
as its weight; a changed vote takes its weight back.
-/

set_option mvcgen.warning false

namespace WeNode.Chain

open WeNode.Lib Std.Do

/- What a vote of the weight `w` is worth with the power `p`. -/
def VotePower.signed (p : VotePower) (w : Int) : Int := if w < 0 then -p.reward else p.reward

/- A tally after a new vote. -/
def CommentTally.counted (t : CommentTally) (signed : Int) (most : Nat) : CommentTally := { t with
  netSCOREreward := t.netSCOREreward + signed
  voteSCOREreward := if 0 < signed then t.voteSCOREreward + signed else t.voteSCOREreward
  netVotes := if 0 < signed then t.netVotes + 1 else t.netVotes - 1
  totalVoteWeight :=
    if most ≠ 0 then (t.totalVoteWeight + most) % two64 else t.totalVoteWeight }

/- A tally after a change of the vote `v`. -/
def CommentTally.recounted (t : CommentTally) (v : CommentVote) (signed : Int) : CommentTally :=
  { t with
    netSCOREreward := t.netSCOREreward - v.scoreReward + signed
    netVotes := t.netVotes + voteChange v.scoreReward signed
    totalVoteWeight := (t.totalVoteWeight + (two64 - v.weight)) % two64 }

/- The weight a vote adds is the difference it makes to the root of the votes before it. -/
structure Weighs (old signed : Int) (most weight : Nat) : Prop where
  least : weight ≤ most
  gain : most = 0 ∨
    0 < signed ∧ most + approxSqrt old.toNat = approxSqrt (old + signed).toNat

theorem Weighs.zero (old signed : Int) : Weighs old signed 0 0 := ⟨Nat.le_refl 0, .inl rfl⟩

namespace Ledger

/- A new vote is counted for its comment. -/
structure NewVote (l l' : Ledger) (t : CommentTally) (v : CommentVote) (most : Nat) : Prop where
  mem : t ∈ l.tallies
  comment : v.comment = t.id
  id : v.id = l.commentVotes.nextId
  counts : v.scoreReward ≠ 0
  bound : 0 < v.scoreReward → t.voteSCOREreward + v.scoreReward ≤ int64Max
  weighs : 19 < l.hardforks.1.length → 0 ≤ t.voteSCOREreward →
    Weighs t.voteSCOREreward v.scoreReward most v.weight
  after : l' = { l with
    tallies := Database.setTally (t.counted v.scoreReward most) l.tallies
    commentVotes := l.commentVotes.create fun _ => v }

/- A vote is changed, to one without a weight. -/
structure ChangedVote (l l' : Ledger) (t : CommentTally) (v v' : CommentVote) : Prop where
  mem : t ∈ l.tallies
  comment : v.comment = t.id
  same : v'.id = v.id ∧ v'.comment = v.comment
  weight : v'.weight = 0
  tallies : l'.tallies = Database.setTally (t.recounted v v'.scoreReward) l.tallies
  votes : Table.Replaced (fun u => u.id == v.id) l.commentVotes.rows l'.commentVotes.rows v v'
  nextId : l'.commentVotes.nextId = l.commentVotes.nextId
  after : l' = { l with tallies := l'.tallies, commentVotes := l'.commentVotes }

variable {l : Ledger}

theorem Known.tally_eq (h : l.Known) {t u : CommentTally} (ht : t ∈ l.tallies) (hu : u ∈ l.tallies)
    (hid : t.id = u.id) : t = u :=
  List.inj_on_of_nodup_map h.nodup ht hu hid

theorem Known.setTally (h : l.Known) (t : CommentTally) :
    ({ l with tallies := Database.setTally t l.tallies } : Ledger).Known where
  time := h.time
  ids := h.ids
  tallies := (Database.setTally_ids t l.tallies).trans h.tallies
  fresh := h.fresh
  keyed := h.keyed
  known := h.known
  funds := h.funds
  fund := h.fund
  curve := h.curve

end Ledger

namespace Database

variable {d d' : Database}

/-! ### Weights -/

theorem getRewardFund_curve {f : RewardFund} (hk : d.ledger.Known) (h19 : d.hasHardfork 19)
    (h : d.getRewardFund = .ok f) : f.curationRewardCurve = .squareRoot := by
  have hmem : f ∈ d.rewardFunds.rows := List.mem_of_find?_eq_some (found_ok h)
  have h19 : 19 < d.hardforks.processedHardforks.length := by simpa [hasHardfork] using h19
  exact hk.curve h19 f.key (List.mem_map_of_mem hmem)

theorem curationWeight_ok {c : Comment} {old reward : Int} {most : Nat} (hk : d.ledger.Known)
    (h19 : d.hasHardfork 19) (hc : c ∈ d.comments.rows) (h0 : 0 ≤ old)
    (hvotes : old ≤ c.voteSCOREreward) (hmax : c.voteSCOREreward ≤ int64Max)
    (h : curationWeight d c old reward = .ok most) :
    most < two64 ∧ most + approxSqrt old.toNat = approxSqrt c.voteSCOREreward.toNat := by
  have hcreated : hardfork06ReverseAuctionTime ≤ c.created := (hk.fresh c.node (List.mem_map_of_mem hc)).2
  have h17 : d.hasHardfork 17 := by
    simp only [hasHardfork, decide_eq_true_eq] at h19 ⊢
    omega
  have hold : u128 old = old.toNat := u128_of_nonneg h0 (hvotes.trans hmax)
  have hnew : u128 c.voteSCOREreward = c.voteSCOREreward.toNat :=
    u128_of_nonneg (h0.trans hvotes) hmax
  unfold curationWeight at h
  rw [if_neg (Nat.not_lt.2 hcreated), if_pos h17] at h
  obtain ⟨f, hf, h⟩ := bind_ok.1 h
  rw [h19, getRewardFund_curve hk h19 hf, hold, hnew] at h
  obtain ⟨x, hx, h⟩ := bind_ok.1 h
  cases hx
  obtain ⟨before, hbefore, h⟩ := bind_ok.1 h
  obtain ⟨y, hy, h⟩ := bind_ok.1 h
  cases hy
  obtain ⟨after, hafter, h⟩ := bind_ok.1 h
  cases h
  obtain ⟨rfl, hbefore⟩ := toUint64_ok hbefore
  obtain ⟨rfl, hafter⟩ := toUint64_ok hafter
  have hsmall : c.voteSCOREreward.toNat < two128 := by
    unfold int64Max at hmax
    unfold two128
    omega
  have hmono : approxSqrt old.toNat ≤ approxSqrt c.voteSCOREreward.toNat :=
    approxSqrt_mono (by omega) hsmall
  generalize approxSqrt old.toNat = before at *
  generalize approxSqrt c.voteSCOREreward.toNat = after at *
  have hmod : (after + (two64 - before)) % two64 = after - before := by
    rw [show after + (two64 - before) = after - before + two64 by omega, Nat.add_mod_right]
    exact Nat.mod_eq_of_lt (by omega)
  rw [hmod]
  exact ⟨by omega, by omega⟩

/-- Since hardfork 19 a vote weighs at most the difference it makes to the root. -/
theorem voteWeights_ok {c : Comment} {old signed : Int} {most weight : Nat} (hk : d.ledger.Known)
    (h19 : d.hasHardfork 19) (hc : c ∈ d.comments.rows) (h0 : 0 ≤ old)
    (hvotes : 0 < signed → c.voteSCOREreward = old + signed ∧ old + signed ≤ int64Max)
    (h : voteWeights d c old signed = .ok (most, weight)) : Weighs old signed most weight := by
  have htime : hardfork06ReverseAuctionTime < d.headBlockTime := hk.time
  -- the part of an early vote is taken of the window of the reverse auction
  have hpart : ∀ n w delta, 0 < signed → curationWeight d c old signed = .ok n →
      w = u128Mul n (min delta reverseAuctionWindowSeconds) / reverseAuctionWindowSeconds →
      Weighs old signed n w := by
    rintro n w delta hpositive hn rfl
    obtain ⟨hvotes, hmax⟩ := hvotes hpositive
    obtain ⟨-, hgain⟩ := curationWeight_ok hk h19 hc h0 (by omega) (by omega) hn
    refine ⟨?_, .inr ⟨hpositive, by rwa [hvotes] at hgain⟩⟩
    unfold u128Mul
    refine (Nat.div_le_div_right (Nat.mod_le _ _)).trans ?_
    refine (Nat.div_le_div_right (Nat.mul_le_mul_left n (min_le_right _ _))).trans ?_
    exact (Nat.mul_div_cancel n (by decide)).le
  have hweight : ⦃⌜True⌝⦄ curationWeight d c old signed
      ⦃⇓? n => ⌜curationWeight d c old signed = .ok n⌝⦄ := triple_ok
  refine of_triple (P := fun r : Nat × Nat => Weighs old signed r.1 r.2) ?_ trivial h
  mvcgen [-voteWeights_spec, voteWeights, hweight]
  · exact Weighs.zero old signed
  · exact hpart _ _ _ (by grind) ‹curationWeight d c old signed = _› ‹_ ∧ _›.1
  · exact Weighs.zero old signed
  · exact hpart _ _ _ (by grind) ‹curationWeight d c old signed = _› ‹_ ∧ _›.1

end Database

/-! ### New votes -/

open Database

variable {d d' : Database}

/- The vote a new vote leaves. -/
def VoteOperation.vote (o : VoteOperation) (d : Database) (c : Comment) (voter : Account)
    (p : VotePower) (weight id : Nat) : CommentVote where
  id := id
  voter := voter.id
  comment := c.id
  weight := weight
  scoreReward := p.signed o.weight
  votePercent := o.weight
  lastUpdate := d.headBlockTime

def addVote (d : Database) (vote : Nat → CommentVote) : Database :=
  { d with commentVotes := d.commentVotes.create vote }

def addWeight (most : Nat) (c : Comment) : Result Comment :=
  .ok { c with totalVoteWeight := (c.totalVoteWeight + most) % two64 }

theorem voteRoot_core {e : Database} {i : Nat} {reward : Int} {average : Nat}
    (h : d.modifyComment i (voteRoot e reward average) = .ok d') : d'.core = d.core := by
  refine of_triple (modifyComment_core ?_ ?_ ?_) trivial h
  all_goals
    intro c
    mvcgen [voteRoot]

/- The tally a comment has while the tallies are those of `d`. -/
theorem tally_kept {e : Database} {c x : Comment} (hk : d.ledger.Known)
    (he : e.core.tallies = d.core.tallies) (hc : c ∈ d.comments.rows) (hx : x ∈ e.comments.rows)
    (hid : x.id = c.id) : x.tally = c.tally := by
  have hmem : x.tally ∈ d.core.tallies := by
    rw [← he]
    exact List.mem_map_of_mem hx
  exact hk.tally_eq hmem (List.mem_map_of_mem hc) hid

/- The tally that was set for a comment is the one read back. -/
theorem tally_set {e : Database} {t : CommentTally} {l : List CommentTally} {x : Comment}
    (he : e.core.tallies = setTally t l) (hx : x ∈ e.comments.rows) (hid : x.id = t.id) :
    x.tally = t := by
  have hmem : x.tally ∈ setTally t l := by
    rw [← he]
    exact List.mem_map_of_mem hx
  exact (mem_setTally hmem).resolve_right fun hne => hne.2 hid

/- The tally of another comment than the one whose tally was set. -/
theorem tally_other {t : CommentTally} {c c' : Comment} (hk : d.ledger.Known)
    (hmem : c'.tally ∈ setTally t d.ledger.tallies) (hc : c ∈ d.comments.rows)
    (hid : c'.id = c.id) (ht : t.id ≠ c.id) : c'.tally = c.tally := by
  rcases mem_setTally hmem with heq | ⟨hold, -⟩
  · have htid : c'.id = t.id := congrArg CommentTally.id heq
    exact absurd (htid.symm.trans hid) ht
  · exact hk.tally_eq hold (List.mem_map_of_mem hc) hid

theorem VoteOperation.newVote_spec {o : VoteOperation} {c : Comment} {a : Account}
    {p : VotePower} :
    ⦃⌜True⌝⦄ o.newVote d c a p
      ⦃⇓? d' => ⌜0 < p.reward ∧ ∃ (d₁ d₂ d₃ d₄ : Database) (voted : Comment) (most weight : Nat),
        d₁.core = { d.core with powers := d₁.core.powers } ∧
        d₁.modifyComment c.id (countVote d₁ p.reward (p.signed o.weight)) = .ok d₂ ∧
        d₃.core = d₂.core ∧ d₃.getCommentById c.id = .ok voted ∧
        voteWeights d₃ voted c.voteSCOREreward (p.signed o.weight) = .ok (most, weight) ∧
        (if most ≠ 0 then
          (addVote d₃ (o.vote d₃ c a p weight)).modifyComment c.id (addWeight most) = .ok d₄
          else d₄ = addVote d₃ (o.vote d₃ c a p weight)) ∧
        d'.core = d₄.core⌝⦄ := by
  have hm : ∀ (d : Database) i f, ⦃⌜True⌝⦄ d.modifyComment i f
      ⦃⇓? d' => ⌜d.modifyComment i f = .ok d'⌝⦄ := fun _ _ _ => triple_ok
  mvcgen [newVote, spendPower_core, claimVotes_core, hm]
  all_goals
    intro hcore
    refine ⟨‹0 < p.reward›, _, _, _, _, _, _, _, by assumption,
      ‹modifyComment _ c.id (countVote _ _ _) = _›,
      voteRoot_core ‹modifyComment _ _ (voteRoot _ _ _) = _›, ‹getCommentById _ c.id = _›,
      ‹voteWeights _ _ _ _ = _›, ?_, hcore⟩
    split_ifs
    first | rfl | assumption

theorem getCommentById_ok {i : Nat} {c : Comment} (h : d.getCommentById i = .ok c) :
    c ∈ d.comments.rows ∧ c.id = i := by
  have hfind := found_ok h
  exact ⟨List.mem_of_find?_eq_some hfind, by simpa using List.find?_some hfind⟩

/- The tally of a comment after a first vote, as yet without its weight. -/
theorem countVote_tally {reward signed : Int} {c y : Comment}
    (h : countVote d reward signed c = .ok y) :
    y.tally = c.tally.counted signed 0 ∧
      (0 < signed → c.voteSCOREreward + signed ≤ int64Max) := by
  have hshare : ∀ x, ⦃⌜True⌝⦄ share x ⦃⇓? z => ⌜z = x ∧ x ≤ int64Max⌝⦄ := fun x =>
    triple_of fun _ z hz => by grind [share]
  refine of_triple (P := fun y => y.tally = c.tally.counted signed 0 ∧
    (0 < signed → c.voteSCOREreward + signed ≤ int64Max)) ?_ trivial h
  mvcgen [countVote, safeAdd, hshare]
  all_goals grind [Comment.tally, CommentTally.counted]

/-- What a new vote changes of the votes. -/
theorem VoteOperation.newVote_ledger {o : VoteOperation} {c : Comment} {a : Account}
    {p : VotePower} (hk : d.ledger.Known) (hc : c ∈ d.comments.rows)
    (h : o.newVote d c a p = .ok d') :
    ∃ v most, Ledger.NewVote d.ledger d'.ledger c.tally v most := by
  obtain ⟨hpositive, d₁, d₂, d₃, d₄, voted, most, weight, hcore₁, hcount, hcore₃, hvoted, hweights,
    hadd, hcore'⟩ := of_triple (VoteOperation.newVote_spec (d := d)) trivial h
  obtain ⟨x, hx, hxid, y, hxy, hcore₂⟩ := modifyComment_tally (by rw [hcore₁]; exact hk.ids)
    (fun c => by mvcgen [countVote]) (fun c => by mvcgen [countVote]) hcount
  rw [hcore₁] at hcore₂
  have hxtally : x.tally = c.tally := tally_kept hk (by rw [hcore₁]) hc hx hxid
  obtain ⟨hy, hbound⟩ := countVote_tally hxy
  rw [hxtally] at hy
  have hyid : y.tally.id = c.id := congrArg CommentTally.id hy
  -- the comment read back is the one counted
  have htallies : d₃.core.tallies = setTally y.tally d.core.tallies := by rw [hcore₃, hcore₂]
  obtain ⟨hvotedmem, hvotedid⟩ := getCommentById_ok hvoted
  have hvotedtally : voted.tally = y.tally :=
    tally_set htallies hvotedmem (hvotedid.trans hyid.symm)
  have hledger : d₃.ledger =
      { d.ledger with tallies := setTally y.tally d.ledger.tallies } := by
    unfold ledger
    rw [hcore₃, hcore₂]
    rfl
  have hk₃ : d₃.ledger.Known := by
    rw [hledger]
    exact hk.setTally y.tally
  have hvotes : 0 < p.signed o.weight → voted.voteSCOREreward =
      c.voteSCOREreward + p.signed o.weight ∧ c.voteSCOREreward + p.signed o.weight ≤ int64Max := by
    intro hpos
    have hvalue : voted.voteSCOREreward = (c.tally.counted (p.signed o.weight) 0).voteSCOREreward :=
      congrArg CommentTally.voteSCOREreward (hvotedtally.trans hy)
    have hold : x.voteSCOREreward = c.voteSCOREreward :=
      congrArg CommentTally.voteSCOREreward hxtally
    exact ⟨hvalue.trans (if_pos hpos), hold ▸ hbound hpos⟩
  refine ⟨o.vote d₃ c a p weight d.commentVotes.nextId, most, ?_⟩
  constructor
  · exact List.mem_map_of_mem hc
  · rfl
  · rfl
  · show p.signed o.weight ≠ 0
    unfold VotePower.signed
    split <;> omega
  · exact fun hpos => (hvotes hpos).2
  · intro h19 h0
    have h19₃ : d₃.hasHardfork 19 := by
      rw [hasHardfork_core, hcore₃, hcore₂]
      exact decide_eq_true h19
    exact voteWeights_ok hk₃ h19₃ hvotedmem h0 hvotes hweights
  · have hlast : d₄.core = { d.core with
        powers := d₁.core.powers
        tallies := setTally (c.tally.counted (p.signed o.weight) most) d.core.tallies
        commentVotes := d.core.commentVotes.create fun _ =>
          o.vote d₃ c a p weight d.commentVotes.nextId } := by
      split_ifs at hadd with hmost
      · obtain ⟨z, hz, hzid, w, hw, hcore₄⟩ := modifyComment_tally
          (d := addVote d₃ (o.vote d₃ c a p weight)) hk₃.ids
          (fun c => by mvcgen [addWeight]) (fun c => by mvcgen [addWeight]) hadd
        cases hw
        have hztally : z.tally = c.tally.counted (p.signed o.weight) 0 :=
          (tally_set htallies hz (hzid.trans hyid.symm)).trans hy
        have hadded : CommentTally.mk z.id z.lastPayout z.netSCOREreward z.voteSCOREreward z.netVotes
            ((z.totalVoteWeight + most) % two64) = c.tally.counted (p.signed o.weight) most := by
          calc
            _ = { z.tally with totalVoteWeight := (z.tally.totalVoteWeight + most) % two64 } := rfl
            _ = c.tally.counted (p.signed o.weight) most := by
              rw [hztally]
              simp [CommentTally.counted, hmost]
        have hcore₄' : d₄.core = { d₃.core with
            tallies := setTally (c.tally.counted (p.signed o.weight) most) d₃.core.tallies
            commentVotes := d₃.core.commentVotes.create (o.vote d₃ c a p weight) } := by
          rw [hcore₄, ← hadded]
          rfl
        rw [hcore₄', htallies, setTally_setTally hyid.symm, hcore₃, hcore₂]
        rfl
      · have hmost : most = 0 := by omega
        rw [hadd, hmost]
        calc (addVote d₃ (o.vote d₃ c a p weight)).core = { d₃.core with
              commentVotes := d₃.core.commentVotes.create (o.vote d₃ c a p weight) } := rfl
          _ = _ := by
            rw [hcore₃, hcore₂, hy]
            rfl
    unfold ledger
    rw [hcore', hlast]
    rfl

/-! ### Changed votes -/

def recountVote (v : CommentVote) (reward signed : Int) (c : Comment) : Result Comment := do
  return { c with
    netSCOREreward := ← safeAdd (← safeSub c.netSCOREreward v.scoreReward) signed
    absSCOREreward := ← safeAdd c.absSCOREreward reward
    netVotes := c.netVotes + voteChange v.scoreReward signed }

def takeWeight (weight : Nat) (c : Comment) : Result Comment :=
  .ok { c with totalVoteWeight := (c.totalVoteWeight + (two64 - weight)) % two64 }

/- The vote a changed vote leaves. -/
def VoteOperation.revote (o : VoteOperation) (d : Database) (p : VotePower) (v : CommentVote) :
    CommentVote := { v with
  scoreReward := p.signed o.weight
  votePercent := o.weight
  lastUpdate := d.headBlockTime
  weight := 0
  numChanges := v.numChanges + 1 }

theorem VoteOperation.changeVote_spec {o : VoteOperation} {c : Comment} {v : CommentVote}
    {p : VotePower} :
    ⦃⌜True⌝⦄ o.changeVote d c v p
      ⦃⇓? d' => ⌜∃ d₁ d₂ d₃ d₄ d₅ : Database,
        d₁.core = { d.core with powers := d₁.core.powers } ∧
        d₁.modifyComment c.id (recountVote v p.reward (p.signed o.weight)) = .ok d₂ ∧
        d₃.core = d₂.core ∧ d₃.modifyComment c.id (takeWeight v.weight) = .ok d₄ ∧
        d₄.modifyCommentVote v.id (fun v => .ok (o.revote d₄ p v)) = .ok d₅ ∧
        d'.core = d₅.core⌝⦄ := by
  have hm : ∀ (d : Database) i f, ⦃⌜True⌝⦄ d.modifyComment i f
      ⦃⇓? d' => ⌜d.modifyComment i f = .ok d'⌝⦄ := fun _ _ _ => triple_ok
  have hv : ∀ (d : Database) i f, ⦃⌜True⌝⦄ d.modifyCommentVote i f
      ⦃⇓? d' => ⌜d.modifyCommentVote i f = .ok d'⌝⦄ := fun _ _ _ => triple_ok
  mvcgen [changeVote, spendPower_core, claimVotes_core, hm, hv]
  all_goals
    intro hcore
    exact ⟨_, _, _, _, _, by assumption, ‹modifyComment _ c.id (recountVote _ _ _) = _›,
      voteRoot_core ‹modifyComment _ _ (voteRoot _ _ _) = _›,
      ‹modifyComment _ c.id (takeWeight _) = _›,
      ‹modifyCommentVote _ _ _ = _›, hcore⟩

theorem recountVote_tally {v : CommentVote} {reward signed : Int} {c y : Comment}
    (h : recountVote v reward signed c = .ok y) :
    y.tally = { c.tally with
      netSCOREreward := c.netSCOREreward - v.scoreReward + signed
      netVotes := c.netVotes + voteChange v.scoreReward signed } := by
  have hshare : ∀ x, ⦃⌜True⌝⦄ share x ⦃⇓? z => ⌜z = x⌝⦄ := fun x =>
    triple_of fun _ z hz => by grind [share]
  refine of_triple (P := fun y : Comment => y.tally = { c.tally with
    netSCOREreward := c.netSCOREreward - v.scoreReward + signed
    netVotes := c.netVotes + voteChange v.scoreReward signed }) ?_ trivial h
  mvcgen [recountVote, safeAdd, safeSub, hshare]
  all_goals simp_all [Comment.tally]

/-- What a changed vote changes of the votes. -/
theorem VoteOperation.changeVote_ledger {o : VoteOperation} {c : Comment} {v : CommentVote}
    {p : VotePower} (hk : d.ledger.Known) (hc : c ∈ d.comments.rows)
    (hv : v ∈ d.commentVotes.rows) (hcomment : v.comment = c.id)
    (h : o.changeVote d c v p = .ok d') :
    ∃ v', Ledger.ChangedVote d.ledger d'.ledger c.tally v v' := by
  obtain ⟨d₁, d₂, d₃, d₄, d₅, hcore₁, hcount, hcore₃, htake, hvote, hcore'⟩ :=
    of_triple (VoteOperation.changeVote_spec (d := d)) trivial h
  obtain ⟨x, hx, hxid, y, hxy, hcore₂⟩ := modifyComment_tally (by rw [hcore₁]; exact hk.ids)
    (fun c => by mvcgen [recountVote]) (fun c => by mvcgen [recountVote]) hcount
  rw [hcore₁] at hcore₂
  have hxtally : x.tally = c.tally := tally_kept hk (by rw [hcore₁]) hc hx hxid
  have hy := recountVote_tally hxy
  have hyid : y.tally.id = c.id := (congrArg CommentTally.id hy).trans hxid
  have htallies : d₃.core.tallies = setTally y.tally d.core.tallies := by rw [hcore₃, hcore₂]
  obtain ⟨z, hz, hzid, w, hw, hcore₄⟩ := modifyComment_tally
    (by rw [hcore₃, hcore₂]; exact hk.ids)
    (fun c => by mvcgen [takeWeight]) (fun c => by mvcgen [takeWeight]) htake
  cases hw
  have hztally : z.tally = y.tally := tally_set htallies hz (hzid.trans hyid.symm)
  have htaken : CommentTally.mk z.id z.lastPayout z.netSCOREreward z.voteSCOREreward z.netVotes
      ((z.totalVoteWeight + (two64 - v.weight)) % two64) =
        c.tally.recounted v (p.signed o.weight) := by
    calc
      _ = { z.tally with
          totalVoteWeight := (z.tally.totalVoteWeight + (two64 - v.weight)) % two64 } := rfl
      _ = { x.tally with
          netSCOREreward := x.tally.netSCOREreward - v.scoreReward + p.signed o.weight
          netVotes := x.tally.netVotes + voteChange v.scoreReward (p.signed o.weight)
          totalVoteWeight := (x.tally.totalVoteWeight + (two64 - v.weight)) % two64 } := by
        rw [hztally, hy]
        rfl
      _ = c.tally.recounted v (p.signed o.weight) := by
        rw [hxtally]
        rfl
  have hcore₄' : d₄.core = { d.core with
      powers := d₁.core.powers
      tallies := setTally (c.tally.recounted v (p.signed o.weight)) d.core.tallies } := by
    rw [← htaken, ← setTally_setTally (t := y.tally) (hzid.trans hyid.symm), ← htallies, hcore₄,
      hcore₃, hcore₂]
    rfl
  have hvotes : d₄.commentVotes = d.commentVotes := congrArg Core.commentVotes hcore₄'
  unfold modifyCommentVote at hvote
  obtain ⟨t, ht, rfl⟩ := of_modify hvote
  rw [hvotes] at ht
  obtain ⟨u, u', hu, hrep, hnext⟩ := Table.modify_ok ht
  cases hu
  have huid : u.id = v.id := by simpa using hrep.key_x
  have huv : u = v := List.inj_on_of_nodup_map hk.keyed.nodup hrep.mem hv huid
  rw [huv] at hrep
  have hlast : d'.core = { d.core with
      powers := d₁.core.powers
      tallies := setTally (c.tally.recounted v (p.signed o.weight)) d.core.tallies
      commentVotes := t } := by
    rw [hcore']
    exact congrArg (fun e : Core => { e with commentVotes := t }) hcore₄'
  refine ⟨o.revote d₄ p v, List.mem_map_of_mem hc, hcomment, ⟨rfl, rfl⟩, rfl, ?_, ?_, ?_, ?_⟩
  · exact congrArg Core.tallies hlast
  · show Table.Replaced _ d.commentVotes.rows d'.core.commentVotes.rows v (o.revote d₄ p v)
    rw [hlast]
    exact hrep
  · show d'.core.commentVotes.nextId = d.commentVotes.nextId
    rw [hlast]
    exact hnext
  · unfold ledger
    rw [hlast]
    rfl

def dropVote (d : Database) (v : CommentVote) : Database :=
  { d with commentVotes := d.commentVotes.remove fun x => x.id == v.id }

/- An operation makes a vote or changes one, unless the payouts are over.  Until hardfork 12 a vote
that was paid is dropped for a new one. -/
theorem VoteOperation.apply_spec {o : VoteOperation} :
    ⦃⌜True⌝⦄ o.apply d
      ⦃⇓? d' => ⌜d' = d ∨ ∃ c a p, d.getComment o.author o.permlink = .ok c ∧
        (o.newVote d c a p = .ok d' ∨
          ∃ v, d.commentVotes.find (fun v => v.comment == c.id && v.voter == a.id) = some v ∧
            (o.changeVote d c v p = .ok d' ∨
              d.hasHardfork 12 = false ∧ o.newVote (dropVote d v) c a p = .ok d'))⌝⦄ := by
  have hnew : ∀ (e : Database) c a p, ⦃⌜True⌝⦄ o.newVote e c a p
      ⦃⇓? d' => ⌜o.newVote e c a p = .ok d'⌝⦄ := fun _ _ _ _ => triple_ok
  have hchange : ∀ c v p, ⦃⌜True⌝⦄ o.changeVote d c v p
      ⦃⇓? d' => ⌜o.changeVote d c v p = .ok d'⌝⦄ := fun _ _ _ => triple_ok
  mvcgen [VoteOperation.apply, hnew, hchange]
  all_goals first
    | exact .inl trivial
    | exact fun h => .inr ⟨_, _, _, ‹getComment _ _ _ = _›, .inl h⟩
    | exact fun h => .inr ⟨_, _, _, ‹getComment _ _ _ = _›, .inr ⟨_, ‹Table.find _ _ = _›, .inl h⟩⟩
    | exact fun h => .inr ⟨_, _, _, ‹getComment _ _ _ = _›, .inr ⟨_, ‹Table.find _ _ = _›,
        .inr ⟨by simp_all, h⟩⟩⟩

end WeNode.Chain
