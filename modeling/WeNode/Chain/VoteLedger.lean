import WeNode.Chain.VoteChanges

/-!
# The books of the votes

What can happen to the votes and to what comments hold of them, step by step.  Since hardfork 19
every step keeps the accounts of a comment that is not paid.
-/

namespace WeNode.Chain

open WeNode.Lib

namespace Ledger

/- A hardfork: the first one splits SCORE, 17 makes the fund and 19 sets its curve. -/
structure Upgrade (l l' : Ledger) (n : Nat) : Prop where
  length : l.hardforks.1.length = n
  applied : l'.hardforks.1.length = n + 1
  same : l' = { l with
    hardforks := l'.hardforks
    tallies := l'.tallies
    rewardFunds := l'.rewardFunds
    nextRewardFund := l'.nextRewardFund }
  ids : l'.tallies.map CommentTally.id = l.tallies.map CommentTally.id
  tallies : n ≠ 1 → l'.tallies = l.tallies
  funds : n ≠ 17 → l'.rewardFunds.length = l.rewardFunds.length ∧
    l'.nextRewardFund = l.nextRewardFund
  made : n = 17 → l'.rewardFunds.length = l.rewardFunds.length + 1 ∧
    l'.nextRewardFund = l.nextRewardFund + 1 ∧ l'.nextRewardFund = 1
  set : n = 19 → ∃ r ∈ l'.rewardFunds, r.2.2 = .squareRoot
  kept : 19 < n → l'.rewardFunds = l.rewardFunds

/-- One step of the books. -/
inductive Step (l : Ledger) : Ledger → Prop
  | voted {l' : Ledger} {t : CommentTally} {v : CommentVote} {most : Nat} :
    NewVote l l' t v most → Step l l'
  | changed {l' : Ledger} {t : CommentTally} {v v' : CommentVote} :
    ChangedVote l l' t v v' → Step l l'
  /-- until hardfork 12 a vote that was paid is dropped -/
  | dropped (i : Nat) : l.hardforks.1.length ≤ 12 →
    Step l { l with commentVotes := l.commentVotes.remove fun v => v.id == i }
  | commented (n : CommentNode) : n.id = l.nextComment → n.created = l.time →
    Step l { l with
      comments := l.comments ++ [n]
      nextComment := l.nextComment + 1
      tallies := l.tallies ++ [⟨l.nextComment, 0, 0, 0, 0, 0⟩] }
  | deleted (i : Nat) :
    Step l { l with
      comments := l.comments.eraseP fun n => n.id == i
      tallies := l.tallies.eraseP fun t => t.id == i
      commentVotes := { l.commentVotes with
        rows := l.commentVotes.rows.filter fun v => v.comment != i } }
  | settled {l' : Ledger} : Settled l l' → Step l l'
  | clock (t : Time) : l.time < t → Step l { l with time := t }
  | upgraded {l' : Ledger} {n : Nat} : Upgrade l l' n → Step l l'

/-- The accounts of the votes for one comment. -/
structure Balances (l : Ledger) (t : CommentTally) : Prop where
  net : t.netSCOREreward = l.commentVotes.sum (ofComment t.id CommentVote.scoreReward)
  count : t.netVotes = l.commentVotes.sum (ofComment t.id fun v => v.scoreReward.sign)
  weights : l.commentVotes.sum (ofComment t.id fun v => v.weight) ≤ t.totalVoteWeight
  root : t.totalVoteWeight ≤ approxSqrt t.voteSCOREreward.toNat
  votes : 0 ≤ t.voteSCOREreward ∧ t.voteSCOREreward ≤ int64Max

/-- The accounts of the comments from number `base` on that are not paid. -/
def Balanced (base : Nat) (l : Ledger) : Prop :=
  ∀ t ∈ l.tallies, base ≤ t.id → t.lastPayout = 0 → l.Balances t

variable {l l' : Ledger}

theorem Step.hardforks (h : Step l l') : l.hardforks.1.length ≤ l'.hardforks.1.length := by
  cases h with
  | voted h => rw [h.after]
  | changed h => rw [h.after]
  | settled h => rw [h.same]
  | upgraded h =>
    rw [h.length, h.applied]
    exact Nat.le_succ _
  | _ => exact Nat.le_refl _

/-! ### What is known of the books -/

theorem NewVote.keeps {t : CommentTally} {v : CommentVote} {most : Nat} (h : NewVote l l' t v most)
    (hk : l.Known) : l'.Known := by
  have hset := hk.setTally (t.counted v.scoreReward most)
  have hfresh : v.comment < l.nextComment := by
    have hmem : t.id ∈ l.comments.map CommentNode.id := by
      rw [← hk.tallies]
      exact List.mem_map_of_mem h.mem
    obtain ⟨n, hn, hid⟩ := List.mem_map.1 hmem
    rw [h.comment, ← hid]
    exact (hk.fresh n hn).1
  rw [h.after]
  constructor
  · exact hset.time
  · exact hset.ids
  · exact hset.tallies
  · exact hset.fresh
  · exact hk.keyed.create (r := fun _ => v) h.id
  · intro u hu
    rcases List.mem_append.1 hu with hu | hu
    · exact hk.known u hu
    · rw [List.mem_singleton.1 hu]
      exact hfresh
  · exact hset.funds
  · exact hset.fund
  · exact hset.curve

theorem ChangedVote.keeps {t : CommentTally} {v v' : CommentVote} (h : ChangedVote l l' t v v')
    (hk : l.Known) : l'.Known := by
  have hset := hk.setTally (t.recounted v v'.scoreReward)
  have hids : l'.commentVotes.rows.map CommentVote.id = l.commentVotes.rows.map CommentVote.id :=
    h.votes.map_eq h.same.1
  have hsame := h.after
  rw [h.tallies] at hsame
  constructor
  · rw [hsame]
    exact hset.time
  · rw [hsame]
    exact hset.ids
  · rw [hsame]
    exact hset.tallies
  · rw [hsame]
    exact hset.fresh
  · refine ⟨by rw [hids]; exact hk.keyed.nodup, fun u hu => ?_⟩
    have hid : u.id ∈ l.commentVotes.rows.map CommentVote.id := by
      rw [← hids]
      exact List.mem_map_of_mem hu
    obtain ⟨w, hw, hwid⟩ := List.mem_map.1 hid
    rw [h.nextId, ← hwid]
    exact hk.keyed.fresh w hw
  · intro u hu
    rw [hsame]
    rcases h.votes.of_mem hu with hu | rfl
    · exact hk.known u hu
    · rw [h.same.2]
      exact hk.known v h.votes.mem
  · rw [hsame]
    exact hset.funds
  · rw [hsame]
    exact hset.fund
  · rw [hsame]
    exact hset.curve

theorem Upgrade.keeps {n : Nat} (h : Upgrade l l' n) (hk : l.Known) : l'.Known := by
  have hsame := h.same
  have hfund : l'.rewardFunds.length = l'.nextRewardFund ∧ l'.nextRewardFund ≤ 1 := by
    by_cases hn : n = 17
    · obtain ⟨hlength, hnext, hone⟩ := h.made hn
      have hfunds := hk.funds
      omega
    · obtain ⟨hlength, hnext⟩ := h.funds hn
      have hfunds := hk.funds
      have hfund := hk.fund
      omega
  constructor
  · rw [hsame]
    exact hk.time
  · rw [hsame]
    exact hk.ids
  · rw [h.ids, hk.tallies, hsame]
  · rw [hsame]
    exact hk.fresh
  · rw [hsame]
    exact hk.keyed
  · rw [hsame]
    exact hk.known
  · exact hfund.1
  · exact hfund.2
  · intro h19 r hr
    rw [h.applied] at h19
    rcases (by omega : n = 19 ∨ 19 < n) with hn | hn
    · -- the fund that was set is the only one
      obtain ⟨r', hr', hcurve⟩ := h.set hn
      have hone : l'.rewardFunds.length ≤ 1 := by omega
      obtain ⟨x, hx⟩ : ∃ x, l'.rewardFunds = [x] :=
        List.length_eq_one_iff.1 (Nat.le_antisymm hone (List.length_pos_of_mem hr))
      rw [hx, List.mem_singleton] at hr hr'
      rw [hr, ← hr', hcurve]
    · rw [h.kept hn] at hr
      exact hk.curve (by rw [h.length]; omega) r hr

theorem Known.step (hk : l.Known) (h : Step l l') : l'.Known := by
  cases h with
  | voted h => exact h.keeps hk
  | changed h => exact h.keeps hk
  | settled h => exact h.keeps hk
  | upgraded h => exact h.keeps hk
  | dropped i hold =>
    exact { hk with
      keyed := hk.keyed.remove i
      known := fun v hv => hk.known v (List.mem_of_mem_eraseP hv) }
  | commented n hid hcreated =>
    refine { hk with ids := ?_, tallies := ?_, fresh := ?_, known := ?_ }
    · have hnew : l.nextComment ∉ l.comments.map CommentNode.id := by
        intro hmem
        obtain ⟨m, hm, hmid⟩ := List.mem_map.1 hmem
        exact absurd (hk.fresh m hm).1 (by omega)
      rw [List.map_append, List.map_singleton, hid, List.nodup_append]
      refine ⟨hk.ids, List.nodup_singleton _, fun a ha b hb hab => hnew ?_⟩
      rwa [← List.mem_singleton.1 hb, ← hab]
    · rw [List.map_append, List.map_append, hk.tallies, List.map_singleton, List.map_singleton, hid]
    · intro m hm
      rcases List.mem_append.1 hm with hm | hm
      · obtain ⟨hlt, hcreated⟩ := hk.fresh m hm
        exact ⟨Nat.lt_succ_of_lt hlt, hcreated⟩
      · rw [List.mem_singleton.1 hm, hid, hcreated]
        exact ⟨Nat.lt_succ_self _, hk.time.le⟩
    · exact fun v hv => Nat.lt_succ_of_lt (hk.known v hv)
  | deleted i =>
    have hsub : (l.comments.eraseP fun n => n.id == i).Sublist l.comments := List.eraseP_sublist
    have hcomments : (l.comments.eraseP fun n => n.id == i).map CommentNode.id =
        (l.comments.map CommentNode.id).eraseP (· == i) := by
      rw [List.eraseP_map]
      rfl
    have htallies : (l.tallies.eraseP fun t => t.id == i).map CommentTally.id =
        (l.tallies.map CommentTally.id).eraseP (· == i) := by
      rw [List.eraseP_map]
      rfl
    refine { hk with ids := ?_, tallies := ?_, fresh := ?_, keyed := ?_, known := ?_ }
    · exact hk.ids.sublist (hsub.map _)
    · rw [htallies, hk.tallies, ← hcomments]
    · exact fun n hn => hk.fresh n (hsub.subset hn)
    · exact ⟨hk.keyed.nodup.sublist (List.filter_sublist.map _),
        fun v hv => hk.keyed.fresh v (List.mem_of_mem_filter hv)⟩
    · exact fun v hv => hk.known v (List.mem_of_mem_filter hv)
  | clock t ht => exact { hk with time := Nat.lt_trans hk.time ht }

/-! ### The accounts -/

theorem Balances.of_sums {t : CommentTally} (h : l.Balances t)
    (hsums : ∀ g, l'.commentVotes.sum (ofComment t.id g) = l.commentVotes.sum (ofComment t.id g)) :
    l'.Balances t := by
  constructor
  · rw [hsums]
    exact h.net
  · rw [hsums]
    exact h.count
  · rw [hsums]
    exact h.weights
  · exact h.root
  · exact h.votes

theorem ofComment_self {i : Nat} {v : CommentVote} (h : v.comment = i) (g : CommentVote → Int) :
    ofComment i g v = g v := if_pos h

theorem ofComment_other {i : Nat} {v : CommentVote} (h : v.comment ≠ i) (g : CommentVote → Int) :
    ofComment i g v = 0 := if_neg h

/-- The weight of a new vote is added without a wrap, and stays below the root of the votes. -/
theorem NewVote.exact {t : CommentTally} {v : CommentVote} {most : Nat} (h : NewVote l l' t v most)
    (h19 : 19 < l.hardforks.1.length) (hb : l.Balances t) :
    (t.counted v.scoreReward most).totalVoteWeight = t.totalVoteWeight + most ∧
      t.totalVoteWeight + most ≤
        approxSqrt (t.counted v.scoreReward most).voteSCOREreward.toNat := by
  have hw := h.weighs h19 hb.votes.1
  have hsmall : ∀ x : Int, x ≤ int64Max → x.toNat < two128 := fun x hx => by
    unfold int64Max at hx
    unfold two128
    omega
  have hroot := hb.root
  by_cases hpos : 0 < v.scoreReward
  · have hbound := h.bound hpos
    have hvotes : (t.counted v.scoreReward most).voteSCOREreward =
        t.voteSCOREreward + v.scoreReward := if_pos hpos
    have hmono : approxSqrt t.voteSCOREreward.toNat ≤
        approxSqrt (t.voteSCOREreward + v.scoreReward).toNat :=
      approxSqrt_mono (by omega) (hsmall _ hbound)
    have hlt := approxSqrt_lt (hsmall _ hbound)
    have hle : t.totalVoteWeight + most ≤
        approxSqrt (t.voteSCOREreward + v.scoreReward).toNat := by
      rcases hw.gain with hzero | ⟨-, hgain⟩ <;> omega
    refine ⟨?_, by rwa [hvotes]⟩
    show (if most ≠ 0 then (t.totalVoteWeight + most) % two64 else t.totalVoteWeight) = _
    split
    · exact Nat.mod_eq_of_lt (by omega)
    · omega
  · have hzero : most = 0 := hw.gain.resolve_right fun hgain => hpos hgain.1
    have hvotes : (t.counted v.scoreReward most).voteSCOREreward = t.voteSCOREreward := if_neg hpos
    rw [hvotes, hzero]
    exact ⟨rfl, hroot⟩

/-- The weight a changed vote takes back was part of the sum. -/
theorem ChangedVote.exact {t : CommentTally} {v v' : CommentVote} (h : ChangedVote l l' t v v')
    (hb : l.Balances t) :
    (t.recounted v v'.scoreReward).totalVoteWeight + v.weight = t.totalVoteWeight ∧
      t.totalVoteWeight < two64 := by
  have hpart : (v.weight : Int) ≤ l.commentVotes.sum (ofComment t.id fun u => u.weight) := by
    refine List.single_le_sum ?_ _ ?_
    · intro x hx
      obtain ⟨u, -, rfl⟩ := List.mem_map.1 hx
      unfold ofComment
      split
      · exact Int.natCast_nonneg _
      · exact le_refl 0
    · have hself : ofComment t.id (fun u => u.weight) v = v.weight := ofComment_self h.comment _
      rw [← hself]
      exact List.mem_map_of_mem h.votes.mem
  have hle : (v.weight : Int) ≤ t.totalVoteWeight := hpart.trans hb.weights
  have hlt : approxSqrt t.voteSCOREreward.toNat < two64 := by
    have hvotes := hb.votes.2
    refine approxSqrt_lt ?_
    unfold int64Max at hvotes
    unfold two128
    omega
  have hroot := hb.root
  refine ⟨?_, by omega⟩
  show (t.totalVoteWeight + (two64 - v.weight)) % two64 + v.weight = t.totalVoteWeight
  have hsplit : t.totalVoteWeight + (two64 - v.weight) =
      t.totalVoteWeight - v.weight + two64 := by omega
  rw [hsplit, Nat.add_mod_right, Nat.mod_eq_of_lt (by omega)]
  omega

theorem NewVote.balances {t : CommentTally} {v : CommentVote} {most : Nat}
    (h : NewVote l l' t v most) (h19 : 19 < l.hardforks.1.length) (hb : l.Balances t) :
    l'.Balances (t.counted v.scoreReward most) := by
  obtain ⟨htotal, hroot⟩ := h.exact h19 hb
  have hw := h.weighs h19 hb.votes.1
  have hsum : ∀ g, l'.commentVotes.sum (ofComment t.id g) =
      l.commentVotes.sum (ofComment t.id g) + g v := by
    intro g
    rw [h.after]
    exact (Table.sum_create _ _ _).trans (congrArg _ (ofComment_self h.comment g))
  have hid : (t.counted v.scoreReward most).id = t.id := rfl
  constructor
  · rw [hid, hsum, ← hb.net]
    rfl
  · rw [hid, hsum, ← hb.count]
    show (if 0 < v.scoreReward then t.netVotes + 1 else t.netVotes - 1) =
      t.netVotes + v.scoreReward.sign
    have hne := h.counts
    split
    · next hpos => rw [Int.sign_eq_one_of_pos hpos]
    · next hneg => rw [Int.sign_eq_neg_one_of_neg (by omega), sub_eq_add_neg]
  · rw [hid, hsum, htotal]
    have hle := hb.weights
    have hleast := hw.least
    omega
  · rw [htotal]
    exact hroot
  · show 0 ≤ (if 0 < v.scoreReward then t.voteSCOREreward + v.scoreReward else t.voteSCOREreward) ∧
      (if 0 < v.scoreReward then t.voteSCOREreward + v.scoreReward else t.voteSCOREreward) ≤ int64Max
    have hvotes := hb.votes
    split
    · next hpos => exact ⟨by omega, h.bound hpos⟩
    · exact hvotes

theorem voteChange_eq (old new : Int) : voteChange old new = new.sign - old.sign := by
  unfold voteChange
  rcases lt_trichotomy old 0 with ho | ho | ho <;> rcases lt_trichotomy new 0 with hn | hn | hn <;>
    simp [ho, hn, Int.sign_eq_one_of_pos, Int.sign_eq_neg_one_of_neg, not_lt_of_gt, ne_of_gt, ne_of_lt]

theorem ChangedVote.sum {t : CommentTally} {v v' : CommentVote} (h : ChangedVote l l' t v v')
    (g : CommentVote → Int) :
    l'.commentVotes.sum (ofComment t.id g) =
      l.commentVotes.sum (ofComment t.id g) + (g v' - g v) := by
  have hsum := h.votes.sum_eq (ofComment t.id g)
  rwa [ofComment_self h.comment, ofComment_self (h.same.2.trans h.comment)] at hsum

theorem ChangedVote.balances {t : CommentTally} {v v' : CommentVote} (h : ChangedVote l l' t v v')
    (hb : l.Balances t) : l'.Balances (t.recounted v v'.scoreReward) := by
  obtain ⟨htotal, -⟩ := h.exact hb
  have hid : (t.recounted v v'.scoreReward).id = t.id := rfl
  constructor
  · rw [hid, h.sum, ← hb.net]
    show t.netSCOREreward - v.scoreReward + v'.scoreReward = _
    ring
  · rw [hid, h.sum, ← hb.count]
    exact congrArg (t.netVotes + ·) (voteChange_eq _ _)
  · rw [hid, h.sum, h.weight]
    have hle := hb.weights
    omega
  · have hroot := hb.root
    show (t.recounted v v'.scoreReward).totalVoteWeight ≤ approxSqrt t.voteSCOREreward.toNat
    omega
  · exact hb.votes

/-- Since hardfork 19 every step keeps the accounts. -/
theorem Balanced.step {base : Nat} (hb : Balanced base l) (hk : l.Known)
    (h19 : 19 < l.hardforks.1.length) (h : Step l l') : Balanced base l' := by
  cases h with
  | @voted _ t v most h =>
    intro u hu hbase hunpaid
    rw [h.after] at hu
    rcases Database.mem_setTally hu with rfl | ⟨hu, hne⟩
    · exact h.balances h19 (hb t h.mem hbase hunpaid)
    · refine (hb u hu hbase hunpaid).of_sums fun g => ?_
      have hother : v.comment ≠ u.id := fun heq => hne (heq.symm.trans h.comment)
      rw [h.after]
      exact (Table.sum_create _ _ _).trans (by rw [ofComment_other hother, add_zero])
  | @changed _ t v v' h =>
    intro u hu hbase hunpaid
    rw [h.tallies] at hu
    rcases Database.mem_setTally hu with rfl | ⟨hu, hne⟩
    · exact h.balances (hb t h.mem hbase hunpaid)
    · refine (hb u hu hbase hunpaid).of_sums fun g => ?_
      have hother : v.comment ≠ u.id := fun heq => hne (heq.symm.trans h.comment)
      have hother' : v'.comment ≠ u.id := by rwa [h.same.2]
      have hsum := h.votes.sum_eq (ofComment u.id g)
      rwa [ofComment_other hother, ofComment_other hother', sub_zero, add_zero] at hsum
  | dropped i hold => omega
  | commented n hid hcreated =>
    intro u hu hbase hunpaid
    rcases List.mem_append.1 hu with hu | hu
    · exact (hb u hu hbase hunpaid).of_sums fun _ => rfl
    · -- no vote is for a comment not made before
      have hnone : ∀ g, l.commentVotes.sum (ofComment l.nextComment g) = 0 := by
        intro g
        refine List.sum_eq_zero fun x hx => ?_
        obtain ⟨v, hv, rfl⟩ := List.mem_map.1 hx
        exact ofComment_other (Nat.ne_of_lt (hk.known v hv)) g
      rw [List.mem_singleton.1 hu]
      have hmax : (0 : Int) ≤ int64Max := by decide
      exact ⟨(hnone _).symm, (hnone _).symm, (hnone _).le, Nat.zero_le _, le_refl _, hmax⟩
  | deleted i =>
    intro u hu hbase hunpaid
    have hne : u.id ≠ i := by
      rintro rfl
      have hmem : u.id ∈ (l.tallies.map CommentTally.id).erase u.id := by
        rw [List.erase_eq_eraseP', List.eraseP_map]
        exact List.mem_map_of_mem hu
      exact hk.nodup.not_mem_erase hmem
    refine (hb u (List.mem_of_mem_eraseP hu) hbase hunpaid).of_sums fun g => ?_
    refine Table.sum_filter _ fun v _ hv => ofComment_other ?_ g
    have hvi : v.comment = i := by simpa using hv
    rw [hvi]
    exact hne.symm
  | settled h =>
    intro u hu hbase hunpaid
    obtain ⟨hmem, hsums⟩ := h.unpaid u hu hunpaid
    exact (hb u hmem hbase hunpaid).of_sums hsums
  | clock t ht => exact fun u hu hbase hunpaid => (hb u hu hbase hunpaid).of_sums fun _ => rfl
  | @upgraded _ n h =>
    intro u hu hbase hunpaid
    have hlength := h.length
    rw [h.tallies (by omega)] at hu
    refine (hb u hu hbase hunpaid).of_sums fun g => ?_
    rw [h.same]

/-- What holds of the books along a run of steps since hardfork 19. -/
theorem Balanced.steps {base : Nat} (hb : Balanced base l) (hk : l.Known)
    (h19 : 19 < l.hardforks.1.length) (h : Relation.ReflTransGen Step l l') :
    Balanced base l' ∧ l'.Known ∧ 19 < l'.hardforks.1.length := by
  induction h with
  | refl => exact ⟨hb, hk, h19⟩
  | tail _ hstep ih =>
    obtain ⟨hb, hk, h19⟩ := ih
    exact ⟨hb.step hk h19 hstep, hk.step hstep, h19.trans_le hstep.hardforks⟩

theorem Known.steps (hk : l.Known) (h : Relation.ReflTransGen Step l l') : l'.Known := by
  induction h with
  | refl => exact hk
  | tail _ hstep ih => exact ih.step hstep

/-- Comments made later start with accounts of nothing. -/
theorem Known.balanced (hk : l.Known) : Balanced l.nextComment l := by
  intro t ht hbase
  have hmem : t.id ∈ l.comments.map CommentNode.id := by
    rw [← hk.tallies]
    exact List.mem_map_of_mem ht
  obtain ⟨n, hn, hid⟩ := List.mem_map.1 hmem
  exact absurd (hk.fresh n hn).1 (by omega)

end Ledger
end WeNode.Chain
