import WeNode.Chain.CommentTree

/-!
# The votes of comments

Every vote has an id of its own and is for a comment that was made.  A payout closes the comment
it is for and touches no vote of another one.
-/

set_option mvcgen.warning false

namespace WeNode.Chain

open WeNode.Lib Std.Do

/- A value of the votes for one comment. -/
def ofComment (comment : Nat) (g : CommentVote → Int) (v : CommentVote) : Int :=
  if v.comment = comment then g v else 0

/-- The part of the core that votes are counted in. -/
structure Ledger where
  time : Time
  hardforks : List Time × Nat × Nat
  comments : List CommentNode
  nextComment : Nat
  tallies : List CommentTally
  commentVotes : Table CommentVote
  rewardFunds : List (Nat × Name × CurveId)
  nextRewardFund : Nat

def Core.ledger (c : Core) : Ledger where
  time := c.time
  hardforks := c.hardforks
  comments := c.comments
  nextComment := c.nextComment
  tallies := c.tallies
  commentVotes := c.commentVotes
  rewardFunds := c.rewardFunds
  nextRewardFund := c.nextRewardFund

def Database.ledger (d : Database) : Ledger := d.core.ledger

namespace Ledger

/-- Comments and votes are numbered, votes are for comments that were made, and there is one fund
for them, of which the curve for curators is the square root since hardfork 19. -/
structure Known (l : Ledger) : Prop where
  time : hardfork06ReverseAuctionTime < l.time
  ids : (l.comments.map CommentNode.id).Nodup
  tallies : l.tallies.map CommentTally.id = l.comments.map CommentNode.id
  fresh : ∀ n ∈ l.comments, n.id < l.nextComment ∧ hardfork06ReverseAuctionTime ≤ n.created
  keyed : l.commentVotes.Keyed CommentVote.id
  known : ∀ v ∈ l.commentVotes.rows, v.comment < l.nextComment
  funds : l.rewardFunds.length = l.nextRewardFund
  fund : l.nextRewardFund ≤ 1
  curve : 19 < l.hardforks.1.length → ∀ r ∈ l.rewardFunds, r.2.2 = .squareRoot

/-- What payouts leave: no comment is added, and one that is not paid keeps its votes. -/
structure Settled (l l' : Ledger) : Prop where
  same : l' = { l with tallies := l'.tallies, commentVotes := l'.commentVotes }
  tallies : l'.tallies.map CommentTally.id = l.tallies.map CommentTally.id
  keyed : l'.commentVotes.Keyed CommentVote.id
  known : ∀ v ∈ l'.commentVotes.rows, ∃ u ∈ l.commentVotes.rows, u.comment = v.comment
  unpaid : ∀ t ∈ l'.tallies, t.lastPayout = 0 → t ∈ l.tallies ∧
    ∀ g, l'.commentVotes.sum (ofComment t.id g) = l.commentVotes.sum (ofComment t.id g)

variable {l l' l'' : Ledger}

theorem Known.nodup (h : l.Known) : (l.tallies.map CommentTally.id).Nodup := by
  rw [h.tallies]
  exact h.ids

namespace Settled

theorem refl (h : l.Known) : Settled l l :=
  ⟨rfl, rfl, h.keyed, fun v hv => ⟨v, hv, rfl⟩, fun _ ht _ => ⟨ht, fun _ => rfl⟩⟩

theorem trans (h : Settled l l') (h' : Settled l' l'') : Settled l l'' := by
  refine ⟨?_, h'.tallies.trans h.tallies, h'.keyed, ?_, ?_⟩
  · rw [h'.same, h.same]
  · intro v hv
    obtain ⟨u, hu, huv⟩ := h'.known v hv
    obtain ⟨w, hw, hwu⟩ := h.known u hu
    exact ⟨w, hw, hwu.trans huv⟩
  · intro t ht hpaid
    obtain ⟨ht', hsum'⟩ := h'.unpaid t ht hpaid
    obtain ⟨ht₀, hsum⟩ := h.unpaid t ht' hpaid
    exact ⟨ht₀, fun g => (hsum' g).trans (hsum g)⟩

theorem keeps (h : Settled l l') (hc : l.Known) : l'.Known := by
  have hsame := h.same
  constructor
  · rw [hsame]
    exact hc.time
  · rw [hsame]
    exact hc.ids
  · rw [h.tallies, hc.tallies, hsame]
  · rw [hsame]
    exact hc.fresh
  · exact h.keyed
  · intro v hv
    obtain ⟨u, hu, huv⟩ := h.known v hv
    rw [hsame, ← huv]
    exact hc.known u hu
  · rw [hsame]
    exact hc.funds
  · rw [hsame]
    exact hc.fund
  · rw [hsame]
    exact hc.curve

end Settled
end Ledger

namespace Database

variable {d d' : Database}

/-! ### Changes of one tally -/

theorem tallies_ids (d : Database) :
    d.core.tallies.map CommentTally.id = d.core.comments.map CommentNode.id := by
  simp [core, Comment.tally, Comment.node]

/- The tallies with that of one comment replaced. -/
def setTally (t : CommentTally) (l : List CommentTally) : List CommentTally :=
  l.map fun u => if u.id = t.id then t else u

theorem mem_setTally {t u : CommentTally} {l : List CommentTally} (h : u ∈ setTally t l) :
    u = t ∨ u ∈ l ∧ u.id ≠ t.id := by
  obtain ⟨w, hw, rfl⟩ := List.mem_map.1 h
  by_cases hid : w.id = t.id
  · exact .inl (if_pos hid)
  · rw [if_neg hid]
    exact .inr ⟨hw, hid⟩

theorem setTally_setTally {t u : CommentTally} (hid : u.id = t.id) (l : List CommentTally) :
    setTally u (setTally t l) = setTally u l := by
  unfold setTally
  rw [List.map_map]
  refine List.map_congr_left fun w _ => ?_
  by_cases hw : w.id = t.id <;> simp [Function.comp_apply, hw, hid]

theorem setTally_ids (t : CommentTally) (l : List CommentTally) :
    (setTally t l).map CommentTally.id = l.map CommentTally.id := by
  unfold setTally
  rw [List.map_map]
  refine List.map_congr_left fun w _ => ?_
  by_cases hw : w.id = t.id <;> simp [Function.comp_apply, hw]

theorem comment_eq_of_id (hids : (d.core.comments.map CommentNode.id).Nodup) {b c : Comment}
    (hb : b ∈ d.comments.rows) (hc : c ∈ d.comments.rows) (hid : b.id = c.id) : b = c := by
  rw [core, List.map_map] at hids
  exact List.inj_on_of_nodup_map hids hb hc hid

/-- A change of a comment that leaves its place replaces its tally. -/
theorem modifyComment_tally {i : Nat} {f : Comment → Result Comment}
    (hids : (d.core.comments.map CommentNode.id).Nodup)
    (hn : ∀ c, ⦃⌜True⌝⦄ f c ⦃⇓? c' => ⌜c'.node = c.node⌝⦄)
    (hcount : ∀ c, ⦃⌜True⌝⦄ f c ⦃⇓? c' => ⌜c'.counter = c.counter⌝⦄)
    (h : d.modifyComment i f = .ok d') :
    ∃ x ∈ d.comments.rows, x.id = i ∧ ∃ y, f x = .ok y ∧
      d'.core = { d.core with tallies := setTally y.tally d.core.tallies } := by
  have hcore := of_triple (modifyComment_tallies hn hcount) trivial h
  unfold modifyComment at h
  obtain ⟨t, hrow, rfl⟩ := of_modify h
  obtain ⟨x, y, hxy, ⟨hx, pre, post, hpre, hpost, -⟩, -⟩ := Table.modify_ok hrow
  have hrows : (d.comments.rows.map Comment.id).Nodup := by
    rwa [core, List.map_map] at hids
  have hmem : x ∈ d.comments.rows := by
    rw [hpre]
    exact List.mem_append_right _ List.mem_cons_self
  have hyid : y.id = x.id := congrArg CommentNode.id (of_triple (hn x) trivial hxy)
  have hother : ∀ z ∈ pre ++ post, z.id ≠ x.id := by
    intro z hz hzx
    rw [hpre, List.perm_middle.map _ |>.nodup_iff, List.map_cons, List.nodup_cons] at hrows
    exact hrows.1 (List.mem_map.2 ⟨z, hz, hzx⟩)
  have htallies : t.rows.map Comment.tally = setTally y.tally (d.comments.rows.map Comment.tally) := by
    unfold setTally
    rw [hpost, hpre, List.map_map, List.map_append, List.map_append, List.map_cons, List.map_cons]
    have hself : x.tally.id = y.tally.id := hyid.symm
    congr 1
    · refine List.map_congr_left fun z hz => ?_
      have hne : z.tally.id ≠ y.tally.id := fun heq =>
        hother z (List.mem_append_left _ hz) (heq.trans hyid)
      rw [Function.comp_apply, if_neg hne]
    · rw [Function.comp_apply, if_pos hself]
      congr 1
      refine List.map_congr_left fun z hz => ?_
      have hne : z.tally.id ≠ y.tally.id := fun heq =>
        hother z (List.mem_append_right _ hz) (heq.trans hyid)
      rw [Function.comp_apply, if_neg hne]
  refine ⟨x, hmem, by simpa using hx, y, hxy, ?_⟩
  rw [hcore]
  exact congrArg (fun l => { d.core with tallies := l }) htallies

/-! ### Payouts -/

/- The votes for one comment are changed or removed, and no others. -/
structure VotesSettled (comment : Nat) (t t' : Table CommentVote) : Prop where
  keyed : t'.Keyed CommentVote.id
  known : ∀ v ∈ t'.rows, ∃ u ∈ t.rows, u.id = v.id ∧ u.comment = v.comment
  others : ∀ i ≠ comment, ∀ g, t'.sum (ofComment i g) = t.sum (ofComment i g)

theorem VotesSettled.trans {comment : Nat} {t t' t'' : Table CommentVote}
    (h : VotesSettled comment t t') (h' : VotesSettled comment t' t'') :
    VotesSettled comment t t'' := by
  refine ⟨h'.keyed, ?_, fun i hi g => (h'.others i hi g).trans (h.others i hi g)⟩
  intro v hv
  obtain ⟨u, hu, huid, huv⟩ := h'.known v hv
  obtain ⟨w, hw, hwid, hwu⟩ := h.known u hu
  exact ⟨w, hw, hwid.trans huid, hwu.trans huv⟩

theorem settleVote_ok {comment : Nat} {v : CommentVote}
    (hk : d.core.commentVotes.Keyed CommentVote.id)
    (hv : ∀ u ∈ d.core.commentVotes.rows, u.id = v.id → u.comment = comment)
    (h : settleVote comment d v = .ok d') :
    d'.core = { d.core with commentVotes := d'.core.commentVotes } ∧
      VotesSettled comment d.core.commentVotes d'.core.commentVotes := by
  refine ⟨of_triple settleVote_core trivial h, ?_⟩
  obtain ⟨c, -, h⟩ := bind_ok.1 h
  obtain ⟨stay, -, h⟩ := bind_ok.1 h
  cases stay with
  | true =>
    simp only [if_true] at h
    unfold modifyCommentVote at h
    obtain ⟨t, ht, rfl⟩ := of_modify h
    obtain ⟨hkeyed, -, x, y, hx, hxy, hrow⟩ := hk.modify ht
      (fun x y _ hxy => by cases hxy; rfl)
    obtain ⟨x', y', hxy', hrep, -⟩ := Table.modify_ok ht
    refine ⟨hkeyed, fun w hw => ?_, fun i hi g => ?_⟩
    · rcases hrep.of_mem hw with hw | rfl
      · exact ⟨w, hw, rfl, rfl⟩
      · cases hxy'
        exact ⟨x', hrep.mem, rfl, rfl⟩
    · refine (Table.sum_modify ht (d := 0) fun x y hx hxy => ?_).trans (add_zero _)
      cases hxy
      have hmem := List.mem_of_find?_eq_some hx
      have hid : x.id = v.id := by simpa using List.find?_some hx
      have hne : x.comment ≠ i := fun heq => hi (heq.symm.trans (hv x hmem hid))
      simp [ofComment, hne]
  | false =>
    simp only [Bool.false_eq_true, if_false] at h
    cases h
    refine ⟨hk.remove v.id, fun w hw => ⟨w, List.mem_of_mem_eraseP hw, rfl, rfl⟩, fun i hi g => ?_⟩
    show (d.commentVotes.remove _).sum _ = d.commentVotes.sum _
    cases hf : d.commentVotes.find fun w => w.id == v.id with
    | none =>
      have hnone := List.find?_eq_none.1 hf
      rw [Table.remove, List.eraseP_of_forall_not (by simpa using hnone)]
    | some x =>
      have hid : x.id = v.id := by simpa using List.find?_some hf
      have hne : x.comment ≠ i := fun heq =>
        hi (heq.symm.trans (hv x (List.mem_of_find?_eq_some hf) hid))
      rw [Table.sum_remove hf]
      simp [ofComment, hne]

theorem settleVotes_ok {comment : Nat} {l : List CommentVote}
    (hk : d.core.commentVotes.Keyed CommentVote.id)
    (hl : ∀ v ∈ l, ∀ u ∈ d.core.commentVotes.rows, u.id = v.id → u.comment = comment)
    (h : l.foldlM (settleVote comment) d = .ok d') :
    d'.core = { d.core with commentVotes := d'.core.commentVotes } ∧
      VotesSettled comment d.core.commentVotes d'.core.commentVotes := by
  refine run_induction (P := fun _ e => e.core = { d.core with commentVotes := e.core.commentVotes } ∧
    VotesSettled comment d.core.commentVotes e.core.commentVotes) h
    ⟨rfl, hk, fun v hv => ⟨v, hv, rfl, rfl⟩, fun _ _ _ => rfl⟩ ?_
  intro _ e v e' ⟨hcore, hsettled⟩ hv hstep
  obtain ⟨hcore', hsettled'⟩ := settleVote_ok hsettled.keyed (fun u hu huv => by
    obtain ⟨w, hw, hwid, hwu⟩ := hsettled.known u hu
    exact hwu ▸ hl v hv w hw (hwid.trans huv)) hstep
  exact ⟨by rw [hcore', hcore], hsettled.trans hsettled'⟩

/-- The payout of a comment settles it: it counts as paid from then on. -/
theorem cashoutCommentHelper_settled {ctx : CommentRewardContext} {comment : Nat} :
    ⦃⌜d.ledger.Known⌝⦄ d.cashoutCommentHelper ctx comment
      ⦃⇓? r => ⌜Ledger.Settled d.ledger r.1.ledger⌝⦄ := by
  apply triple_of
  rintro hk ⟨d', claimed⟩ h
  obtain ⟨c, hc, h⟩ := bind_ok.1 h
  obtain ⟨⟨d₁, x⟩, hpay, h⟩ := bind_ok.1 h
  obtain ⟨d₂, hclose, h⟩ := bind_ok.1 h
  obtain ⟨d₃, hsettle, h⟩ := bind_ok.1 h
  cases h
  have hcore₁ : d₁.core = d.core := of_triple payReward_core trivial hpay
  obtain ⟨x, hx, hxid, y, hxy, hcore₂⟩ := modifyComment_tally (by rw [hcore₁]; exact hk.ids)
    (fun c => by mvcgen) (fun c => by mvcgen) hclose
  cases hxy
  rw [hcore₁] at hcore₂
  have hvotes : d₂.commentVotes = d.commentVotes := congrArg Core.commentVotes hcore₂
  -- the votes settled are those for the comment, and ids tell them from the others
  have hits : ∀ v ∈ sortOn CommentVote.voter CommentVote.id
      (d₂.commentVotes.rows.filter fun v => v.comment == comment),
      ∀ u ∈ d₂.commentVotes.rows, u.id = v.id → u.comment = comment := by
    intro v hv u hu huv
    rw [hvotes] at hv hu
    obtain ⟨hmem, hcomment⟩ := List.mem_filter.1 ((List.mem_insertionSort _).1 hv)
    rw [List.inj_on_of_nodup_map hk.keyed.nodup hu hmem huv]
    simpa using hcomment
  obtain ⟨hcore₃, hsettled⟩ := settleVotes_ok (by rw [hcore₂]; exact hk.keyed) hits hsettle
  have hsame : d'.core = { d.core with
      tallies := setTally (d₁.closeComment x).tally d.core.tallies
      commentVotes := d'.core.commentVotes } := by
    rw [hcore₃, hcore₂]
  have htallies : d'.core.tallies = setTally (d₁.closeComment x).tally d.core.tallies := by
    rw [hsame]
  have hid : (d₁.closeComment x).tally.id = comment := hxid
  have hlast : (d₁.closeComment x).tally.lastPayout ≠ 0 := by
    show d₁.core.time ≠ 0
    rw [hcore₁]
    exact Nat.ne_of_gt (Nat.lt_trans (by decide) hk.time)
  rw [hcore₂] at hsettled
  have hids : d'.core.tallies.map CommentTally.id = d.core.tallies.map CommentTally.id := by
    rw [htallies, setTally_ids]
  rw [← htallies] at hsame
  refine ⟨congrArg Core.ledger hsame, hids, hsettled.keyed, ?_, ?_⟩
  · intro v hv
    obtain ⟨u, hu, -, huv⟩ := hsettled.known v hv
    exact ⟨u, hu, huv⟩
  · intro t ht hunpaid
    change t ∈ d'.core.tallies at ht
    rw [htallies] at ht
    rcases mem_setTally ht with rfl | ⟨ht, hne⟩
    · exact absurd hunpaid hlast
    · exact ⟨ht, hsettled.others t.id (hid ▸ hne)⟩

theorem cashoutReply_settled {price : Price} {comment : Nat} :
    ⦃⌜d.ledger.Known⌝⦄ cashoutReply price d comment ⦃⇓? d' => ⌜Ledger.Settled d.ledger d'.ledger⌝⦄ := by
  have hcashoutCommentHelper := @cashoutCommentHelper_settled
  mvcgen [cashoutReply, hcashoutCommentHelper, modifyGpo_core]
  all_goals grind [ledger]

theorem cashoutFirst_settled {price : Price} {funds : List RewardFundContext} {c : Comment} :
    ⦃⌜d.ledger.Known⌝⦄ cashoutFirst price d funds c
      ⦃⇓? r => ⌜Ledger.Settled d.ledger r.1.ledger⌝⦄ := by
  have hcashoutCommentHelper := @cashoutCommentHelper_settled
  have hcashoutReply := @cashoutReply_settled
  mvcgen [cashoutFirst, hcashoutCommentHelper, hcashoutReply] invariants
  · ⇓? r => ⌜Ledger.Settled d.ledger r.2.ledger⌝
  all_goals grind [ledger, Ledger.Settled.refl, Ledger.Settled.trans, Ledger.Settled.keeps]

theorem cashoutLoop_settled {price : Price} {fuel : Nat} {funds : List RewardFundContext} :
    ⦃⌜d.ledger.Known⌝⦄ cashoutLoop price fuel d funds
      ⦃⇓? r => ⌜Ledger.Settled d.ledger r.1.ledger⌝⦄ := by
  have hcashoutFirst := @cashoutFirst_settled
  induction fuel generalizing d funds with
  | zero => mvcgen [cashoutLoop]
  | succ fuel ih =>
    mvcgen [cashoutLoop, hcashoutFirst, ih]
    all_goals grind [ledger, Ledger.Settled.refl, Ledger.Settled.trans, Ledger.Settled.keeps]

theorem processCommentCashout_settled :
    ⦃⌜d.ledger.Known⌝⦄ d.processCommentCashout ⦃⇓? d' => ⌜Ledger.Settled d.ledger d'.ledger⌝⦄ := by
  have hcashoutLoop := @cashoutLoop_settled
  mvcgen [processCommentCashout, modifyRewardFund_core, decayClaims, hcashoutLoop,
    writeFund] invariants
  · ⇓? r => ⌜r.2.core = d.core⌝
  · ⇓? _ => ⌜True⌝
  · ⇓? r => ⌜Ledger.Settled d.ledger r.2.ledger⌝
  · ⇓? r => ⌜Ledger.Settled d.ledger r.2.ledger⌝
  all_goals grind [ledger, Ledger.Settled.refl, Ledger.Settled.trans, Ledger.Settled.keeps]

theorem settle_settled {w : Name} :
    ⦃⌜d.ledger.Known⌝⦄ d.settle w ⦃⇓? d' => ⌜Ledger.Settled d.ledger d'.ledger⌝⦄ := by
  have hprocessCommentCashout := @processCommentCashout_settled
  mvcgen [settle, updateMedianFeed_core, updateVirtualSupply_core, clearNullAccountBalance_core,
    processFunds_core, processConversions_core, hprocessCommentCashout,
    processTMEfundForSCOREwithdrawals_core, processSavingsWithdraws_core, payLiquidityReward_core,
    accountRecoveryProcessing_core, expireEscrowRatification_core, processDeclineVotingRights_core]
  all_goals grind [ledger, Core.ledger]

/- Before the hardforks a block ends with its payouts. -/
theorem endBlock_settled {w : Name} {versions : Name → WitnessVersion} :
    ⦃⌜d.ledger.Known⌝⦄ d.endBlock w versions
      ⦃⇓? d' => ⌜∃ d₁ : Database, Ledger.Settled d.ledger d₁.ledger ∧
        d₁.processHardforks = .ok d'⌝⦄ := by
  have hsettle := @settle_settled
  have hfork : ∀ d : Database, ⦃⌜True⌝⦄ d.processHardforks
      ⦃⇓? d' => ⌜d.processHardforks = .ok d'⌝⦄ := fun _ => triple_ok
  mvcgen [endBlock, clearExpiredOrders_core, clearExpiredDelegations_core,
    updateWitnessSchedule_core, hsettle, hfork]
  all_goals grind [ledger, Core.ledger]

end Database
end WeNode.Chain
