import WeNode.Chain.VoteLedger
import WeNode.Chain.CommentBlocks

/-!
# The votes in every reachable state

Operations, payouts and hardforks are steps of the books.
-/

set_option mvcgen.warning false

namespace WeNode.Chain

open WeNode.Lib Std.Do Relation

namespace Database

variable {d d' : Database}

/- Some steps of the books. -/
def Steps (d d' : Database) : Prop := ReflTransGen Ledger.Step d.ledger d'.ledger

theorem Steps.of_core (h : d'.core = d.core) : Steps d d' := by
  unfold Steps ledger
  rw [h]

/-! ### Operations -/

theorem newComment_same (o : CommentOperation) (parent : Option Comment) (weight id : Nat) :
    (o.newComment d parent weight id).node.id = id ∧
      (o.newComment d parent weight id).node.created = d.headBlockTime ∧
      (o.newComment d parent weight id).tally = ⟨id, 0, 0, 0, 0, 0⟩ := by
  cases parent <;> simp only [CommentOperation.newComment] <;> split <;> exact ⟨rfl, rfl, rfl⟩

theorem ledger_create (row : Nat → Comment) :
    ledger { d with comments := d.comments.create row } = { d.ledger with
      comments := d.ledger.comments ++ [(row d.comments.nextId).node]
      nextComment := d.ledger.nextComment + 1
      tallies := d.ledger.tallies ++ [(row d.comments.nextId).tally] } := by
  simp [ledger, Core.ledger, core, Table.create]

theorem place_ledger {o : CommentOperation} {parent : Option Comment} {weight : Nat} {now : Time}
    (h : o.place d parent weight now = .ok d') :
    d'.ledger = { d.ledger with
      comments := d.ledger.comments ++ [(o.newComment d parent weight d.comments.nextId).node]
      nextComment := d.ledger.nextComment + 1
      tallies := d.ledger.tallies ++ [(o.newComment d parent weight d.comments.nextId).tally] } := by
  rw [← ledger_create]
  unfold CommentOperation.place at h
  cases parent with
  | none =>
    cases h
    rfl
  | some p =>
    have hcore := of_triple (walkParents_core (fun _ => by rfl) (fun _ => by rfl)) trivial h
    exact (congrArg Core.ledger hcore).trans rfl

theorem create_steps {o : CommentOperation} {a : Account} {parent : Option Comment}
    (h : o.create d a parent = .ok d') : Steps d d' := by
  obtain ⟨d₁, weight, now, hd₁, hplace⟩ := of_triple CommentOperation.create_spec trivial h
  obtain ⟨hid, hcreated, htally⟩ :=
    newComment_same (d := d₁) o parent weight d₁.comments.nextId
  refine (Steps.of_core hd₁).tail ?_
  rw [place_ledger hplace, htally]
  exact .commented _ hid hcreated

theorem dropComment_steps {c : Comment} (h : dropComment d c = .ok d') : Steps d d' := by
  rw [dropComment_eq] at h
  obtain ⟨d₁, h₁, h⟩ := bind_ok.1 h
  cases h
  have hcore : d₁.core = { (d.dropVotes c.id).core with children := d₁.core.children } := by
    unfold uncountReply at h₁
    split at h₁
    · exact of_triple (walkParents_core (fun _ => by rfl) (fun _ => by rfl)) trivial h₁
    · cases h₁
      rfl
  refine .single ?_
  have hledger : ledger { d₁ with comments := d₁.comments.remove fun x => x.id == c.id } =
      { d.ledger with
        comments := d.ledger.comments.eraseP fun n => n.id == c.id
        tallies := d.ledger.tallies.eraseP fun t => t.id == c.id
        commentVotes := { d.ledger.commentVotes with
          rows := d.ledger.commentVotes.rows.filter fun v => v.comment != c.id } } := by
    have hd₁ : d₁.ledger = (d.dropVotes c.id).ledger :=
      (congrArg Core.ledger hcore).trans rfl
    calc
      _ = { d₁.ledger with
          comments := d₁.ledger.comments.eraseP fun n => n.id == c.id
          tallies := d₁.ledger.tallies.eraseP fun t => t.id == c.id } := by
        simp [ledger, Core.ledger, core, Table.remove, List.eraseP_map, Function.comp_def,
          Comment.node, Comment.tally]
      _ = _ := by
        rw [hd₁]
        rfl
  rw [hledger]
  exact .deleted c.id

theorem applyVote_steps {o : VoteOperation} (hk : d.ledger.Known) (h : o.apply d = .ok d') :
    Steps d d' := by
  rcases of_triple VoteOperation.apply_spec trivial h with
    rfl | ⟨c, a, p, hc, hnew | ⟨v, hv, hchange | ⟨h12, hnew⟩⟩⟩
  · exact .refl
  · obtain ⟨v, most, hvote⟩ := VoteOperation.newVote_ledger hk (getComment_ok hc).1 hnew
    exact .single (.voted hvote)
  · have hfor := List.find?_some hv
    simp only [Bool.and_eq_true, beq_iff_eq] at hfor
    obtain ⟨v', hvote⟩ := VoteOperation.changeVote_ledger hk (getComment_ok hc).1
      (List.mem_of_find?_eq_some hv) hfor.1 hchange
    exact .single (.changed hvote)
  · have hdrop : Ledger.Step d.ledger (dropVote d v).ledger := by
      have hold : d.hardforks.processedHardforks.length ≤ 12 := by simpa [hasHardfork] using h12
      exact .dropped v.id hold
    obtain ⟨v', most, hvote⟩ := VoteOperation.newVote_ledger (d := dropVote d v) (hk.step hdrop)
      (getComment_ok hc).1 hnew
    exact .tail (.single hdrop) (.voted hvote)

theorem applyOperation_steps {w : Name} {o : Operation} (hk : d.ledger.Known)
    (h : applyOperation w d o = .ok d') : Steps d d' := by
  cases o with
  | vote op => exact applyVote_steps hk h
  | comment op =>
    rcases of_triple applyComment_spec trivial h with hcore | ⟨parent, a, -, -, hcreate⟩
    · exact .of_core hcore
    · exact create_steps hcreate
  | deleteComment op =>
    obtain ⟨c, -, -, rfl | hdrop⟩ :=
      of_triple (DeleteCommentOperation.apply_spec (d := d)) trivial h
    · exact .refl
    · exact dropComment_steps hdrop
  | _ =>
    have hcore := of_triple applyOperation_core trivial h
    have hledger : d'.ledger = d.ledger := by
      unfold ledger
      rw [hcore]
      rfl
    unfold Steps
    rw [hledger]

/-! ### Hardforks -/

/- Hardfork 1 is the only one that changes what comments hold of their votes. -/
theorem hardforkStep_tallies {n : Nat} (hn : n ≠ 1) :
    ⦃⌜True⌝⦄ d.hardforkStep n ⦃⇓? d' => ⌜d'.core.tallies = d.core.tallies⌝⦄ := by
  unfold hardforkStep
  mvcgen [retallyWitnessVotes_core, resetVirtualScheduleTime_core, retallyCommentChildren_core,
    applyHardfork12_core, applyHardfork17_core, applyHardfork19_core]
  all_goals grind [core, retallyWitnessVoteCounts_core]

theorem hardforkStep_rewardFunds {n : Nat} (h17 : n ≠ 17) (h19 : n ≠ 19) :
    ⦃⌜True⌝⦄ d.hardforkStep n ⦃⇓? d' => ⌜d'.core.rewardFunds = d.core.rewardFunds ∧
      d'.core.nextRewardFund = d.core.nextRewardFund⌝⦄ := by
  unfold hardforkStep
  mvcgen [performSCOREsplit_core, retallyWitnessVotes_core, resetVirtualScheduleTime_core,
    retallyCommentChildren_core, applyHardfork12_core]
  all_goals grind [core, retallyWitnessVoteCounts_core]

theorem applyHardfork17_made (h : d.applyHardfork17 = .ok d') :
    d'.core.rewardFunds.length = d.core.rewardFunds.length + 1 ∧
      d'.core.nextRewardFund = d.core.nextRewardFund + 1 ∧ d'.core.nextRewardFund = 1 := by
  obtain ⟨d₁, h₁, h⟩ := bind_ok.1 h
  rw [of_triple extendCashout_core trivial h]
  obtain ⟨_, hone, h₁⟩ := bind_ok.1 h₁
  cases h₁
  exact ⟨by simp [core, Table.create], rfl, require_ok hone⟩

theorem applyHardfork19_set (h : d.applyHardfork19 = .ok d') :
    d'.core.rewardFunds.length = d.core.rewardFunds.length ∧
      d'.core.nextRewardFund = d.core.nextRewardFund ∧
      ∃ r ∈ d'.core.rewardFunds, r.2.2 = .squareRoot := by
  obtain ⟨fund, -, h⟩ := bind_ok.1 h
  obtain ⟨d₁, h₁, h⟩ := bind_ok.1 h
  cases h
  unfold modifyRewardFund at h₁
  obtain ⟨t, ht, rfl⟩ := of_modify h₁
  obtain ⟨x, y, hxy, hrep, hnext⟩ := Table.modify_ok ht
  have hcurve : y.curationRewardCurve = .squareRoot := by
    cases hxy
    rfl
  obtain ⟨pre, post, hpre, hpost, -⟩ := hrep.split
  refine ⟨?_, hnext, ?_⟩
  · show (t.rows.map RewardFund.key).length = (d.rewardFunds.rows.map RewardFund.key).length
    rw [List.length_map, List.length_map, hpost]
    exact (congrArg List.length hpre).symm ▸ by simp
  · refine ⟨y.key, List.mem_map_of_mem (f := RewardFund.key) (l := t.rows) ?_, hcurve⟩
    rw [hpost]
    exact List.mem_append_right _ List.mem_cons_self

theorem applyHardfork_upgrade {n : Nat} (h : d.applyHardfork n = .ok d') :
    Ledger.Upgrade d.ledger d'.ledger n := by
  obtain ⟨-, hlength, hforks, -⟩ := applyHardfork_hardforks h
  have hcore := of_triple applyHardfork_core trivial h
  obtain ⟨d₁, h₁, h⟩ := bind_ok.1 h
  obtain ⟨_, -, h⟩ := bind_ok.1 h
  obtain ⟨_, -, h⟩ := bind_ok.1 h
  cases h
  have hstep := of_triple hardforkStep_core trivial h₁
  constructor
  · exact hlength
  · show (d₁.hardforks.processedHardforks ++ [hardforkTime n]).length = n + 1
    have happlied : d₁.hardforks.processedHardforks ++ [hardforkTime n] =
        d.hardforks.processedHardforks ++ [hardforkTime n] :=
      congrArg HardforkProperties.processedHardforks hforks
    rw [happlied, List.length_append, hlength]
    rfl
  · exact (congrArg Core.ledger hcore).trans rfl
  · show d₁.core.tallies.map CommentTally.id = d.core.tallies.map CommentTally.id
    rw [tallies_ids, tallies_ids, hstep]
  · intro hn
    have htallies := of_triple (hardforkStep_tallies hn) trivial h₁
    exact htallies
  · intro hn
    by_cases h19 : n = 19
    · subst h19
      obtain ⟨hlen, hnext, -⟩ := applyHardfork19_set h₁
      exact ⟨hlen, hnext⟩
    · obtain ⟨hfunds, hnext⟩ := of_triple (hardforkStep_rewardFunds hn h19) trivial h₁
      exact ⟨congrArg List.length hfunds, hnext⟩
  · rintro rfl
    have hmade := applyHardfork17_made h₁
    exact hmade
  · rintro rfl
    have hset := applyHardfork19_set h₁
    exact hset.2.2
  · intro hn
    have hkept := of_triple (hardforkStep_rewardFunds (by omega) (by omega)) trivial h₁
    exact hkept.1

theorem processHardforks_steps (h : d.processHardforks = .ok d') : Steps d d' := by
  obtain ⟨hs, hrun, -⟩ := processHardforks_applies h
  refine run_induction (P := fun _ e => Steps d e) hrun .refl ?_
  intro _ d₁ n d₂ hsteps _ hstep
  exact hsteps.tail (.upgraded (applyHardfork_upgrade hstep))

end Database

namespace ChainState

variable {env : Env} {skip : Skip} {s s' : ChainState} {b : Block}

theorem initGenesis_known (supply : Int) : (initGenesis supply).db.ledger.Known where
  time := (by decide : hardfork06ReverseAuctionTime < genesisTime)
  ids := List.nodup_nil
  tallies := rfl
  fresh := nofun
  keyed := .empty
  known := nofun
  funds := rfl
  fund := Nat.zero_le 1
  curve := nofun

/- A block is some steps of the books. -/
theorem applyBlock_steps (hk : s.db.ledger.Known) (h : s.applyBlock env skip b = .ok s') :
    s.db.Steps s'.db := by
  obtain ⟨s₁, s₂, hstart, htransactions, hfinish⟩ := applyBlock_ok.1 h
  obtain ⟨hcheck, -, -⟩ := startBlock_ok.1 hstart
  obtain ⟨-, htime, -⟩ := Database.validateBlockHeader_ok.1 (checkBlock_ok.1 hcheck).2.1
  obtain ⟨hsame, hops⟩ : s₂.db.core.time = s.db.core.time ∧ s.db.Steps s₂.db := by
    refine applyTransactions_induction
      (P := fun d => d.core.time = s.db.core.time ∧ s.db.Steps d) htransactions
      (by rw [(startBlock_keeps hstart).1]; exact ⟨rfl, .refl⟩) ?_
    rintro w d o d' ⟨hsame, hd⟩ ho
    refine ⟨?_, hd.trans (Database.applyOperation_steps (hk.steps hd) ho)⟩
    rw [← hsame, of_triple applyOperation_core trivial ho]
  obtain ⟨d₁, d₂, d₃, d₄, h₁, h₂, h₃, h₄, rfl⟩ := finishBlock_ok.1 hfinish
  have hclock : (d₃.createBlockSummary env b).ledger =
      { s₂.db.ledger with time := b.timestamp } := by
    unfold Database.ledger
    rw [Database.core_createBlockSummary,
      of_triple Database.updateLastIrreversibleBlock_core trivial h₃,
      of_triple Database.updateSigningWitness_core trivial h₂,
      of_triple Database.updateGlobalDynamicData_core trivial h₁]
    rfl
  have hbefore : s.db.Steps (d₃.createBlockSummary env b) := by
    refine hops.tail ?_
    rw [hclock]
    refine .clock b.timestamp ?_
    show s₂.db.core.time < b.timestamp
    rw [hsame]
    exact htime
  obtain ⟨d₅, hsettled, hprocess⟩ := of_triple Database.endBlock_settled (hk.steps hbefore) h₄
  exact (hbefore.tail (.settled hsettled)).trans (Database.processHardforks_steps hprocess)

theorem Reachable.known (h : Reachable env s) : s.db.ledger.Known := by
  induction h with
  | genesis => exact initGenesis_known initSupply
  | block b _ hb ih => exact ih.steps (applyBlock_steps ih hb)

/-! ### Runs since hardfork 19 -/

/-- The states that blocks lead to from a state. -/
def Follows (env : Env) : ChainState → ChainState → Prop :=
  ReflTransGen fun s s' => ∃ b, s.applyBlock env .nothing b = .ok s'

theorem Follows.steps {s₀ : ChainState} (hk : s₀.db.ledger.Known) (h : Follows env s₀ s) :
    s₀.db.Steps s.db := by
  induction h with
  | refl => exact .refl
  | tail _ hb ih =>
    obtain ⟨b, hb⟩ := hb
    exact ih.trans (applyBlock_steps (hk.steps ih) hb)

/-- `d` is what an operation of the block `b` is applied to. -/
def Passes (env : Env) (s : ChainState) (b : Block) (d : Database) : Prop :=
  ∃ s₁ s₂ before after t ops rest, b.transactions = before ++ t :: after ∧
    s.startBlock env .nothing b = .ok s₁ ∧
    before.foldlM (applyTransaction env .nothing) s₁ = .ok s₂ ∧
    t.operations = ops ++ rest ∧
    ops.foldlM (Database.applyOperation s₂.currentWitness) s₂.db = .ok d

theorem Passes.steps {d : Database} (hk : s.db.ledger.Known) (h : Passes env s b d) :
    s.db.Steps d := by
  obtain ⟨s₁, s₂, before, after, t, ops, rest, -, hstart, htransactions, -, hops⟩ := h
  have hsteps : s.db.Steps s₂.db := by
    refine applyTransactions_induction (P := fun d => s.db.Steps d) htransactions
      (by rw [(startBlock_keeps hstart).1]; exact .refl) ?_
    intro w d o d' hd ho
    exact hd.trans (Database.applyOperation_steps (hk.steps hd) ho)
  refine run_induction (P := fun _ d => s.db.Steps d) hops hsteps ?_
  intro _ d o d' hd _ ho
  exact hd.trans (Database.applyOperation_steps (hk.steps hd) ho)

end ChainState

/-! ### Vote accounting -/

namespace Database

def votesFor (d : Database) (c : Comment) : List CommentVote :=
  d.commentVotes.rows.filter fun v => v.comment == c.id

/-- The accounts of the votes for a comment. -/
structure VoteAccounts (d : Database) (c : Comment) : Prop where
  net : c.netSCOREreward = ((d.votesFor c).map CommentVote.scoreReward).sum
  count : c.netVotes = (d.votesFor c).countP (fun v => 0 < v.scoreReward) -
    (d.votesFor c).countP fun v => v.scoreReward < 0
  weights : ((d.votesFor c).map CommentVote.weight).sum ≤ c.totalVoteWeight
  fits : c.totalVoteWeight < two64

/-- How a vote changes the weights for the comment `c`, in numbers that do not wrap: it changes
nothing, or a new vote adds its weight, or a changed vote takes it back. -/
inductive VoteExact (d d' : Database) (c c' : Comment) : Prop
  | same : c'.totalVoteWeight = c.totalVoteWeight → d'.votesFor c = d.votesFor c →
    VoteExact d d' c c'
  | new (v : CommentVote) (most : Nat) : d'.votesFor c = d.votesFor c ++ [v] →
    c'.totalVoteWeight = c.totalVoteWeight + most → v.weight ≤ most →
    most = 0 ∨ most + approxSqrt c.voteSCOREreward.toNat = approxSqrt c'.voteSCOREreward.toNat →
    VoteExact d d' c c'
  | changed (v v' : CommentVote) : v ∈ d.votesFor c →
    d'.votesFor c = (d.votesFor c).map (fun u => if u.id = v.id then v' else u) →
    c'.totalVoteWeight + v.weight = c.totalVoteWeight → v'.weight = 0 → VoteExact d d' c c'

variable {d d' : Database} {c c' : Comment}

theorem sum_ofComment (c : Comment) (g : CommentVote → Int) :
    d.commentVotes.sum (ofComment c.id g) = ((d.votesFor c).map g).sum := by
  unfold votesFor Table.sum
  induction d.commentVotes.rows with
  | nil => rfl
  | cons v l ih =>
    rw [List.map_cons, List.sum_cons, ih]
    by_cases hv : v.comment = c.id
    · rw [List.filter_cons_of_pos (by simpa using hv), List.map_cons, List.sum_cons,
        Ledger.ofComment_self hv]
    · rw [List.filter_cons_of_neg (by simpa using hv), Ledger.ofComment_other hv, zero_add]

theorem sum_sign (l : List CommentVote) : (l.map fun v => v.scoreReward.sign).sum =
    (l.countP (fun v => 0 < v.scoreReward) : Int) - l.countP fun v => v.scoreReward < 0 := by
  induction l with
  | nil => rfl
  | cons v l ih =>
    rw [List.map_cons, List.sum_cons, ih, List.countP_cons, List.countP_cons]
    rcases lt_trichotomy v.scoreReward 0 with h | h | h
    · simp [h, Int.sign_eq_neg_one_of_neg h, not_lt_of_gt h]
      omega
    · simp [h]
    · simp [h, Int.sign_eq_one_of_pos h, not_lt_of_gt h]
      omega

theorem VoteAccounts.of_balances (h : d.ledger.Balances c.tally) : d.VoteAccounts c := by
  have hsum : ∀ g, d.commentVotes.sum (ofComment c.id g) = ((d.votesFor c).map g).sum :=
    sum_ofComment c
  constructor
  · exact h.net.trans (hsum _)
  · exact h.count.trans ((hsum _).trans (sum_sign _))
  · have hle : ((d.votesFor c).map fun v => (v.weight : Int)).sum ≤ c.totalVoteWeight := by
      rw [← hsum]
      exact h.weights
    have hcast : ((d.votesFor c).map fun v => (v.weight : Int)).sum =
        (((d.votesFor c).map CommentVote.weight).sum : Nat) := by
      rw [Nat.cast_list_sum, List.map_map]
      rfl
    omega
  · have hroot : c.totalVoteWeight ≤ approxSqrt c.voteSCOREreward.toNat := h.root
    have hbound : c.voteSCOREreward ≤ int64Max := h.votes.2
    refine hroot.trans_lt (approxSqrt_lt ?_)
    unfold int64Max at hbound
    unfold two128
    omega

theorem ChangedVote_rows {l l' : Ledger} {t : CommentTally} {v v' : CommentVote}
    (hk : l.Known) (h : Ledger.ChangedVote l l' t v v') :
    l'.commentVotes.rows = l.commentVotes.rows.map fun u => if u.id = v.id then v' else u := by
  obtain ⟨pre, post, hpre, hpost, -⟩ := h.votes.split
  have hnodup := hk.keyed.nodup
  rw [hpre, List.perm_middle.map _ |>.nodup_iff, List.map_cons, List.nodup_cons] at hnodup
  have hother : ∀ u ∈ pre ++ post, (if u.id = v.id then v' else u) = u := by
    intro u hu
    refine if_neg fun hid => hnodup.1 ?_
    rw [← hid]
    exact List.mem_map_of_mem hu
  rw [hpre, hpost, List.map_append, List.map_cons, if_pos rfl]
  congr 1
  · exact (List.map_id' _).symm.trans (List.map_congr_left fun u hu =>
      (hother u (List.mem_append_left _ hu)).symm)
  · congr 1
    exact (List.map_id' _).symm.trans (List.map_congr_left fun u hu =>
      (hother u (List.mem_append_right _ hu)).symm)

theorem VoteExact.of_new {x : Comment} {v : CommentVote} {most : Nat} (hk : d.ledger.Known)
    (h19 : d.hasHardfork 19) (h : Ledger.NewVote d.ledger d'.ledger x.tally v most)
    (hc : c ∈ d.comments.rows) (hc' : c' ∈ d'.comments.rows) (hid : c'.id = c.id)
    (hb : d.ledger.Balances c.tally) : VoteExact d d' c c' := by
  have h19 : 19 < d.ledger.hardforks.1.length := of_decide_eq_true h19
  have hcomment : v.comment = x.id := h.comment
  have hrows : d'.commentVotes.rows = d.commentVotes.rows ++ [v] :=
    congrArg (fun l : Ledger => l.commentVotes.rows) h.after
  have hmem : c'.tally ∈ d'.ledger.tallies := List.mem_map_of_mem hc'
  rw [h.after] at hmem
  have hvotes : d'.votesFor c = d.votesFor c ++ [v].filter fun v => v.comment == c.id := by
    unfold votesFor
    rw [hrows, List.filter_append]
  by_cases hx : x.id = c.id
  · have hxc : x.tally = c.tally := hk.tally_eq h.mem (List.mem_map_of_mem hc) hx
    rw [hxc] at h hmem
    have hc'tally : c'.tally = c.tally.counted v.scoreReward most :=
      (mem_setTally hmem).resolve_right fun hne => hne.2 hid
    have hvoteSCORE : c'.voteSCOREreward =
        (c.tally.counted v.scoreReward most).voteSCOREreward :=
      congrArg CommentTally.voteSCOREreward hc'tally
    have hw := h.weighs h19 hb.votes.1
    rw [List.filter_cons_of_pos (by simp [hcomment, hx]), List.filter_nil] at hvotes
    refine .new v most hvotes ?_ hw.least ?_
    · exact (congrArg CommentTally.totalVoteWeight hc'tally).trans (h.exact h19 hb).1
    · refine hw.gain.imp_right fun hgain => ?_
      rw [hvoteSCORE]
      have hsum : (c.tally.counted v.scoreReward most).voteSCOREreward =
          c.voteSCOREreward + v.scoreReward := if_pos hgain.1
      rw [hsum]
      exact hgain.2
  · have hc'tally : c'.tally = c.tally := tally_other hk hmem hc hid hx
    rw [List.filter_cons_of_neg (by simpa [hcomment] using hx), List.filter_nil, List.append_nil]
      at hvotes
    exact .same (congrArg CommentTally.totalVoteWeight hc'tally) hvotes

theorem VoteExact.of_changed {x : Comment} {v v' : CommentVote} (hk : d.ledger.Known)
    (h : Ledger.ChangedVote d.ledger d'.ledger x.tally v v') (hc : c ∈ d.comments.rows)
    (hc' : c' ∈ d'.comments.rows) (hid : c'.id = c.id) (hb : d.ledger.Balances c.tally) :
    VoteExact d d' c c' := by
  have hcomment : v.comment = x.id := h.comment
  have hrows : d'.commentVotes.rows =
      d.commentVotes.rows.map fun u => if u.id = v.id then v' else u := ChangedVote_rows hk h
  have hsame : ∀ u ∈ d.commentVotes.rows,
      (if u.id = v.id then v' else u).comment = u.comment := by
    intro u hu
    split
    · next huid =>
      rw [List.inj_on_of_nodup_map hk.keyed.nodup hu h.votes.mem huid]
      exact h.same.2
    · rfl
  have hvotes : d'.votesFor c =
      (d.votesFor c).map fun u => if u.id = v.id then v' else u := by
    unfold votesFor
    rw [hrows, List.filter_map]
    congr 1
    exact List.filter_congr fun u hu => by rw [Function.comp_apply, hsame u hu]
  have hmem : c'.tally ∈ d'.ledger.tallies := List.mem_map_of_mem hc'
  rw [h.tallies] at hmem
  by_cases hx : x.id = c.id
  · have hxc : x.tally = c.tally := hk.tally_eq h.mem (List.mem_map_of_mem hc) hx
    rw [hxc] at h hmem
    have hc'tally : c'.tally = c.tally.recounted v v'.scoreReward :=
      (mem_setTally hmem).resolve_right fun hne => hne.2 hid
    have htotal : c'.totalVoteWeight = (c.tally.recounted v v'.scoreReward).totalVoteWeight :=
      congrArg CommentTally.totalVoteWeight hc'tally
    refine .changed v v' ?_ hvotes ?_ h.weight
    · exact List.mem_filter.2 ⟨h.votes.mem, by simp [hcomment, hx]⟩
    · rw [htotal]
      exact (h.exact hb).1
  · have hc'tally : c'.tally = c.tally := tally_other hk hmem hc hid hx
    refine .same (congrArg CommentTally.totalVoteWeight hc'tally) (hvotes.trans ?_)
    refine (List.map_congr_left fun u hu => ?_).trans (List.map_id' _)
    obtain ⟨humem, hufor⟩ := List.mem_filter.1 hu
    refine if_neg fun huid => hx ?_
    rw [← hcomment, ← List.inj_on_of_nodup_map hk.keyed.nodup humem h.votes.mem huid]
    simpa using hufor

theorem VoteExact.of_apply {o : VoteOperation} (hk : d.ledger.Known) (h19 : d.hasHardfork 19)
    (h : o.apply d = .ok d') (hc : c ∈ d.comments.rows) (hc' : c' ∈ d'.comments.rows)
    (hid : c'.id = c.id) (hb : d.ledger.Balances c.tally) : VoteExact d d' c c' := by
  rcases of_triple VoteOperation.apply_spec trivial h with
    rfl | ⟨x, a, p, hx, hnew | ⟨v, hv, hchange | ⟨h12, -⟩⟩⟩
  · rw [comment_eq_of_id hk.ids hc' hc hid]
    exact .same rfl rfl
  · obtain ⟨v, most, hvote⟩ := VoteOperation.newVote_ledger hk (getComment_ok hx).1 hnew
    exact .of_new hk h19 hvote hc hc' hid hb
  · have hfor := List.find?_some hv
    simp only [Bool.and_eq_true, beq_iff_eq] at hfor
    obtain ⟨v', hvote⟩ := VoteOperation.changeVote_ledger hk (getComment_ok hx).1
      (List.mem_of_find?_eq_some hv) hfor.1 hchange
    exact .of_changed hk hvote hc hc' hid hb
  · simp only [hasHardfork, decide_eq_true_eq, decide_eq_false_iff_not] at h19 h12
    omega

end Database

namespace ChainState

variable {env : Env} {s₀ s : ChainState}

/-- In every state since hardfork 19, the votes for a comment that was made since and is not paid
are counted in full, and no vote for it makes a weight wrap. -/
theorem Reachable.vote_accounts (h₀ : Reachable env s₀) (h19 : s₀.db.hasHardfork 19)
    (h : Follows env s₀ s) :
    (∀ c ∈ s.db.comments.rows, s₀.db.comments.nextId ≤ c.id → c.lastPayout = 0 →
      s.db.VoteAccounts c) ∧
    ∀ b d, Passes env s b d → ∀ (o : VoteOperation) d', o.apply d = .ok d' →
      ∀ c ∈ d.comments.rows, ∀ c' ∈ d'.comments.rows, c'.id = c.id →
        s₀.db.comments.nextId ≤ c.id → c.lastPayout = 0 → d.VoteExact d' c c' := by
  have hk₀ := h₀.known
  have hbooks := hk₀.balanced.steps hk₀ (of_decide_eq_true h19) (h.steps hk₀)
  obtain ⟨hb, hk, h19⟩ := hbooks
  refine ⟨fun c hc hbase hunpaid => ?_, fun b d hd o d' ho c hc c' hc' hid hbase hunpaid => ?_⟩
  · exact .of_balances (hb c.tally (List.mem_map_of_mem hc) hbase hunpaid)
  · obtain ⟨hb, hk, h19⟩ := hb.steps hk h19 (hd.steps hk)
    exact .of_apply hk (decide_eq_true h19) ho hc hc' hid
      (hb c.tally (List.mem_map_of_mem hc) hbase hunpaid)

end ChainState
theorem ChainState.Follows.produce {extensions : List HeaderExtension} {s s' : ChainState}
    {blocks : List (List Transaction)}
    (hrun : blocks.foldlM (ChainState.produce extensions) s = .ok s') : Follows .plain s s' := by
  refine run_induction (P := fun _ e => Follows .plain s e) hrun .refl ?_
  intro _ e _ e' he _ hstep
  obtain ⟨b, -, hb⟩ := bind_ok.1 hstep
  exact he.tail ⟨b, hb⟩

/- A post of a genesis account and its own vote for it. -/
def demoPost : Transaction := { demoComment 1 rootPostParent [97, 98] [97, 98, 99] with
  expiration := genesisTime + 600 }

def demoUpvote : Transaction := { demoPost with
  expiration := genesisTime + 601
  operations := [.vote {
    voter := Database.genesisAccountName 1
    author := Database.genesisAccountName 1
    permlink := [97, 98, 99]
    weight := 10000 }] }

/-- A post made and voted for right after hardfork 19. -/
theorem vote_accounts_demo : ∃ s₀ s : ChainState, s₀.db.hasHardfork 19 ∧
    s₀.db.comments.rows = [] ∧ s.db.commentVotes.rows.map CommentVote.scoreReward = [33400] ∧
    ∀ c ∈ s.db.comments.rows, c.lastPayout = 0 → s.db.VoteAccounts c := by
  have h : ((List.replicate 101 []).foldlM (ChainState.produce demoVote)
      (ChainState.initGenesis initSupply) >>= fun s₀ =>
        [[demoPost], [demoUpvote]].foldlM (ChainState.produce demoVote) s₀ >>= fun s =>
          .ok (s₀, s)).map (fun s => (s.1.db.hasHardfork 19, s.1.db.comments.nextId,
            s.1.db.comments.rows.isEmpty, s.2.db.commentVotes.rows.map CommentVote.scoreReward)) =
      .ok (true, 0, true, [33400]) := by
    decide +kernel
  obtain ⟨⟨s₀, s⟩, hrun, hs⟩ := map_ok.1 h
  obtain ⟨s₀', h₀, hrun⟩ := bind_ok.1 hrun
  obtain ⟨s', h', hrun⟩ := bind_ok.1 hrun
  cases hrun
  obtain ⟨h19, hs⟩ := Prod.mk.inj hs
  obtain ⟨hnext, hs⟩ := Prod.mk.inj hs
  obtain ⟨hnone, hvotes⟩ := Prod.mk.inj hs
  have haccounts := (ChainState.Reachable.vote_accounts (.produce .genesis h₀) h19
    (.produce h')).1
  refine ⟨s₀, s, h19, List.isEmpty_iff.1 hnone, hvotes, fun c hc => haccounts c hc ?_⟩
  exact hnext ▸ Nat.zero_le c.id

end WeNode.Chain
