import WeNode.Chain.VoteChanges
import WeNode.Lib.KeyedRows

/-!
# What a vote changes in the table of votes

There is one vote of a voter for a comment.  An operation on a comment that is not paid leaves the
voter's own vote and no other one changed.
-/

namespace WeNode.Chain

open WeNode.Lib

/- The key of `by_comment_voter` -/
def CommentVote.pair (v : CommentVote) : Nat × Nat := (v.comment, v.voter)

namespace Database

def findCommentVote (d : Database) (comment voter : Nat) : Option CommentVote :=
  d.commentVotes.find fun v => v.comment == comment && v.voter == voter

/- The author of a comment. -/
def authorOf (d : Database) (comment : Nat) : Option Name :=
  (d.comments.find fun c => c.id == comment).map Comment.author

/-- Ids tell comments and votes apart, and a vote its voter and comment. -/
structure KnowsVotes (d : Database) : Prop where
  comments : (d.comments.rows.map Comment.id).Nodup
  keyed : d.commentVotes.Keyed CommentVote.id
  pairs : (d.commentVotes.rows.map CommentVote.pair).Nodup

variable {d d' : Database}

theorem KnowsVotes.empty : KnowsVotes {} := ⟨List.nodup_nil, Table.Keyed.empty, List.nodup_nil⟩

theorem findCommentVote_eq (comment voter : Nat) :
    d.findCommentVote comment voter =
      lookup CommentVote.pair d.commentVotes.rows (comment, voter) := by
  unfold findCommentVote lookup Table.find CommentVote.pair
  refine congrArg (fun p => d.commentVotes.rows.find? p) (funext fun v => ?_)
  simp [Bool.beq_eq_decide_eq, Bool.decide_and]

/-! ### Comments and accounts by their place -/

theorem findComment_node (author : Name) (permlink : Bytes) :
    (d.findComment author permlink).map Comment.node = d.core.comments.find? fun n =>
      n.key.author == author && n.key.permlink == cString permlink := by
  unfold findComment Table.find core
  rw [List.find?_map]
  rfl

theorem findAccount_counts (name : Name) :
    (d.findAccount name).map Account.counts = d.core.counts.find? fun n => n.name == name := by
  unfold findAccount Table.find core
  rw [List.find?_map]
  rfl

theorem authorOf_node (i : Nat) :
    d.authorOf i = (d.core.comments.find? fun n => n.id == i).map fun n => n.key.author := by
  unfold authorOf Table.find core
  rw [List.find?_map, Option.map_map]
  rfl

theorem authorOf_getComment {author : Name} {permlink : Bytes} {c : Comment} (hk : d.KnowsVotes)
    (h : d.getComment author permlink = .ok c) : d.authorOf c.id = some author := by
  obtain ⟨hmem, hauthor⟩ : c ∈ d.comments.rows ∧ c.author = author := by
    have hfind := found_ok h
    have hkey := List.find?_some hfind
    simp only [Bool.and_eq_true, beq_iff_eq] at hkey
    exact ⟨List.mem_of_find?_eq_some hfind, hkey.1⟩
  have hrow : d.comments.row Comment.id c.id = some c := Table.row_of_nodup hk.comments hmem rfl
  unfold authorOf
  rw [show (d.comments.find fun x => x.id == c.id) = some c from hrow, ← hauthor]
  rfl

theorem getComment_frame {author : Name} {permlink : Bytes} {c : Comment}
    (hsame : d'.core.comments = d.core.comments) (h : d.getComment author permlink = .ok c) :
    ∃ c', d'.getComment author permlink = .ok c' ∧ c'.id = c.id := by
  have hnode := findComment_node (d := d') author permlink
  rw [hsame, ← findComment_node, found_ok h] at hnode
  obtain ⟨c', hc', hnode⟩ := Option.map_eq_some_iff.1 hnode
  refine ⟨c', ?_, congrArg CommentNode.id hnode⟩
  unfold getComment
  rw [hc']
  rfl

theorem getAccount_frame {name : Name} {a : Account} (hsame : d'.core.counts = d.core.counts)
    (h : d.getAccount name = .ok a) : ∃ a', d'.getAccount name = .ok a' ∧ a'.id = a.id := by
  have hcounts := findAccount_counts (d := d') name
  rw [hsame, ← findAccount_counts, found_ok h] at hcounts
  obtain ⟨a', ha', hcounts⟩ := Option.map_eq_some_iff.1 hcounts
  refine ⟨a', ?_, congrArg AccountCounts.id hcounts⟩
  unfold getAccount
  rw [ha']
  rfl

end Database

/-! ### The table after a vote -/

/-- The vote of the pair is `v`, and the other votes are what they were. -/
structure Cast (t t' : Table CommentVote) (pair : Nat × Nat) (v : CommentVote) : Prop where
  keyed : t'.Keyed CommentVote.id
  pairs : (t'.rows.map CommentVote.pair).Nodup
  own : lookup CommentVote.pair t'.rows pair = some v
  others : without CommentVote.pair pair t'.rows = without CommentVote.pair pair t.rows

namespace Cast

variable {t t₁ t' : Table CommentVote} {pair : Nat × Nat} {v w : CommentVote}

/- A vote that there was none of. -/
theorem create (hk : t.Keyed CommentVote.id) (hn : (t.rows.map CommentVote.pair).Nodup)
    (hnone : lookup CommentVote.pair t.rows pair = none) (hid : v.id = t.nextId)
    (hpair : v.pair = pair) : Cast t (t.create fun _ => v) pair v where
  keyed := hk.create (r := fun _ => v) hid
  pairs := by
    have hnew := lookup_none.1 hnone
    show ((t.rows ++ [v]).map CommentVote.pair).Nodup
    rw [List.map_append, List.map_singleton, hpair]
    exact List.Nodup.append hn (List.nodup_singleton pair) (List.disjoint_singleton.2 hnew)
  own := (lookup_append_new hnone hpair).trans (if_pos rfl)
  others := by
    show (t.rows ++ [v]).filter _ = _
    rw [List.filter_append, List.filter_cons_of_neg (by simp [hpair]), List.filter_nil,
      List.append_nil]
    rfl

/- A vote in the place of another one. -/
theorem replace (hk : t.Keyed CommentVote.id) (hn : (t.rows.map CommentVote.pair).Nodup)
    (hrep : Table.Replaced (fun u => u.id == v.id) t.rows t'.rows v w)
    (hnext : t'.nextId = t.nextId) (hid : w.id = v.id) (hpair : w.pair = v.pair) :
    Cast t t' v.pair w := by
  have hids : t'.rows.map CommentVote.id = t.rows.map CommentVote.id := hrep.map_eq hid
  have hpairs : t'.rows.map CommentVote.pair = t.rows.map CommentVote.pair := hrep.map_eq hpair
  have hn' : (t'.rows.map CommentVote.pair).Nodup := hpairs ▸ hn
  obtain ⟨pre, post, hl, hl', -⟩ := hrep.split
  constructor
  · refine ⟨hids ▸ hk.nodup, fun u hu => ?_⟩
    rw [hnext]
    rcases hrep.of_mem hu with hu | rfl
    · exact hk.fresh u hu
    · rw [hid]
      exact hk.fresh v hrep.mem
  · exact hn'
  · have hmem : w ∈ t'.rows := by simp [hl']
    exact hpair ▸ lookup_of_mem hn' hmem
  · unfold without
    rw [hl, hl', List.filter_append, List.filter_append, List.filter_cons_of_neg (by simp [hpair]),
      List.filter_cons_of_neg (by simp)]

/- A vote that is dropped first. -/
theorem dropped (hk : t.Keyed CommentVote.id) (hn : (t.rows.map CommentVote.pair).Nodup)
    (hv : lookup CommentVote.pair t.rows pair = some v) :
    (t.remove fun u => u.id == v.id).Keyed CommentVote.id ∧
      ((t.remove fun u => u.id == v.id).rows.map CommentVote.pair).Nodup ∧
      lookup CommentVote.pair (t.remove fun u => u.id == v.id).rows pair = none ∧
      without CommentVote.pair pair (t.remove fun u => u.id == v.id).rows =
        without CommentVote.pair pair t.rows := by
  have hrows : (t.remove fun u => u.id == v.id).rows = without CommentVote.pair pair t.rows := by
    obtain ⟨pre, post, hl, hwithout⟩ := without_split hn hv
    have hids := hk.nodup
    rw [hl, List.map_append, List.map_cons, List.nodup_middle, List.nodup_cons] at hids
    have hpre : ∀ u ∈ pre, ¬ (u.id == v.id) = true := by
      intro u hu he
      have hid : u.id = v.id := by simpa using he
      exact hids.1 (hid ▸ List.mem_append_left _ (List.mem_map_of_mem hu))
    rw [hwithout]
    show t.rows.eraseP _ = _
    rw [hl, List.eraseP_append_right _ hpre, List.eraseP_cons_of_pos (by simp)]
  refine ⟨hk.remove v.id, ?_, ?_, ?_⟩
  · rw [hrows]
    exact nodup_without hn
  · rw [hrows, lookup_without, if_pos rfl]
  · rw [hrows]
    exact List.filter_filter.trans (List.filter_congr fun u _ => Bool.and_self _)

end Cast

/-! ### Operations -/

open Database

namespace VoteOperation

variable {d d' : Database} {o : VoteOperation} {c : Comment} {a : Account} {p : VotePower}
  {v : CommentVote}

theorem modifyComment_votes {i : Nat} {f : Comment → Result Comment}
    (h : d.modifyComment i f = .ok d') : d'.commentVotes = d.commentVotes := by
  unfold modifyComment at h
  obtain ⟨t, -, rfl⟩ := of_modify h
  rfl

theorem newVote_cast (hk : d.KnowsVotes) (hnone : d.findCommentVote c.id a.id = none)
    (h : o.newVote d c a p = .ok d') :
    ∃ w, Cast d.commentVotes d'.commentVotes (c.id, a.id) w := by
  obtain ⟨-, d₁, d₂, d₃, d₄, voted, most, weight, hcore₁, hcount, hcore₃, -, -, hadd, hcore⟩ :=
    of_triple (newVote_spec (d := d)) trivial h
  have hvotes : d₃.commentVotes = d.commentVotes := by
    calc d₃.commentVotes
      _ = d₂.commentVotes := congrArg Core.commentVotes hcore₃
      _ = d₁.commentVotes := modifyComment_votes hcount
      _ = d.commentVotes := congrArg Core.commentVotes hcore₁
  have hadded : d₄.commentVotes = (addVote d₃ (o.vote d₃ c a p weight)).commentVotes := by
    split_ifs at hadd
    · exact modifyComment_votes hadd
    · rw [hadd]
  have hcreated : d'.commentVotes =
      d.commentVotes.create fun _ => o.vote d₃ c a p weight d.commentVotes.nextId := by
    rw [show d'.commentVotes = d₄.commentVotes from congrArg Core.commentVotes hcore, hadded]
    show d₃.commentVotes.create _ = _
    rw [hvotes]
    rfl
  rw [hcreated]
  rw [findCommentVote_eq] at hnone
  exact ⟨_, .create hk.keyed hk.pairs hnone rfl rfl⟩

theorem changeVote_cast (hk : d.KnowsVotes) (hv : d.findCommentVote c.id a.id = some v)
    (h : o.changeVote d c v p = .ok d') :
    ∃ w, Cast d.commentVotes d'.commentVotes (c.id, a.id) w := by
  obtain ⟨d₁, d₂, d₃, d₄, d₅, hcore₁, hcount, hcore₃, htake, hvote, hcore⟩ :=
    of_triple (changeVote_spec (d := d)) trivial h
  have hvotes : d₄.commentVotes = d.commentVotes := by
    calc d₄.commentVotes
      _ = d₃.commentVotes := modifyComment_votes htake
      _ = d₂.commentVotes := congrArg Core.commentVotes hcore₃
      _ = d₁.commentVotes := modifyComment_votes hcount
      _ = d.commentVotes := congrArg Core.commentVotes hcore₁
  rw [findCommentVote_eq] at hv
  obtain ⟨hmem, hpair⟩ := lookup_some hv
  unfold modifyCommentVote at hvote
  obtain ⟨t, ht, rfl⟩ := of_modify hvote
  rw [hvotes] at ht
  obtain ⟨x, y, hxy, hrep, hnext⟩ := Table.modify_ok ht
  cases hxy
  have hxid : x.id = v.id := by simpa using hrep.key_x
  have hxv : x = v := List.inj_on_of_nodup_map hk.keyed.nodup hrep.mem hmem hxid
  rw [hxv] at hrep
  have hlast : d'.commentVotes = t := congrArg Core.commentVotes hcore
  rw [hlast, ← hpair]
  exact ⟨_, .replace hk.keyed hk.pairs hrep hnext rfl rfl⟩

theorem dropped_cast (hk : d.KnowsVotes) (hv : d.findCommentVote c.id a.id = some v)
    (h : o.newVote (dropVote d v) c a p = .ok d') :
    ∃ w, Cast d.commentVotes d'.commentVotes (c.id, a.id) w := by
  rw [findCommentVote_eq] at hv
  obtain ⟨hkeyed, hpairs, hnone, hothers⟩ := Cast.dropped hk.keyed hk.pairs hv
  obtain ⟨w, hcast⟩ := newVote_cast (d := dropVote d v) ⟨hk.comments, hkeyed, hpairs⟩
    ((findCommentVote_eq _ _).trans hnone) h
  exact ⟨w, hcast.keyed, hcast.pairs, hcast.own, hcast.others.trans hothers⟩

/- What becomes of the vote for a comment once its power is known. -/
def recast (o : VoteOperation) (d : Database) (c : Comment) (a : Account) (p : VotePower) :
    Result Database :=
  match d.findCommentVote c.id a.id with
  | none => o.newVote d c a p
  | some v =>
    if v.numChanges = -1 then do
      require (!d.hasHardfork 12) "Cannot vote again on a comment after payout."
      o.newVote (dropVote d v) c a p
    else o.changeVote d c v p

/-- A vote for a comment that is not paid leaves its own vote and changes no other one. -/
theorem apply_cast {payout : Time} (hk : d.KnowsVotes)
    (hc : d.getComment o.author o.permlink = .ok c)
    (hpayout : d.calculateDiscussionPayoutTime c = .ok payout) (hunpaid : payout ≠ timeMax)
    (h : o.apply d = .ok d') :
    ∃ a w, d.getAccount o.voter = .ok a ∧ Cast d.commentVotes d'.commentVotes (c.id, a.id) w := by
  have hopen : isArchived d c = .ok false := by
    unfold isArchived
    rw [hpayout]
    split
    · exact congrArg Except.ok (decide_eq_false hunpaid)
    · rfl
  obtain ⟨c', hc', h⟩ := bind_ok.1 h
  cases hc.symm.trans hc'
  obtain ⟨a, ha, h⟩ := bind_ok.1 h
  obtain ⟨_, -, h⟩ := bind_ok.1 h
  obtain ⟨_, -, h⟩ := bind_ok.1 h
  have hrest : (do
      let p ← o.power d a
      o.recast d c a p) = .ok d' := by
    dsimp only at h
    by_cases hup : 0 < o.weight
    · rw [if_pos hup, hopen] at h
      obtain ⟨_, -, h⟩ := bind_ok.1 h
      exact h
    · rw [if_neg hup, hopen] at h
      exact h
  obtain ⟨p, -, h⟩ := bind_ok.1 hrest
  refine ⟨a, ?_⟩
  unfold recast at h
  cases hv : d.findCommentVote c.id a.id with
  | none =>
    rw [hv] at h
    obtain ⟨w, hw⟩ := newVote_cast hk hv h
    exact ⟨w, ha, hw⟩
  | some v =>
    rw [hv] at h
    dsimp only at h
    split at h
    · obtain ⟨_, -, h⟩ := bind_ok.1 h
      obtain ⟨w, hw⟩ := dropped_cast hk hv h
      exact ⟨w, ha, hw⟩
    · obtain ⟨w, hw⟩ := changeVote_cast hk hv h
      exact ⟨w, ha, hw⟩

end VoteOperation

end WeNode.Chain
