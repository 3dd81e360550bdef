import WeNode.Chain.VoteCasts
import WeNode.Lib.Events

/-!
# Reputations

libraries/plugins/follow/follow_plugin.cpp (75-102, 267-312): what a vote adds to the reputation of
the author of the comment, and what it takes back when it is changed.
-/

namespace WeNode.Plugins

open WeNode.Lib WeNode.Chain

/-- `reputation_object` -/
structure Reputation where
  account : Name
  reputation : Int

/- `cv->SCOREreward >> 6`, which rounds down -/
def contribution (v : CommentVote) : Int := v.scoreReward >>> 6

def findReputation (l : List Reputation) (name : Name) : Option Reputation :=
  lookup Reputation.account l name

/- The reputation of an account; one without an object has none. -/
def view (l : List Reputation) (a : Name) : Int :=
  ((findReputation l a).map Reputation.reputation).getD 0

def setReputation (name : Name) (x : Int) (l : List Reputation) : List Reputation :=
  change Reputation.account name (fun r => { r with reputation := x }) l

/- The `pre_operation_visitor` of a vote. -/
def takeBack (o : VoteOperation) (d : Database) (l : List Reputation) :
    Result (List Reputation) := do
  let c ← d.getComment o.author o.permlink
  if (← d.calculateDiscussionPayoutTime c) = timeMax then return l
  let voter ← d.getAccount o.voter
  match d.findCommentVote c.id voter.id with
  | none => return l
  | some cv =>
    match findReputation l o.author with
    | none => return l
    | some rep =>
      let reputation ← safeSub rep.reputation (contribution cv)
      return setReputation o.author reputation l

/- The visitor catches its exceptions. -/
def preOperation (o : VoteOperation) (d : Database) (l : List Reputation) : List Reputation :=
  (takeBack o d l).toOption.getD l

/- The `post_operation_visitor` of a vote, with the vote if it is one that the rules count. -/
def count (o : VoteOperation) (d : Database) (l : List Reputation) :
    Result (Option (CommentVote × List Reputation)) := do
  let c ← d.getComment o.author o.permlink
  if (← d.calculateDiscussionPayoutTime c) = timeMax then return none
  let voter ← d.getAccount o.voter
  let cv ← found (d.findCommentVote c.id voter.id)
  let voterRep := findReputation l o.voter
  if voterRep.any (·.reputation < 0) then return none
  match findReputation l o.author with
  | none =>
    if cv.scoreReward < 0 ∧ ¬ voterRep.any (0 < ·.reputation) then return none
    return some (cv, l ++ [⟨o.author, contribution cv⟩])
  | some rep =>
    if cv.scoreReward < 0 ∧ ¬ voterRep.any (rep.reputation < ·.reputation) then return none
    let reputation ← safeAdd rep.reputation (contribution cv)
    return some (cv, setReputation o.author reputation l)

/-- The chain and the objects of the plugin. -/
structure Reputations where
  chain : Database := {}
  reputations : List Reputation := []
  /-- the ids of the votes that count as they are, which the source does not keep -/
  counted : List Nat := []

/- The vote that the voter has for the comment. -/
def ownVote (o : VoteOperation) (d : Database) : Option CommentVote :=
  match d.getComment o.author o.permlink, d.getAccount o.voter with
  | .ok c, .ok voter => d.findCommentVote c.id voter.id
  | _, _ => none

/- The comment of a vote is not paid. -/
def beforePayout (o : VoteOperation) (d : Database) : Bool :=
  match d.getComment o.author o.permlink with
  | .error _ => false
  | .ok c =>
    match d.calculateDiscussionPayoutTime c with
    | .error _ => false
    | .ok payout => payout ≠ timeMax

inductive ReputationEvent where
  | vote (o : VoteOperation)
  /-- anything else that happens to the chain -/
  | chain (d : Database)

namespace Reputations

variable (s : Reputations)

/- `apply_operation` of a vote; the chain logs an exception of the `post_operation_visitor`. -/
def vote (o : VoteOperation) : Result Reputations := do
  let before := preOperation o s.chain s.reputations
  let d ← o.apply s.chain
  match count o d before with
  | .ok (some (cv, after)) => return ⟨d, after, cv.id :: s.counted⟩
  | _ => return ⟨d, before, s.counted.filter fun i => !(ownVote o d).any (·.id == i)⟩

def step : ReputationEvent → Option Reputations
  | .vote o => (s.vote o).toOption
  | .chain d => some { s with chain := d }

/-- Votes are for comments that are not paid.  What else happens leaves the votes and the authors
of the comments as they are. -/
def Allowed : ReputationEvent → Prop
  | .vote o => beforePayout o s.chain
  | .chain d => d.KnowsVotes ∧ d.commentVotes = s.chain.commentVotes ∧
    ∀ v ∈ d.commentVotes.rows, d.authorOf v.comment = s.chain.authorOf v.comment

def reputation (a : Name) : Int := view s.reputations a

/- What a vote counts for an author. -/
def worth (a : Name) (v : CommentVote) : Int :=
  if v.id ∈ s.counted ∧ s.chain.authorOf v.comment = some a then contribution v else 0

/-- Every reputation is the sum of the votes that count. -/
def Summed : Prop := ∀ a, s.reputation a = s.chain.commentVotes.sum (s.worth a)

/-- A vote that is worth something is taken back exactly if it counts.  What is not taken back is a
difference that does not fit. -/
def Takes (o : VoteOperation) : Bool :=
  match ownVote o s.chain, findReputation s.reputations o.author with
  | some v, some rep => contribution v = 0 ∨
    (v.id ∈ s.counted ↔ (safeSub rep.reputation (contribution v)).isOk)
  | _, _ => true

end Reputations

/-! ### The visitors -/

section

variable {l l' : List Reputation} {name : Name} {x : Int} {rep : Reputation}

theorem find_set (h : findReputation l name = some rep) (a : Name) :
    findReputation (setReputation name x l) a =
      if a = name then some { rep with reputation := x } else findReputation l a := by
  have hkey : ∀ r : Reputation, Reputation.account { r with reputation := x } = r.account :=
    fun _ => rfl
  unfold findReputation at h ⊢
  unfold setReputation
  rw [lookup_change hkey, h]
  rfl

theorem find_new (h : findReputation l name = none) (a : Name) :
    findReputation (l ++ [⟨name, x⟩]) a =
      if a = name then some ⟨name, x⟩ else findReputation l a :=
  lookup_append_new h rfl

theorem view_set (h : findReputation l name = some rep) (a : Name) :
    view (setReputation name x l) a = if a = name then x else view l a := by
  unfold view
  rw [find_set h]
  split <;> rfl

theorem view_new (h : findReputation l name = none) (a : Name) :
    view (l ++ [⟨name, x⟩]) a = if a = name then x else view l a := by
  unfold view
  rw [find_new h]
  split <;> rfl

theorem view_some (h : findReputation l name = some rep) : view l name = rep.reputation := by
  unfold view
  rw [h]
  rfl

theorem view_none (h : findReputation l name = none) : view l name = 0 := by
  unfold view
  rw [h]
  rfl

end

/- What the `pre_operation_visitor` takes from the author. -/
def taken (o : VoteOperation) (d : Database) (l : List Reputation) : Int :=
  match ownVote o d, findReputation l o.author with
  | some v, some rep =>
    if (safeSub rep.reputation (contribution v)).isOk then contribution v else 0
  | _, _ => 0

section Visitors

variable {o : VoteOperation} {d : Database} {l l' : List Reputation} {cv : CommentVote}

/- The lookups of an operation on a comment that is not paid. -/
theorem beforePayout_ok (h : beforePayout o d) : ∃ c payout,
    d.getComment o.author o.permlink = .ok c ∧
      d.calculateDiscussionPayoutTime c = .ok payout ∧ payout ≠ timeMax := by
  unfold beforePayout at h
  split at h
  · cases h
  · next c hc =>
    split at h
    · cases h
    · next payout hpayout => exact ⟨c, payout, hc, hpayout, of_decide_eq_true h⟩

theorem ownVote_eq {c : Comment} {a : Account} (hc : d.getComment o.author o.permlink = .ok c)
    (ha : d.getAccount o.voter = .ok a) : ownVote o d = d.findCommentVote c.id a.id := by
  unfold ownVote
  rw [hc, ha]

/- The author alone changes, by what is taken. -/
theorem view_preOperation {c : Comment} {payout : Time} {a : Account}
    (hc : d.getComment o.author o.permlink = .ok c)
    (hpayout : d.calculateDiscussionPayoutTime c = .ok payout) (hunpaid : payout ≠ timeMax)
    (ha : d.getAccount o.voter = .ok a) (name : Name) :
    view (preOperation o d l) name = view l name - if name = o.author then taken o d l else 0 := by
  have hown := ownVote_eq hc ha
  unfold preOperation takeBack taken
  rw [hc, ok_bind, hpayout, ok_bind, if_neg hunpaid, ha, ok_bind, hown]
  cases hv : d.findCommentVote c.id a.id with
  | none =>
    show view l name = view l name - if name = o.author then 0 else 0
    rw [ite_self, sub_zero]
  | some v =>
    cases hrep : findReputation l o.author with
    | none =>
      show view l name = view l name - if name = o.author then 0 else 0
      rw [ite_self, sub_zero]
    | some rep =>
      dsimp only
      cases hsub : safeSub rep.reputation (contribution v) with
      | error e => simp [Except.toOption, Except.isOk, Except.toBool]
      | ok x =>
        have hx := safeSub_ok hsub
        rw [ok_bind]
        show view (setReputation o.author x l) name = _
        rw [view_set hrep]
        by_cases hname : name = o.author
        · rw [if_pos hname, if_pos hname, hname, view_some hrep, hx]
          rfl
        · rw [if_neg hname, if_neg hname, sub_zero]

/- The objects stay. -/
theorem preOperation_same (o : VoteOperation) (d : Database) (l : List Reputation) :
    preOperation o d l = l ∨ ∃ rep x, findReputation l o.author = some rep ∧
      preOperation o d l = setReputation o.author x l := by
  unfold preOperation
  cases h : takeBack o d l with
  | error e => exact .inl rfl
  | ok l' =>
    obtain ⟨c, -, h⟩ := bind_ok.1 h
    obtain ⟨payout, -, h⟩ := bind_ok.1 h
    split at h
    · cases h
      exact .inl rfl
    · obtain ⟨a, -, h⟩ := bind_ok.1 h
      split at h
      · cases h
        exact .inl rfl
      · split at h
        · cases h
          exact .inl rfl
        · next rep hrep =>
          obtain ⟨x, -, h⟩ := bind_ok.1 h
          cases h
          exact .inr ⟨rep, x, hrep, rfl⟩

theorem isSome_preOperation (name : Name) :
    (findReputation (preOperation o d l) name).isSome ↔ (findReputation l name).isSome := by
  rcases preOperation_same o d l with h | ⟨rep, x, hrep, h⟩
  · rw [h]
  · rw [h, find_set hrep]
    split
    · next hname => rw [hname, hrep, Option.isSome_some, Option.isSome_some]
    · rfl

/- A vote that counts is the voter's own, and is added to the reputation of the author. -/
theorem count_some (h : count o d l = .ok (some (cv, l'))) : ownVote o d = some cv ∧
    (∀ name, view l' name = view l name + if name = o.author then contribution cv else 0) ∧
    ∀ name, (findReputation l' name).isSome ↔
      name = o.author ∨ (findReputation l name).isSome := by
  obtain ⟨c, hc, h⟩ := bind_ok.1 h
  obtain ⟨payout, -, h⟩ := bind_ok.1 h
  split at h
  · cases h
  obtain ⟨a, ha, h⟩ := bind_ok.1 h
  obtain ⟨v, hv, h⟩ := bind_ok.1 h
  have hown : ownVote o d = some v := (ownVote_eq hc ha).trans (found_ok hv)
  dsimp only at h
  split at h
  · cases h
  split at h
  · next hnone =>
    split at h
    · cases h
    cases h
    refine ⟨hown, fun name => ?_, fun name => ?_⟩
    · rw [view_new hnone]
      by_cases hname : name = o.author
      · rw [if_pos hname, if_pos hname, hname, view_none hnone, zero_add]
      · rw [if_neg hname, if_neg hname, add_zero]
    · rw [find_new hnone]
      by_cases hname : name = o.author <;> simp [hname]
  · next rep hrep =>
    split at h
    · cases h
    obtain ⟨x, hx, h⟩ := bind_ok.1 h
    cases h
    refine ⟨hown, fun name => ?_, fun name => ?_⟩
    · rw [view_set hrep]
      by_cases hname : name = o.author
      · rw [if_pos hname, if_pos hname, hname, view_some hrep, safeAdd_ok hx]
      · rw [if_neg hname, if_neg hname, add_zero]
    · rw [find_set hrep]
      by_cases hname : name = o.author <;> simp [hname]

end Visitors

/-! ### Votes -/

namespace Reputations

variable {s s' : Reputations} {o : VoteOperation}

/-- Votes that count are for authors with an object. -/
structure Kept (s : Reputations) : Prop where
  votes : s.chain.KnowsVotes
  known : ∀ v ∈ s.chain.commentVotes.rows, v.id ∈ s.counted →
    ∀ a, s.chain.authorOf v.comment = some a → (findReputation s.reputations a).isSome

/- The votes of others, which a vote leaves as they are. -/
def rest (s : Reputations) (pair : Nat × Nat) (a : Name) : Int :=
  ((without CommentVote.pair pair s.chain.commentVotes.rows).map (s.worth a)).sum

/-- One vote, `w`, which is added if it counts. -/
structure Voted (s s' : Reputations) (o : VoteOperation) (pair : Nat × Nat) (w : CommentVote)
    (added : Bool) : Prop where
  own : ownVote o s.chain = lookup CommentVote.pair s.chain.commentVotes.rows pair
  author : s.chain.authorOf pair.1 = some o.author
  cast : Cast s.chain.commentVotes s'.chain.commentVotes pair w
  comments : s'.chain.core.comments = s.chain.core.comments
  counted : ∀ i, i ∈ s'.counted ↔ (i ∈ s.counted ∧ i ≠ w.id) ∨ added ∧ i = w.id
  took : ∀ a, view (preOperation o s.chain s.reputations) a = view s.reputations a -
    if a = o.author then taken o s.chain s.reputations else 0
  gave : ∀ a, s'.reputation a = view (preOperation o s.chain s.reputations) a +
    if a = o.author ∧ added then contribution w else 0
  found : ∀ a, (findReputation s'.reputations a).isSome ↔
    (added ∧ a = o.author) ∨ (findReputation s.reputations a).isSome

theorem vote_voted (hk : s.chain.KnowsVotes) (hb : beforePayout o s.chain) (h : s.vote o = .ok s') :
    ∃ pair w added, Voted s s' o pair w added := by
  obtain ⟨c, payout, hc, hpayout, hunpaid⟩ := beforePayout_ok hb
  obtain ⟨d, happly, h⟩ := bind_ok.1 h
  obtain ⟨a, w, ha, hcast⟩ := VoteOperation.apply_cast hk hc hpayout hunpaid happly
  have hcore := of_triple (VoteOperation.apply_core (d := s.chain)) trivial happly
  have hcomments : d.core.comments = s.chain.core.comments := by rw [hcore]
  have hcounts : d.core.counts = s.chain.core.counts := by rw [hcore]
  obtain ⟨c', hc', hcid⟩ := Database.getComment_frame hcomments hc
  obtain ⟨a', ha', haid⟩ := Database.getAccount_frame hcounts ha
  have hown : ownVote o s.chain =
      lookup CommentVote.pair s.chain.commentVotes.rows (c.id, a.id) :=
    (ownVote_eq hc ha).trans (Database.findCommentVote_eq _ _)
  have hown' : ownVote o d = some w := by
    rw [ownVote_eq hc' ha', hcid, haid, Database.findCommentVote_eq]
    exact hcast.own
  have hauthor := Database.authorOf_getComment hk hc
  have htook := view_preOperation (l := s.reputations) hc hpayout hunpaid ha
  have hnone : ∀ s', s' = (⟨d, preOperation o s.chain s.reputations,
      s.counted.filter fun i => !(ownVote o d).any (·.id == i)⟩ : Reputations) →
      Voted s s' o (c.id, a.id) w false := by
    rintro s' rfl
    refine ⟨hown, hauthor, hcast, hcomments, fun i => ?_, htook, fun a => ?_, fun a => ?_⟩
    · by_cases hi : i = w.id
      · simp [hown', hi]
      · simp [hown', hi, Ne.symm hi]
    · simp [reputation]
    · simp [isSome_preOperation]
  split at h
  · next cv after hcount =>
    cases h
    obtain ⟨hcv, hview, hfound⟩ := count_some hcount
    have hw : cv = w := Option.some.inj (hcv.symm.trans hown')
    subst hw
    refine ⟨(c.id, a.id), cv, true, hown, hauthor, hcast, hcomments, fun i => ?_, htook,
      fun a => ?_, fun a => ?_⟩
    · by_cases hi : i = cv.id <;> simp [hi]
    · simpa [reputation] using hview a
    · simp [hfound, isSome_preOperation]
  · cases h
    exact ⟨(c.id, a.id), w, false, hnone _ rfl⟩

namespace Voted

variable {pair : Nat × Nat} {w : CommentVote} {added : Bool}

theorem authors (h : Voted s s' o pair w added) (i : Nat) :
    s'.chain.authorOf i = s.chain.authorOf i := by
  rw [Database.authorOf_node, Database.authorOf_node, h.comments]

/- The own vote has an id of its own. -/
theorem ne_own (h : Voted s s' o pair w added) {v : CommentVote}
    (hv : v ∈ without CommentVote.pair pair s'.chain.commentVotes.rows) : v.id ≠ w.id := by
  obtain ⟨hmem, hpair⟩ := List.mem_filter.1 hv
  obtain ⟨hw, hwpair⟩ := lookup_some h.cast.own
  intro hid
  have hvw : v = w := List.inj_on_of_nodup_map h.cast.keyed.nodup hmem hw hid
  simp [hvw, hwpair] at hpair

theorem rest_eq (h : Voted s s' o pair w added) (a : Name) : s'.rest pair a = s.rest pair a := by
  have hsame : ∀ v ∈ without CommentVote.pair pair s'.chain.commentVotes.rows,
      s'.worth a v = s.worth a v := by
    intro v hv
    have hid : v.id ∈ s'.counted ↔ v.id ∈ s.counted := by
      rw [h.counted]
      simp [h.ne_own hv]
    unfold worth
    rw [h.authors]
    simp only [hid]
  unfold rest
  rw [List.map_congr_left hsame, h.cast.others]

theorem sum_after (h : Voted s s' o pair w added) (a : Name) :
    s'.chain.commentVotes.sum (s'.worth a) =
      s.rest pair a + if a = o.author ∧ added then contribution w else 0 := by
  have hsum := sum_without (g := s'.worth a) h.cast.pairs h.cast.own
  have hw : s'.worth a w = if a = o.author ∧ added then contribution w else 0 := by
    have hcomment : w.comment = pair.1 := congrArg Prod.fst (lookup_some h.cast.own).2
    refine if_congr ?_ rfl rfl
    rw [h.counted, h.authors, hcomment, h.author]
    simp [and_comm, eq_comm]
  rw [← h.rest_eq, ← hw]
  exact hsum.symm

theorem sum_before (h : Voted s s' o pair w added) (hs : s.Kept) (a : Name) :
    s.chain.commentVotes.sum (s.worth a) =
      s.rest pair a + ((ownVote o s.chain).map (s.worth a)).getD 0 := by
  rw [h.own]
  cases hv : lookup CommentVote.pair s.chain.commentVotes.rows pair with
  | none =>
    have hne : ∀ v ∈ s.chain.commentVotes.rows, v.pair ≠ pair := fun v hv' he =>
      lookup_none.1 hv (he ▸ List.mem_map_of_mem hv')
    unfold rest
    rw [without_of_ne hne]
    exact (add_zero _).symm
  | some v => exact (sum_without hs.votes.pairs hv).symm

/- What the own vote was worth to the author. -/
theorem worth_own (h : Voted s s' o pair w added) {v : CommentVote}
    (hv : ownVote o s.chain = some v) (a : Name) :
    s.worth a v = if a = o.author ∧ v.id ∈ s.counted then contribution v else 0 := by
  have hcomment : v.comment = pair.1 := by
    rw [h.own] at hv
    exact congrArg Prod.fst (lookup_some hv).2
  unfold worth
  rw [hcomment, h.author]
  simp [and_comm, eq_comm]

/-- The vote is taken back exactly. -/
theorem taken_iff (h : Voted s s' o pair w added) (hs : s.Kept) :
    taken o s.chain s.reputations = ((ownVote o s.chain).map (s.worth o.author)).getD 0 ↔
      s.Takes o := by
  unfold taken Takes
  cases hv : ownVote o s.chain with
  | none => simp
  | some v =>
    have hworth := h.worth_own hv o.author
    simp only [true_and] at hworth
    cases hrep : findReputation s.reputations o.author with
    | none =>
      have hnot : v.id ∉ s.counted := by
        intro hid
        rw [h.own] at hv
        obtain ⟨hmem, hpair⟩ := lookup_some hv
        have hcomment : v.comment = pair.1 := congrArg Prod.fst hpair
        have hfound := hs.known v hmem hid o.author (by rw [hcomment, h.author])
        rw [hrep] at hfound
        cases hfound
      rw [Option.map_some, Option.getD_some, hworth, if_neg hnot]
      simp
    | some rep =>
      rw [Option.map_some, Option.getD_some, hworth]
      dsimp only
      by_cases hid : v.id ∈ s.counted <;>
        cases (safeSub rep.reputation (contribution v)).isOk <;> simp [hid, eq_comm]

/-- From sums a vote leads to sums exactly if it takes back what its own vote had added. -/
theorem summed_iff (h : Voted s s' o pair w added) (hs : s.Kept) (hsum : s.Summed) :
    s'.Summed ↔ s.Takes o := by
  have hafter : ∀ a, s'.reputation a = s'.chain.commentVotes.sum (s'.worth a) ↔
      (if a = o.author then taken o s.chain s.reputations else 0) =
        ((ownVote o s.chain).map (s.worth a)).getD 0 := by
    intro a
    have hbefore : view s.reputations a = _ := (hsum a).trans (h.sum_before hs a)
    rw [h.gave, h.took, h.sum_after, hbefore]
    omega
  rw [← h.taken_iff hs]
  constructor
  · intro hs'
    have hauthor := (hafter o.author).1 (hs' o.author)
    rwa [if_pos rfl] at hauthor
  · intro htaken a
    rw [hafter]
    by_cases ha : a = o.author
    · rw [if_pos ha, htaken, ha]
    · rw [if_neg ha]
      cases hv : ownVote o s.chain with
      | none => rfl
      | some v =>
        rw [Option.map_some, Option.getD_some, h.worth_own hv, if_neg fun hc => ha hc.1]

theorem kept (h : Voted s s' o pair w added) (hs : s.Kept) : s'.Kept := by
  refine ⟨⟨?_, h.cast.keyed, h.cast.pairs⟩, fun v hv hid a ha => ?_⟩
  · have hids : ∀ d : Database, d.comments.rows.map Comment.id =
        d.core.comments.map CommentNode.id := fun d => by simp [Database.core, Comment.node]
    rw [hids, h.comments, ← hids]
    exact hs.votes.comments
  · rw [h.found]
    rw [h.authors] at ha
    rcases (h.counted v.id).1 hid with ⟨hid, hne⟩ | ⟨hadded, hid⟩
    · refine .inr (hs.known v ?_ hid a ha)
      have hne' : v.pair ≠ pair := by
        intro hpair
        have hlookup := lookup_of_mem h.cast.pairs hv
        rw [hpair, h.cast.own] at hlookup
        exact hne (congrArg CommentVote.id (Option.some.inj hlookup).symm)
      have hother : v ∈ without CommentVote.pair pair s'.chain.commentVotes.rows :=
        List.mem_filter.2 ⟨hv, by simpa using hne'⟩
      rw [h.cast.others] at hother
      exact List.mem_of_mem_filter hother
    · obtain ⟨hw, hpair⟩ := lookup_some h.cast.own
      have hvw : v = w := List.inj_on_of_nodup_map h.cast.keyed.nodup hv hw hid
      have hcomment : v.comment = pair.1 := hvw ▸ congrArg Prod.fst hpair
      rw [hcomment, h.author] at ha
      exact .inl ⟨hadded, (Option.some.inj ha).symm⟩

end Voted

/-! ### Runs -/

/- The runs with votes for comments before payout, each with some property. -/
def Runs (ok : Reputations → VoteOperation → Bool) : Reputations → Prop :=
  Reaches step (fun s e => s.Allowed e ∧ ∀ o, e = .vote o → ok s o) {}

theorem Kept.chain {d : Database} (hs : s.Kept) (ha : s.Allowed (.chain d)) :
    Kept { s with chain := d } := by
  obtain ⟨hk, hvotes, hauthors⟩ := ha
  refine ⟨hk, fun v hv hid a hauthor => hs.known v (hvotes ▸ hv) hid a ?_⟩
  rw [← hauthors v hv]
  exact hauthor

/- What else happens to the chain leaves what the votes are worth. -/
theorem Summed.chain {d : Database} (hs : s.Summed) (ha : s.Allowed (.chain d)) :
    Summed { s with chain := d } := by
  obtain ⟨-, hvotes, hauthors⟩ := ha
  intro a
  have hworth : ∀ v ∈ d.commentVotes.rows, worth { s with chain := d } a v = s.worth a v := by
    intro v hv
    unfold worth
    rw [hauthors v hv]
  unfold Table.sum
  rw [List.map_congr_left hworth]
  show s.reputation a = _
  rw [hs a, hvotes]
  rfl

theorem kept_empty : Kept {} := ⟨.empty, nofun⟩

theorem Runs.kept {ok : Reputations → VoteOperation → Bool} (h : s.Runs ok) : s.Kept := by
  refine h.invariant kept_empty fun s e s' hs hallowed hstep => ?_
  cases e with
  | vote o =>
    obtain ⟨pair, w, added, hvoted⟩ := vote_voted hs.votes hallowed.1 (toOption_ok hstep)
    exact hvoted.kept hs
  | chain d =>
    cases hstep
    exact hs.chain hallowed.1

theorem Runs.summed (h : s.Runs Takes) : s.Summed := by
  have hboth : s.Kept ∧ s.Summed := by
    refine h.invariant (P := fun s => s.Kept ∧ s.Summed) ⟨kept_empty, fun _ => rfl⟩
      fun s e s' hs hallowed hstep => ?_
    cases e with
    | vote o =>
      obtain ⟨pair, w, added, hvoted⟩ := vote_voted hs.1.votes hallowed.1 (toOption_ok hstep)
      exact ⟨hvoted.kept hs.1, (hvoted.summed_iff hs.1 hs.2).2 (hallowed.2 o rfl)⟩
    | chain d =>
      cases hstep
      exact ⟨hs.1.chain hallowed.1, hs.2.chain hallowed.1⟩
  exact hboth.2

/-- If every changed vote had counted or was worth nothing, reputations are the sums of the votes
that count.  A vote leaves them so exactly if it takes back what it had added, and then the vote it
changes has no part in them any more. -/
theorem Runs.reputation_sums (h : s.Runs Takes) : s.Summed ∧
    ∀ o s', beforePayout o s.chain → s.vote o = .ok s' → (s'.Summed ↔ s.Takes o) ∧
      (s.Takes o → ∀ a, view (preOperation o s.chain s.reputations) a =
        s.reputation a - ((ownVote o s.chain).map (s.worth a)).getD 0) := by
  have hs := h.kept
  have hsum := h.summed
  refine ⟨hsum, fun o s' hb hvote => ?_⟩
  obtain ⟨pair, w, added, hvoted⟩ := vote_voted hs.votes hb hvote
  refine ⟨hvoted.summed_iff hs hsum, fun htakes a => ?_⟩
  have hafter := (hvoted.summed_iff hs hsum).2 htakes a
  have hbefore := hvoted.sum_before hs a
  rw [hvoted.gave, hvoted.sum_after] at hafter
  have hrest : view (preOperation o s.chain s.reputations) a = s.rest pair a := by omega
  rw [hrest, hsum a, hbefore]
  omega

/-! ### An author and two voters -/

def demoAuthor : Database where
  accounts := ⟨[1, 2, 3].map fun name => { id := name, name := name, score := 1000000 }, 4⟩
  comments := ⟨[{
    id := 0
    author := 1
    permlink := [97]
    cashoutTime := 1600600000
    allowCurationRewards := false }], 1⟩
  hardforks := { processedHardforks := List.replicate 20 0 }

def atTime (s : Reputations) (now : Time) : Reputations :=
  { s with chain := { s.chain with gpo := { s.chain.gpo with time := now } } }

/- A vote of an account for the comment, at some time. -/
def demoVoteAt (ok : Reputations → VoteOperation → Bool) (s : Reputations) :
    Time × Name × Int → Option Reputations
  | (now, voter, weight) =>
    if beforePayout ⟨voter, 1, [97], weight⟩ (s.atTime now).chain &&
        ok (s.atTime now) ⟨voter, 1, [97], weight⟩ then
      (s.atTime now).step (.vote ⟨voter, 1, [97], weight⟩)
    else none

theorem demo_runs {ok : Reputations → VoteOperation → Bool} {l : List (Time × Name × Int)}
    {s' : Reputations} (hs : s.Runs ok) (h : l.foldlM (demoVoteAt ok) s = some s') :
    s'.Runs ok := by
  induction l generalizing s with
  | nil =>
    cases h
    exact hs
  | cons e l ih =>
    obtain ⟨now, voter, weight⟩ := e
    obtain ⟨s₁, h₁, h⟩ := Option.bind_eq_some_iff.1 h
    have hknown := hs.kept.votes
    have hclock : (s.atTime now).Runs ok :=
      .next (.chain (s.atTime now).chain) hs
        ⟨⟨⟨hknown.comments, hknown.keyed, hknown.pairs⟩, rfl, fun _ _ => rfl⟩, nofun⟩ rfl
    refine ih ?_ h
    dsimp only [demoVoteAt] at h₁
    split at h₁
    · next hok =>
      rw [Bool.and_eq_true] at hok
      refine .next (.vote _) hclock ⟨hok.1, fun o ho => ?_⟩ h₁
      cases ho
      exact hok.2
    · cases h₁

theorem demo_start {ok : Reputations → VoteOperation → Bool} :
    Runs ok { chain := demoAuthor } := by
  refine .next (.chain demoAuthor) .start ⟨⟨⟨?_, .empty, List.nodup_nil⟩, rfl, nofun⟩, nofun⟩ rfl
  decide

/-- A vote that counts is changed to one against the author that does not. -/
theorem reputation_sums_demo : ∃ s : Reputations, s.reputation 1 = 131 ∧ s.Summed := by
  have h : ([(1600000000, 2, 10000), (1600000000, 3, 10000), (1600000010, 3, -10000)].foldlM
      (demoVoteAt Takes) { chain := demoAuthor }).map (fun s => s.reputation 1) = some 131 := by
    decide
  obtain ⟨s, hrun, hreputation⟩ := Option.map_eq_some_iff.1 h
  exact ⟨s, hreputation, (Runs.reputation_sums (demo_runs demo_start hrun)).1⟩

/-- A vote against the author that did not count is taken back when the voter changes it. -/
theorem reputation_grows : ∃ s : Reputations, s.Runs (fun _ _ => true) ∧
    s.reputation 1 = 392 ∧ s.chain.commentVotes.sum (s.worth 1) = 260 := by
  have h : ([(1600000000, 2, 10000), (1600000000, 3, -10000), (1600000010, 3, 10000)].foldlM
      (demoVoteAt fun _ _ => true) { chain := demoAuthor }).map
        (fun s => (s.reputation 1, s.chain.commentVotes.sum (s.worth 1))) = some (392, 260) := by
    decide
  obtain ⟨s, hrun, hs⟩ := Option.map_eq_some_iff.1 h
  obtain ⟨hreputation, hsum⟩ := Prod.mk.inj hs
  exact ⟨s, demo_runs demo_start hrun, hreputation, hsum⟩

end Reputations

end WeNode.Plugins
