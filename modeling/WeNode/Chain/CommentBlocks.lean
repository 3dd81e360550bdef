import WeNode.Chain.CommentTree
import WeNode.Chain.HardforkVotes

/-!
# The tree of comments in every reachable state

The operations and the hardforks keep the tree, so that a block does.
-/

set_option mvcgen.warning false

namespace WeNode.Chain

open WeNode.Lib Std.Do

namespace Database

variable {d d' : Database}

/-! ### Operations -/

theorem applyOperation_nextComment {w : Name} {o : Operation} (h : applyOperation w d o = .ok d') :
    d.core.nextComment ≤ d'.core.nextComment := by
  have hcore := of_triple applyOperation_core trivial h
  cases o with
  | comment op =>
    rcases of_triple applyComment_spec trivial h with hsame | ⟨parent, a, -, -, hcreate⟩
    · rw [hsame]
    · obtain ⟨d₁, weight, now, hd₁, hplace⟩ :=
        of_triple CommentOperation.create_spec trivial hcreate
      rw [of_triple place_next trivial hplace, hd₁]
      exact Nat.le_succ _
  | deleteComment op =>
    have hdelete := of_triple (DeleteCommentOperation.apply_core (d := d)) trivial h
    rw [hdelete]
  | _ => rw [hcore]; exact Nat.le_refl _

theorem Tree.applyOperation {w : Name} {o : Operation} (hd : d.Tree)
    (hfew : d'.core.nextComment ≤ two32) (h : applyOperation w d o = .ok d') : d'.Tree := by
  have hcore := of_triple applyOperation_core trivial h
  have h6 : d'.hasHardfork 6 → d.hasHardfork 6 := fun h6 => by
    rwa [hasHardfork_core, hcore, ← hasHardfork_core] at h6
  cases o with
  | comment op => exact hd.applyComment hfew h
  | deleteComment op =>
    obtain ⟨c, hc, hzero, rfl | hdrop⟩ :=
      of_triple (DeleteCommentOperation.apply_spec (d := d)) trivial h
    · exact hd
    · exact hd.dropComment (getComment_ok hc).1 hzero hdrop
  | _ => exact hd.of_core (by rw [hcore]; rfl) (by rw [hcore]; rfl) (by rw [hcore]; rfl) h6

/-! ### Hardforks -/

/- Hardfork 6 is the only one that changes the counts. -/
theorem hardforkStep_children {n : Nat} (hn : n ≠ 6) :
    ⦃⌜True⌝⦄ d.hardforkStep n ⦃⇓? d' => ⌜d'.core.children = d.core.children⌝⦄ := by
  unfold hardforkStep
  mvcgen [performSCOREsplit_core, retallyWitnessVotes_core, resetVirtualScheduleTime_core,
    applyHardfork12_core, applyHardfork17_core, applyHardfork19_core]
  all_goals grind [core, retallyWitnessVoteCounts_core]

theorem Tree.applyHardfork {n : Nat} (hd : d.Tree) (hfew : d.core.nextComment ≤ two32)
    (h : d.applyHardfork n = .ok d') : d'.Tree ∧ d'.core.nextComment = d.core.nextComment := by
  obtain ⟨-, hlength, hforks, -⟩ := applyHardfork_hardforks h
  have h6 : d'.hasHardfork 6 → n = 6 ∨ d.hasHardfork 6 := fun h6 => by
    simp only [hasHardfork, hforks, List.length_append, List.length_singleton, decide_eq_true_eq]
      at h6 ⊢
    omega
  obtain ⟨d₁, h₁, h⟩ := bind_ok.1 h
  obtain ⟨_, -, h⟩ := bind_ok.1 h
  obtain ⟨_, -, h⟩ := bind_ok.1 h
  cases h
  have hcore := of_triple hardforkStep_core trivial h₁
  have hcomments : d₁.core.comments = d.core.comments := by rw [hcore]
  have hnext : d₁.core.nextComment = d.core.nextComment := by rw [hcore]
  refine ⟨?_, hnext⟩
  by_cases hn : n = 6
  · subst hn
    have hvotes := retallyWitnessVoteCounts_core d false
    have hd' : (d.retallyWitnessVoteCounts).Tree :=
      hd.of_core (by rw [hvotes]) (by rw [hvotes]) (by rw [hvotes]) id
    obtain ⟨htree, hexact⟩ := hd'.retally (by rwa [hvotes]) h₁
    exact ⟨htree.discussions, htree.bound, fun _ => hexact⟩
  · have hchildren := of_triple (hardforkStep_children hn) trivial h₁
    refine hd.of_core hcomments hnext hchildren fun h => ?_
    exact (h6 h).resolve_left hn

theorem Tree.processHardforks (hd : d.Tree) (hfew : d.core.nextComment ≤ two32)
    (h : d.processHardforks = .ok d') : d'.Tree := by
  obtain ⟨hs, hrun, -⟩ := processHardforks_applies h
  refine (run_induction (P := fun _ d' => d'.Tree ∧ d'.core.nextComment = d.core.nextComment) hrun
    ⟨hd, rfl⟩ ?_).1
  intro _ d₁ n d₂ ⟨htree, hnext⟩ _ hstep
  obtain ⟨htree', hnext'⟩ := htree.applyHardfork (by rwa [hnext]) hstep
  exact ⟨htree', hnext'.trans hnext⟩

/- Before the hardforks a block ends without a change to the tree. -/
theorem endBlock_comments {w : Name} {versions : Name → WitnessVersion} :
    ⦃⌜True⌝⦄ d.endBlock w versions ⦃⇓? d' => ⌜∃ d₁ : Database,
      d₁.core.comments = d.core.comments ∧ d₁.core.nextComment = d.core.nextComment ∧
      d₁.core.children = d.core.children ∧ d₁.core.hardforks = d.core.hardforks ∧
      d₁.processHardforks = .ok d'⌝⦄ := by
  have hfork : ∀ d : Database, ⦃⌜True⌝⦄ d.processHardforks
      ⦃⇓? d' => ⌜d.processHardforks = .ok d'⌝⦄ := fun _ => triple_ok
  mvcgen [endBlock, clearExpiredOrders_core, clearExpiredDelegations_core,
    updateWitnessSchedule_core, settle_core, hfork]
  all_goals grind

end Database

namespace ChainState

variable {env : Env} {skip : Skip} {s s' : ChainState} {b : Block}

theorem initGenesis_tree (supply : Int) : (initGenesis supply).db.Tree where
  discussions := ⟨⟨List.nodup_nil, nofun⟩, List.nodup_nil, nofun, nofun, nofun⟩
  bound := nofun
  exact _ := nofun

/- A block numbers its comments on, and keeps the tree as long as they are few. -/
theorem applyBlock_tree (hs : s.db.core.nextComment ≤ two32 → s.db.Tree)
    (h : s.applyBlock env skip b = .ok s') :
    s'.db.core.nextComment ≤ two32 → s'.db.Tree := by
  intro hfew
  obtain ⟨s₁, s₂, hstart, htransactions, hfinish⟩ := applyBlock_ok.1 h
  have hops : s₂.db.core.nextComment ≤ two32 → s₂.db.Tree := by
    refine applyTransactions_induction (P := fun d => d.core.nextComment ≤ two32 → d.Tree)
      htransactions (by rwa [(startBlock_keeps hstart).1]) ?_
    intro w d o d' hd ho hfew
    exact (hd ((Database.applyOperation_nextComment ho).trans hfew)).applyOperation hfew ho
  obtain ⟨d₁, d₂, d₃, d₄, h₁, h₂, h₃, h₄, rfl⟩ := finishBlock_ok.1 hfinish
  have hcore₁ := of_triple Database.updateGlobalDynamicData_core trivial h₁
  have hcore₂ := of_triple Database.updateSigningWitness_core trivial h₂
  have hcore₃ := of_triple Database.updateLastIrreversibleBlock_core trivial h₃
  have hcore : (d₃.createBlockSummary env b).core = d₃.core :=
    Database.core_createBlockSummary env d₃ b
  rw [hcore₃, hcore₂, hcore₁] at hcore
  obtain ⟨d₅, hcomments, hnext, hchildren, hforks, hprocess⟩ :=
    of_triple Database.endBlock_comments trivial h₄
  change d₅.core.comments = (d₃.createBlockSummary env b).core.comments at hcomments
  change d₅.core.nextComment = (d₃.createBlockSummary env b).core.nextComment at hnext
  change d₅.core.children = (d₃.createBlockSummary env b).core.children at hchildren
  change d₅.core.hardforks = (d₃.createBlockSummary env b).core.hardforks at hforks
  rw [hcore] at hcomments hnext hchildren hforks
  have hsame : d₄.core.nextComment = d₅.core.nextComment := by
    rw [of_triple Database.processHardforks_core trivial hprocess]
  have hfew' : d₅.core.nextComment ≤ two32 := by
    rw [← hsame]
    exact hfew
  refine (Database.Tree.of_core (hops (by rwa [hnext] at hfew')) hcomments hnext hchildren ?_).processHardforks
    hfew' hprocess
  intro h6
  rwa [Database.hasHardfork_core, hforks, ← Database.hasHardfork_core] at h6

theorem Reachable.tree (h : Reachable env s) (hfew : s.db.comments.nextId ≤ two32) : s.db.Tree := by
  revert hfew
  induction h with
  | genesis => exact fun _ => initGenesis_tree initSupply
  | block b _ hb ih => exact applyBlock_tree ih hb

end ChainState

/-! ### The tree of a state -/

namespace Database

/- `p` is what the parent of `c` is found to be. -/
def Replies (d : Database) (c p : Comment) : Prop :=
  c ∈ d.comments.rows ∧ c.parentAuthor ≠ rootPostParent ∧
    d.getComment c.parentAuthor c.parentPermlink = .ok p

open Classical in
/-- The proper descendants of a comment. -/
noncomputable def descendants (d : Database) (c : Comment) : List Comment :=
  d.comments.rows.filter fun b => Relation.TransGen d.Replies b c

/-- The comments of a state are a tree below every root post, and counted as such. -/
structure CommentTree (d : Database) : Prop where
  parent : ∀ c ∈ d.comments.rows, c.parentAuthor ≠ rootPostParent →
    ∃ p, d.getComment c.parentAuthor c.parentPermlink = .ok p ∧ c.depth = p.depth + 1 ∧
      c.rootComment = p.rootComment
  root : ∀ c ∈ d.comments.rows, ∃ r, d.getCommentById c.rootComment = .ok r ∧
    r.parentAuthor = rootPostParent ∧ Relation.ReflTransGen d.Replies c r
  children : ∀ c ∈ d.comments.rows, c.children = (d.descendants c).length

variable {d : Database}

def commentShape : Shape Comment CommentKey := ⟨Comment.key, Comment.parentKey, Comment.depth⟩

theorem parentKey_some {c : Comment} {k : CommentKey} (h : c.parentKey = some k) :
    c.parentAuthor ≠ rootPostParent ∧ k = ⟨c.parentAuthor, cString c.parentPermlink⟩ := by
  unfold Comment.parentKey at h
  split at h
  · cases h
  · next hne => exact ⟨hne, (Option.some.inj h).symm⟩

theorem parentKey_of_ne {c : Comment} (h : c.parentAuthor ≠ rootPostParent) :
    c.parentKey = some ⟨c.parentAuthor, cString c.parentPermlink⟩ := if_neg h

theorem Tree.forest (h : d.Tree) : commentShape.Forest d.comments.rows :=
  Shape.Forest.of_map (f := Comment.node) (fun _ => rfl) (fun _ => rfl) (fun _ => rfl)
    h.discussions.forest

theorem getComment_of_key {author : Name} {permlink : Bytes} {p : Comment} (h : d.Tree)
    (hp : p ∈ d.comments.rows) (hkey : p.key = ⟨author, cString permlink⟩) :
    d.getComment author permlink = .ok p := by
  have hfind : d.findComment author permlink = some p := by
    cases hf : d.findComment author permlink with
    | none => exact absurd hkey (findComment_none hf p.node (List.mem_map_of_mem hp))
    | some q =>
      obtain ⟨hq, hqkey⟩ := getComment_ok (d := d) (c := q) (by rw [getComment, hf]; rfl)
      rw [h.forest.eq_of_key hq hp (hqkey.trans hkey.symm)]
  rw [getComment, hfind]
  rfl

theorem getCommentById_of_mem {c : Comment} (h : d.Tree) (hc : c ∈ d.comments.rows) :
    d.getCommentById c.id = .ok c := by
  have hids : (d.comments.rows.map Comment.id).Nodup := by
    have hids := h.discussions.ids
    rwa [core, List.map_map] at hids
  have hfind : d.comments.find (fun x => x.id == c.id) = some c := by
    cases hf : d.comments.find fun x => x.id == c.id with
    | none => simpa using List.find?_eq_none.1 hf c hc
    | some q =>
      have hid : q.id = c.id := by simpa using List.find?_some hf
      rw [List.inj_on_of_nodup_map hids (List.mem_of_find?_eq_some hf) hc hid]
  rw [getCommentById, hfind]
  rfl

theorem replies_eq (h : d.Tree) : d.Replies = commentShape.Under d.comments.rows := by
  funext c p
  apply propext
  constructor
  · rintro ⟨hc, hparent, hp⟩
    obtain ⟨hmem, hkey⟩ := getComment_ok hp
    exact ⟨hc, hmem, (parentKey_of_ne hparent).trans (congrArg some hkey.symm)⟩
  · rintro ⟨hc, hp, hup⟩
    obtain ⟨hparent, hkey⟩ := parentKey_some hup
    exact ⟨hc, hparent, getComment_of_key h hp hkey⟩

theorem Tree.parent (h : d.Tree) {c : Comment} (hc : c ∈ d.comments.rows)
    (hparent : c.parentAuthor ≠ rootPostParent) :
    ∃ p, d.getComment c.parentAuthor c.parentPermlink = .ok p ∧ c.depth = p.depth + 1 ∧
      c.rootComment = p.rootComment := by
  obtain ⟨p, hp, hkey, hdepth⟩ := h.forest.grounded c hc _ (parentKey_of_ne hparent)
  refine ⟨p, getComment_of_key h hp hkey, hdepth, ?_⟩
  exact h.discussions.reply c.node (List.mem_map_of_mem hc) p.node (List.mem_map_of_mem hp)
    ((parentKey_of_ne hparent).trans (congrArg some hkey.symm))

theorem Tree.root (h : d.Tree) {c : Comment} (hc : c ∈ d.comments.rows) :
    ∃ r, d.getCommentById c.rootComment = .ok r ∧ r.parentAuthor = rootPostParent ∧
      Relation.ReflTransGen d.Replies c r := by
  rw [replies_eq h]
  induction c, hc using h.forest.induction with
  | root c hc hup =>
    have hid : c.rootComment = c.id := h.discussions.root c.node (List.mem_map_of_mem hc) hup
    refine ⟨c, hid ▸ getCommentById_of_mem h hc, ?_, .refl⟩
    by_contra hparent
    have := (parentKey_of_ne hparent).symm.trans hup
    cases this
  | under c hc p hp hup hdepth ih =>
    obtain ⟨r, hr, hroot, hpath⟩ := ih
    have hsame : c.rootComment = p.rootComment := h.discussions.reply c.node
      (List.mem_map_of_mem hc) p.node (List.mem_map_of_mem hp) hup
    exact ⟨r, hsame ▸ hr, hroot, .head ⟨hc, hp, hup⟩ hpath⟩

theorem Tree.children (h : d.Tree) (h6 : d.hasHardfork 6) {c : Comment}
    (hc : c ∈ d.comments.rows) : c.children = (d.descendants c).length := by
  have hexact : c.children = repliesBelow d.core.comments c.key :=
    h.exact h6 c.counter (List.mem_map_of_mem hc)
  have hrows : repliesBelow d.core.comments c.key = commentShape.descendants d.comments.rows c.key :=
    Shape.descendants_map (f := Comment.node) (fun _ => rfl) (fun _ => rfl) (fun _ => rfl) c.key
  rw [hexact, hrows]
  unfold Shape.descendants descendants
  rw [replies_eq h, ← List.countP_eq_length_filter]
  refine List.countP_congr fun b hb => ?_
  simp only [decide_eq_true_eq]
  exact h.forest.mem_ancestors_iff hb hc

end Database

namespace ChainState

variable {env : Env} {s : ChainState}

/-- In every reachable state since hardfork 6 the comments are a tree below every root post, and
every comment counts its proper descendants, as long as the counters can hold the number of
comments made. -/
theorem Reachable.comment_tree (h : Reachable env s) (h6 : s.db.hasHardfork 6)
    (hfew : s.db.comments.nextId ≤ two32) : s.db.CommentTree where
  parent _ hc hparent := (h.tree hfew).parent hc hparent
  root _ hc := (h.tree hfew).root hc
  children _ hc := (h.tree hfew).children h6 hc

end ChainState

/- A comment of a genesis account, below the comment `parent`. -/
def demoComment (account : Nat) (parentAuthor : Name) (parentPermlink permlink : Bytes) :
    Transaction where
  refBlockNum := 0
  refBlockPrefix := 0
  expiration := genesisTime + 60
  operations := [.comment {
    parentAuthor := parentAuthor
    parentPermlink := parentPermlink
    author := Database.genesisAccountName account
    permlink := permlink
    title := { size := 1 }
    body := { size := 1 }
    json := { size := 0 } }]
  signatures := [initPublicKey]

/- A root post and a reply to it. -/
def demoDiscussion : List Transaction :=
  [demoComment 1 rootPostParent [97, 98] [97, 98, 99],
    { demoComment 2 (Database.genesisAccountName 1) [97, 98, 99] [97, 98, 100] with
      expiration := genesisTime + 61 }]

/- The vote of every block for the last hardfork. -/
def demoVote : List HeaderExtension :=
  [.version (hardforkVersion numHardforks), .hardforkVersionVote (hardforkVersion numHardforks) 0]

/-- A discussion from before the hardforks, which the votes of two rounds apply. -/
theorem comment_tree_demo : ∃ s : ChainState, s.db.comments.rows.map Comment.children = [1, 0] ∧
    s.db.CommentTree := by
  have h : ((demoDiscussion :: List.replicate 100 []).foldlM (ChainState.produce demoVote)
      (ChainState.initGenesis initSupply)).map (fun s => (s.db.comments.rows.map Comment.children,
        s.db.hasHardfork 6, decide (s.db.comments.nextId ≤ two32))) = .ok ([1, 0], true, true) := by
    decide +kernel
  obtain ⟨s, hrun, hs⟩ := map_ok.1 h
  obtain ⟨hchildren, hs⟩ := Prod.mk.inj hs
  obtain ⟨h6, hfew⟩ := Prod.mk.inj hs
  exact ⟨s, hchildren, ChainState.Reachable.comment_tree (.produce .genesis hrun) h6
    (of_decide_eq_true hfew)⟩

end WeNode.Chain
