import WeNode.Lib.Forest
import WeNode.Chain.BlockSteps
import WeNode.Chain.CoreBlocks

/-!
# The tree of comments

Comments are found by author and permlink, and a reply names its parent so.  The places of the
comments form a forest, and every comment counts the replies below it: an upper bound until
hardfork 6, when the counts are taken anew, and exactly since then.
-/

set_option mvcgen.warning false

namespace WeNode.Chain

open WeNode.Lib Std.Do

def CommentNode.shape : Shape CommentNode CommentKey := ⟨CommentNode.key, CommentNode.parent, CommentNode.depth⟩

/-- The places of the comments of a state that numbers its next comment `next`. -/
structure Discussions (l : List CommentNode) (next : Nat) : Prop where
  forest : CommentNode.shape.Forest l
  ids : (l.map CommentNode.id).Nodup
  fresh : ∀ n ∈ l, n.id < next
  root : ∀ n ∈ l, n.parent = none → n.root = n.id
  reply : ∀ n ∈ l, ∀ p ∈ l, n.parent = some p.key → n.root = p.root

namespace Discussions

variable {l l₁ l₂ : List CommentNode} {n : CommentNode} {next : Nat}

theorem eq_of_id (h : Discussions l next) {m : CommentNode} (hm : m ∈ l) (hn : n ∈ l)
    (hid : m.id = n.id) : m = n := List.inj_on_of_nodup_map h.ids hm hn hid

theorem create (h : Discussions l next) (hid : n.id = next) (hnew : ∀ m ∈ l, m.key ≠ n.key)
    (hroot : n.parent = none → n.root = n.id)
    (hreply : ∀ k, n.parent = some k →
      ∃ p ∈ l, p.key = k ∧ n.depth = p.depth + 1 ∧ n.root = p.root) :
    Discussions (l ++ [n]) (next + 1) := by
  have hl : l ++ [] = l := List.append_nil l
  have hforest : CommentNode.shape.Forest (l ++ n :: []) := by
    refine Shape.Forest.insert (by rw [hl]; exact h.forest) (by rw [hl]; exact hnew) ?_
    intro k hk
    obtain ⟨p, hp, hkey, hdepth, -⟩ := hreply k hk
    exact ⟨p, by rwa [hl], hkey, hdepth⟩
  have hnkey : ∀ p ∈ l ++ [n], n.parent = some p.key → p ∈ l ∧ n.root = p.root := by
    intro p hp hup
    obtain ⟨q, hq, hkey, -, hqroot⟩ := hreply _ hup
    have hpq : p = q := hforest.eq_of_key hp (List.mem_append_left _ hq) hkey.symm
    exact ⟨hpq ▸ hq, hpq ▸ hqroot⟩
  refine ⟨hforest, ?_, ?_, ?_, ?_⟩
  · rw [List.map_append]
    refine List.nodup_append'.2 ⟨h.ids, List.nodup_singleton _, ?_⟩
    intro i hi hin
    obtain ⟨m, hm, rfl⟩ := List.mem_map.1 hi
    have hlt := h.fresh m hm
    simp only [List.map_cons, List.map_nil, List.mem_singleton] at hin
    omega
  · intro m hm
    rcases List.mem_append.1 hm with hm | hm
    · exact Nat.lt_succ_of_lt (h.fresh m hm)
    · rw [List.mem_singleton.1 hm, hid]
      exact Nat.lt_succ_self next
  · intro m hm hup
    rcases List.mem_append.1 hm with hm | hm
    · exact h.root m hm hup
    · rw [List.mem_singleton.1 hm] at hup ⊢
      exact hroot hup
  · intro m hm p hp hup
    rcases List.mem_append.1 hm with hm | hm
    · obtain ⟨q, hq, hkey, -⟩ := h.forest.grounded m hm _ hup
      have hpq : p = q := hforest.eq_of_key hp (List.mem_append_left _ hq) hkey.symm
      exact hpq ▸ h.reply m hm q hq (hpq ▸ hup)
    · rw [List.mem_singleton.1 hm] at hup ⊢
      exact (hnkey p hp hup).2

theorem remove (h : Discussions (l₁ ++ n :: l₂) next)
    (hleaf : ∀ m ∈ l₁ ++ n :: l₂, m.parent ≠ some n.key) : Discussions (l₁ ++ l₂) next := by
  have hsub : ∀ m ∈ l₁ ++ l₂, m ∈ l₁ ++ n :: l₂ := fun m hm => by
    rcases List.mem_append.1 hm with hm | hm
    · exact List.mem_append_left _ hm
    · exact List.mem_append_right _ (List.mem_cons_of_mem _ hm)
  refine ⟨h.forest.prune hleaf, ?_, fun m hm => h.fresh m (hsub m hm),
    fun m hm => h.root m (hsub m hm), fun m hm p hp => h.reply m (hsub m hm) p (hsub p hp)⟩
  have hids := h.ids
  rw [List.map_append, List.map_cons] at hids
  rw [List.map_append]
  exact hids.sublist ((List.sublist_cons_self _ _).append_left _)

end Discussions

namespace Database

variable {d d' : Database}

theorem children_keys (d : Database) :
    d.core.children.map (·.1) = d.core.comments.map CommentNode.key := by
  simp [core, Comment.counter, Comment.node]

theorem getComment_ok {author : Name} {permlink : Bytes} {c : Comment}
    (h : d.getComment author permlink = .ok c) :
    c ∈ d.comments.rows ∧ c.key = ⟨author, cString permlink⟩ := by
  have hfind := found_ok h
  have hkey := List.find?_some hfind
  simp only [Bool.and_eq_true, beq_iff_eq] at hkey
  exact ⟨List.mem_of_find?_eq_some hfind, by rw [Comment.key, hkey.1, hkey.2]⟩

variable {f : Comment → Comment} {g : Nat → Nat}

/-- A change of one comment that leaves its place. -/
theorem modifyComment_counter {c : Comment} (hn : ∀ c, (f c).node = c.node)
    (ht : ∀ c, (f c).tally = c.tally) (hc : ∀ c, (f c).counter = (c.key, g c.children))
    (hd : Discussions d.core.comments d.core.nextComment) (hmem : c ∈ d.comments.rows)
    (h : d.modifyComment c.id (fun c => .ok (f c)) = .ok d') :
    d'.core = { d.core with children := d.core.children.map (Shape.bump g [c.key]) } := by
  have hcore := of_triple (modifyComment_children (f := fun c => .ok (f c))
    (fun c => by mvcgen; exact hn c) (fun c => by mvcgen; exact ht c)) trivial h
  unfold modifyComment at h
  obtain ⟨t, hrow, rfl⟩ := of_modify h
  obtain ⟨x, y, hxy, ⟨hx, pre, post, hpre, hpost, -⟩, -⟩ := Table.modify_ok hrow
  cases hxy
  have hxmem : x ∈ d.comments.rows := by
    rw [hpre]
    exact List.mem_append_right _ List.mem_cons_self
  have hnodes : x.node = c.node := hd.eq_of_id (List.mem_map_of_mem hxmem)
    (List.mem_map_of_mem hmem) (beq_iff_eq.1 hx)
  have hxkey : x.key = c.key := congrArg CommentNode.key hnodes
  have hkeys : ((pre ++ x :: post).map Comment.key).Nodup := by
    have hnodup := hd.forest.keys
    rw [show d.core.comments.map CommentNode.shape.key = d.comments.rows.map Comment.key by
      simp [core, CommentNode.shape, Comment.node, Function.comp_def], hpre] at hnodup
    exact hnodup
  have hother : ∀ z ∈ pre ++ post, Shape.bump g [c.key] z.counter = z.counter := by
    intro z hz
    have hne : z.key ≠ c.key := by
      intro heq
      rw [List.perm_middle.map _ |>.nodup_iff, List.map_cons, List.nodup_cons] at hkeys
      exact hkeys.1 (List.mem_map.2 ⟨z, hz, heq.trans hxkey.symm⟩)
    simp [Shape.bump, Comment.counter, hne]
  have hself : Shape.bump g [c.key] x.counter = (f x).counter := by
    rw [hc x]
    simp [Shape.bump, Comment.counter, hxkey]
  have hcounters : t.rows.map Comment.counter =
      (d.comments.rows.map Comment.counter).map (Shape.bump g [c.key]) := by
    rw [hpost, hpre, List.map_map, List.map_append, List.map_append, List.map_cons, List.map_cons,
      Function.comp_apply, hself]
    congr 1
    · exact List.map_congr_left fun z hz => (hother z (List.mem_append_left _ hz)).symm
    · congr 1
      exact List.map_congr_left fun z hz => (hother z (List.mem_append_right _ hz)).symm
  rw [hcore]
  exact congrArg (fun l => { d.core with children := l }) hcounters

/-- A walk up the tree changes the counters of a comment and of everything above it. -/
theorem walkParents_tree (hn : ∀ c, (f c).node = c.node) (ht : ∀ c, (f c).tally = c.tally)
    (hc : ∀ c, (f c).counter = (c.key, g c.children)) {fuel : Nat} {author : Name}
    {permlink : Bytes} (hd : Discussions d.core.comments d.core.nextComment)
    (h : walkParents f fuel d author permlink = .ok d') :
    ∃ q ∈ d.core.comments, q.key = ⟨author, cString permlink⟩ ∧
      d'.core = { d.core with
        children := d.core.children.map <|
          Shape.bump g (q.key :: CommentNode.shape.ancestors d.core.comments q) } := by
  induction fuel generalizing d author permlink with
  | zero => cases h
  | succ fuel ih =>
    obtain ⟨p, hp, h⟩ := bind_ok.1 h
    obtain ⟨d₁, hd₁, h⟩ := bind_ok.1 h
    obtain ⟨hmem, hkey⟩ := getComment_ok hp
    have hcore₁ := modifyComment_counter hn ht hc hd hmem hd₁
    have hpnode : p.node ∈ d.core.comments := List.mem_map_of_mem hmem
    refine ⟨p.node, hpnode, hkey, ?_⟩
    by_cases hroot : p.parentAuthor = rootPostParent
    · simp only [hroot, ne_eq, not_true_eq_false, if_false] at h
      cases h
      rw [hcore₁, Shape.ancestors_root (by simp [CommentNode.shape, Comment.node, Comment.parentKey,
        hroot])]
      rfl
    · simp only [ne_eq, hroot, not_false_eq_true, if_true] at h
      have hsame : d₁.core.comments = d.core.comments := by rw [hcore₁]
      have hnext : d₁.core.nextComment = d.core.nextComment := by rw [hcore₁]
      obtain ⟨q, hq, hqkey, hcore'⟩ := ih (by rw [hsame, hnext]; exact hd) h
      rw [hsame] at hq hcore'
      have hup : CommentNode.shape.up p.node = some q.key := by
        rw [hqkey]
        simp [CommentNode.shape, Comment.node, Comment.parentKey, hroot]
      obtain ⟨q', hq', hq'key, hdepth⟩ := hd.forest.grounded _ hpnode _ hup
      obtain rfl : q' = q := hd.forest.eq_of_key hq' hq hq'key
      have hanc := hd.forest.ancestors_under hq hup hdepth
      have hnot : p.key ∉ q'.key :: CommentNode.shape.ancestors d.core.comments q' :=
        hanc ▸ hd.forest.key_notMem_ancestors hpnode
      rw [hcore', hcore₁, hanc]
      simp only [List.map_map]
      congr 1
      exact List.map_congr_left fun c _ => Shape.bump_bump g hnot c

theorem ancestors_root {c : Comment} (l : List CommentNode) (h : c.parentAuthor = rootPostParent) :
    CommentNode.shape.ancestors l c.node = [] :=
  Shape.ancestors_root (by simp [CommentNode.shape, Comment.node, Comment.parentKey, h])

/-- A walk from the parent of a comment changes the counters of everything above it. -/
theorem walkParents_above (hn : ∀ c, (f c).node = c.node) (ht : ∀ c, (f c).tally = c.tally)
    (hc : ∀ c, (f c).counter = (c.key, g c.children)) {fuel : Nat} {c : Comment}
    (hd : Discussions d.core.comments d.core.nextComment) (hmem : c.node ∈ d.core.comments)
    (hparent : c.parentAuthor ≠ rootPostParent)
    (h : walkParents f fuel d c.parentAuthor c.parentPermlink = .ok d') :
    d'.core = { d.core with
      children := d.core.children.map <|
        Shape.bump g (CommentNode.shape.ancestors d.core.comments c.node) } := by
  obtain ⟨q, hq, hqkey, hwalk⟩ := walkParents_tree hn ht hc hd h
  have hname : CommentNode.shape.up c.node = some q.key := by
    rw [hqkey]
    simp [CommentNode.shape, Comment.node, Comment.parentKey, hparent]
  obtain ⟨q', hq', hq'key, hdepth⟩ := hd.forest.grounded _ hmem _ hname
  obtain rfl : q' = q := hd.forest.eq_of_key hq' hq hq'key
  rw [hwalk, hd.forest.ancestors_under hq hname hdepth]
  rfl

/-! ### The counts -/

/-- How many comments lie below the comment of a key. -/
def repliesBelow (l : List CommentNode) (k : CommentKey) : Nat :=
  CommentNode.shape.descendants l k

/-- The invariant: the comments form a forest, and their counts follow it. -/
structure Tree (d : Database) : Prop where
  discussions : Discussions d.core.comments d.core.nextComment
  bound : ∀ c ∈ d.core.children,
    repliesBelow d.core.comments c.1 ≤ c.2 ∧ c.2 < d.core.nextComment
  exact : d.hasHardfork 6 → ∀ c ∈ d.core.children, c.2 = repliesBelow d.core.comments c.1

theorem Tree.of_core (h : d.Tree) (hcomments : d'.core.comments = d.core.comments)
    (hnext : d'.core.nextComment = d.core.nextComment)
    (hchildren : d'.core.children = d.core.children)
    (h6 : d'.hasHardfork 6 → d.hasHardfork 6) : d'.Tree := by
  constructor
  · rw [hcomments, hnext]
    exact h.discussions
  · rw [hcomments, hnext, hchildren]
    exact h.bound
  · rw [hcomments, hchildren]
    exact fun h' => h.exact (h6 h')

/-! ### Creation -/

theorem newComment_node (o : CommentOperation) (parent : Option Comment) (weight id : Nat)
    (hauthor : ∀ p ∈ parent, p.author ≠ rootPostParent) (hdepth : ∀ p ∈ parent, p.depth < 65535) :
    (o.newComment d parent weight id).node =
      { id := id
        created := d.headBlockTime
        key := ⟨o.author, cString o.permlink⟩
        parent := parent.map Comment.key
        depth := parent.elim 0 fun p => p.depth + 1
        root := parent.elim id fun p => p.rootComment } := by
  cases parent with
  | none =>
    simp only [CommentOperation.newComment]
    split <;> simp [Comment.node, Comment.key, Comment.parentKey, rootPostParent]
  | some p =>
    have hp := hauthor p rfl
    have hmod : (p.depth + 1) % 65536 = p.depth + 1 := Nat.mod_eq_of_lt (by
      have := hdepth p rfl
      omega)
    simp only [CommentOperation.newComment]
    split <;> simp [Comment.node, Comment.key, Comment.parentKey, hp, hmod]

theorem newComment_counter (o : CommentOperation) (parent : Option Comment) (weight id : Nat) :
    (o.newComment d parent weight id).counter = (⟨o.author, cString o.permlink⟩, 0) := by
  cases parent <;> simp only [CommentOperation.newComment] <;> split <;> rfl

theorem create_core (o : CommentOperation) (parent : Option Comment) (weight : Nat)
    {n : CommentNode} (hn : n = (o.newComment d parent weight d.comments.nextId).node) :
    core { d with comments := d.comments.create (o.newComment d parent weight) } = { d.core with
      comments := d.core.comments ++ [n]
      nextComment := d.core.nextComment + 1
      children := d.core.children ++ [(n.key, 0)]
      tallies := d.core.tallies ++ [(o.newComment d parent weight d.comments.nextId).tally] } := by
  have hcounter := newComment_counter (d := d) o parent weight d.comments.nextId
  have hkey : n.key = ⟨o.author, cString o.permlink⟩ := by
    rw [hn]
    exact congrArg Prod.fst hcounter
  rw [core_comments, hkey, ← hcounter, hn]
  simp [Table.create, core]

/-- A new comment is counted once by everything above it. -/
theorem place_ok {o : CommentOperation} {parent : Option Comment} {weight : Nat} {now : Time}
    {n : CommentNode} (hn : n = (o.newComment d parent weight d.comments.nextId).node)
    (hauthor : ∀ p ∈ parent, p.author ≠ rootPostParent) (hdepth : ∀ p ∈ parent, p.depth < 65535)
    (hl : Discussions (d.core.comments ++ [n]) (d.core.nextComment + 1))
    (hparent : ∀ p ∈ parent, p.node ∈ d.core.comments)
    (h : o.place d parent weight now = .ok d') :
    d'.core = { d.core with
      comments := d.core.comments ++ [n]
      nextComment := d.core.nextComment + 1
      children := (d.core.children ++ [(n.key, 0)]).map <|
        Shape.bump (fun x => (x + 1) % two32) (CommentNode.shape.ancestors (d.core.comments ++ [n]) n)
      tallies := d.core.tallies ++ [(o.newComment d parent weight d.comments.nextId).tally] } := by
  have hnode := newComment_node (d := d) o parent weight d.comments.nextId hauthor hdepth
  rw [← hn] at hnode
  have hcreate := create_core o parent weight hn
  unfold CommentOperation.place at h
  cases parent with
  | none =>
    cases h
    rw [Shape.ancestors_root (by rw [hnode]; rfl), hcreate, Shape.bump_nil, List.map_id]
  | some p =>
    change walkParents _ _ _ _ _ = _ at h
    obtain ⟨q, hq, hqkey, hwalk⟩ := walkParents_tree (g := fun x => (x + 1) % two32)
      (fun _ => by rfl) (fun _ => by rfl) (fun _ => by rfl) (by rw [hcreate]; exact hl) h
    have hp : p.node ∈ d.core.comments ++ [n] := List.mem_append_left _ (hparent p rfl)
    rw [hcreate] at hq hwalk
    obtain rfl : q = p.node := hl.forest.eq_of_key hq hp hqkey
    rw [hwalk, hl.forest.ancestors_under (a := n) hp (by rw [hnode]; rfl) (by rw [hnode]; rfl)]
    rfl

theorem Tree.place {o : CommentOperation} {parent : Option Comment} {weight : Nat} {now : Time}
    (hd : d.Tree) (hnew : ∀ m ∈ d.core.comments, m.key ≠ ⟨o.author, cString o.permlink⟩)
    (hparent : ∀ p ∈ parent,
      p.node ∈ d.core.comments ∧ p.author ≠ rootPostParent ∧ p.depth < 65535)
    (hfew : d.core.nextComment < two32) (h : o.place d parent weight now = .ok d') : d'.Tree := by
  have hauthor : ∀ p ∈ parent, p.author ≠ rootPostParent := fun p hp => (hparent p hp).2.1
  have hdepth : ∀ p ∈ parent, p.depth < 65535 := fun p hp => (hparent p hp).2.2
  have hmem : ∀ p ∈ parent, p.node ∈ d.core.comments := fun p hp => (hparent p hp).1
  obtain ⟨n, hn⟩ : ∃ n, n = (o.newComment d parent weight d.comments.nextId).node := ⟨_, rfl⟩
  have hnode := hn.trans (newComment_node o parent weight d.comments.nextId hauthor hdepth)
  have hkey : n.key = ⟨o.author, cString o.permlink⟩ := by rw [hnode]
  have hl : Discussions (d.core.comments ++ [n]) (d.core.nextComment + 1) := by
    refine hd.discussions.create (by rw [hnode]; rfl) (by rw [hkey]; exact hnew) ?_ ?_
    · cases parent with
      | none => exact fun _ => by rw [hnode]; rfl
      | some p => exact fun hup => by rw [hnode] at hup; cases hup
    · intro k hk
      cases parent with
      | none =>
        rw [hnode] at hk
        cases hk
      | some p =>
        rw [hnode] at hk
        cases hk
        exact ⟨p.node, hmem p rfl, rfl, by rw [hnode]; rfl, by rw [hnode]; rfl⟩
  have hcore := place_ok hn hauthor hdepth hl hmem h
  have hcount : ∀ k, repliesBelow (d.core.comments ++ [n]) k = repliesBelow d.core.comments k +
      if k ∈ CommentNode.shape.ancestors (d.core.comments ++ [n]) n then 1 else 0 := fun k => by
    have hbefore : CommentNode.shape.Forest (d.core.comments ++ []) := by
      rw [List.append_nil]
      exact hd.discussions.forest
    have hone := hbefore.descendants_insert hl.forest k
    rwa [List.append_nil] at hone
  have hnone : repliesBelow d.core.comments n.key = 0 :=
    hd.discussions.forest.descendants_absent fun m hm => by rw [hkey]; exact hnew m hm
  have hself : n.key ∉ CommentNode.shape.ancestors (d.core.comments ++ [n]) n :=
    hl.forest.key_notMem_ancestors (List.mem_append_right _ (List.mem_singleton.2 rfl))
  constructor
  · rw [hcore]
    exact hl
  · rw [hcore]
    intro c hc
    obtain ⟨b, hb, rfl⟩ := List.mem_map.1 hc
    rw [Shape.bump_key, hcount]
    rcases List.mem_append.1 hb with hb | hb
    · obtain ⟨hle, hlt⟩ := hd.bound b hb
      have hmod : (b.2 + 1) % two32 = b.2 + 1 := Nat.mod_eq_of_lt (by omega)
      unfold Shape.bump
      split <;> dsimp only <;> omega
    · rw [List.mem_singleton.1 hb]
      simp [Shape.bump, hself, hnone]
  · rw [hcore]
    intro h6 c hc
    have h6' : d.hasHardfork 6 := by
      rw [hasHardfork_core, hcore] at h6
      exact h6
    obtain ⟨b, hb, rfl⟩ := List.mem_map.1 hc
    rw [Shape.bump_key, hcount]
    rcases List.mem_append.1 hb with hb | hb
    · have hexact := hd.exact h6' b hb
      have hlt := (hd.bound b hb).2
      have hmod : (b.2 + 1) % two32 = b.2 + 1 := Nat.mod_eq_of_lt (by omega)
      unfold Shape.bump
      split
      · show (b.2 + 1) % two32 = _
        omega
      · omega
    · rw [List.mem_singleton.1 hb]
      simp [Shape.bump, hself, hnone]

theorem findComment_none {author : Name} {permlink : Bytes}
    (h : d.findComment author permlink = none) :
    ∀ m ∈ d.core.comments, m.key ≠ ⟨author, cString permlink⟩ := by
  intro m hm hkey
  obtain ⟨c, hc, rfl⟩ := List.mem_map.1 hm
  have hno := List.find?_eq_none.1 h c hc
  have hkey : c.key = ⟨author, cString permlink⟩ := hkey
  simp only [Comment.key, CommentKey.mk.injEq] at hkey
  simp [hkey.1, hkey.2] at hno

theorem findParent_ok {o : CommentOperation} {parent : Option Comment}
    (h : o.findParent d = .ok parent) :
    ∀ p ∈ parent, p.node ∈ d.core.comments ∧ p.author ≠ rootPostParent ∧ p.depth < 65535 := by
  intro p hp
  cases hp
  unfold CommentOperation.findParent at h
  by_cases hroot : o.parentAuthor = rootPostParent
  · simp only [hroot, if_true] at h
    cases h
  · simp only [hroot, if_false] at h
    obtain ⟨q, hq, h⟩ := bind_ok.1 h
    obtain ⟨_, hdepth, h⟩ := bind_ok.1 h
    cases h
    obtain ⟨hmem, hkey⟩ := getComment_ok hq
    have hauthor : p.author = o.parentAuthor := congrArg CommentKey.author hkey
    have hlt := of_triple require_spec trivial hdepth
    refine ⟨List.mem_map_of_mem hmem, hauthor ▸ hroot, ?_⟩
    split at hlt <;> simp only [maxCommentDepth, maxCommentDepthPreHF17] at hlt <;> omega

theorem place_next {o : CommentOperation} {parent : Option Comment} {weight : Nat} {now : Time} :
    ⦃⌜True⌝⦄ o.place d parent weight now
      ⦃⇓? d' => ⌜d'.core.nextComment = d.core.nextComment + 1⌝⦄ := by
  mvcgen [CommentOperation.place, walkParents_core]
  all_goals first
    | exact fun _ => rfl
    | simp_all +zetaDelta [Table.create, core]

/- A comment operation creates a comment or edits one, which leaves the tree. -/
theorem applyComment_spec {o : CommentOperation} :
    ⦃⌜True⌝⦄ o.apply d
      ⦃⇓? d' => ⌜d'.core = d.core ∨ ∃ parent a, o.findParent d = .ok parent ∧
        d.findComment o.author o.permlink = none ∧ o.create d a parent = .ok d'⌝⦄ := by
  have hcreate : ∀ (d : Database) a parent, ⦃⌜True⌝⦄ o.create d a parent
      ⦃⇓? d' => ⌜o.create d a parent = .ok d'⌝⦄ := fun _ _ _ => triple_ok
  mvcgen [CommentOperation.apply, hcreate, CommentOperation.edit_core]
  all_goals grind

theorem Tree.applyComment {o : CommentOperation} (hd : d.Tree)
    (hfew : d'.core.nextComment ≤ two32) (h : o.apply d = .ok d') : d'.Tree := by
  rcases of_triple applyComment_spec trivial h with hcore | ⟨parent, a, hparent, hnone, hcreate⟩
  · exact hd.of_core (by rw [hcore]) (by rw [hcore]) (by rw [hcore]) fun h6 => by
      rwa [hasHardfork_core, hcore, ← hasHardfork_core] at h6
  · obtain ⟨d₁, weight, now, hd₁, hplace⟩ :=
      of_triple CommentOperation.create_spec trivial hcreate
    have htree : d₁.Tree := hd.of_core (by rw [hd₁]) (by rw [hd₁]) (by rw [hd₁]) fun h6 => by
      rwa [hasHardfork_core, hd₁, ← hasHardfork_core] at h6
    have hnext := of_triple (place_next (d := d₁)) trivial hplace
    refine htree.place ?_ ?_ (by omega) hplace
    · rw [hd₁]
      exact findComment_none hnone
    · rw [hd₁]
      exact findParent_ok hparent

/-! ### Deletion -/

def dropVotes (d : Database) (comment : Nat) : Database :=
  { d with commentVotes := { d.commentVotes with
    rows := d.commentVotes.rows.filter fun v => v.comment != comment } }

/- Since hardfork 6 the comments above a deleted one count it no more. -/
def uncountReply (d : Database) (c : Comment) : Result Database :=
  if d.hasHardfork 6 ∧ c.parentAuthor ≠ rootPostParent then
    walkParents (fun p =>
      { p with children := decrement 32 p.children, active := d.headBlockTime })
      (d.comments.rows.length + 1) d c.parentAuthor c.parentPermlink
  else .ok d

theorem dropComment_eq (c : Comment) :
    dropComment d c = (d.dropVotes c.id).uncountReply c >>= fun d =>
      .ok { d with comments := d.comments.remove fun x => x.id == c.id } := by
  unfold dropComment uncountReply
  split
  · next hup => exact if_pos hup
  · next hup => exact if_neg hup

theorem uncountReply_ok {c : Comment} (hd : Discussions d.core.comments d.core.nextComment)
    (hc : c.node ∈ d.core.comments) (h : d.uncountReply c = .ok d') :
    d'.core = { d.core with
      children := if d.hasHardfork 6 then d.core.children.map <|
          Shape.bump (decrement 32) (CommentNode.shape.ancestors d.core.comments c.node)
        else d.core.children } := by
  unfold uncountReply at h
  split at h
  · next hup =>
    rw [if_pos hup.1]
    exact walkParents_above (fun _ => by rfl) (fun _ => by rfl) (fun _ => by rfl) hd hc hup.2 h
  · next hup =>
    cases h
    by_cases h6 : d.hasHardfork 6
    · have hroot : c.parentAuthor = rootPostParent := by
        by_contra hne
        exact hup ⟨h6, hne⟩
      rw [if_pos h6, ancestors_root _ hroot, Shape.bump_nil, List.map_id]
    · rw [if_neg h6]

theorem removeComment_ok {c : Comment} (hd : Discussions d.core.comments d.core.nextComment)
    (hc : c.node ∈ d.core.comments) :
    ∃ l₁ l₂, d.core.comments = l₁ ++ c.node :: l₂ ∧
      core { d with comments := d.comments.remove fun x => x.id == c.id } = { d.core with
        comments := l₁ ++ l₂
        children := (d.comments.remove fun x => x.id == c.id).rows.map Comment.counter
        tallies := (d.comments.remove fun x => x.id == c.id).rows.map Comment.tally } := by
  obtain ⟨x, hx, hnode⟩ := List.mem_map.1 hc
  have hid : x.id = c.id := congrArg CommentNode.id hnode
  obtain ⟨y, pre, post, -, hy, hsplit, herase⟩ := List.exists_of_eraseP
    (p := fun x : Comment => x.id == c.id) hx (by simpa using hid)
  have hmem : y ∈ d.comments.rows := by
    rw [hsplit]
    exact List.mem_append_right _ List.mem_cons_self
  have hynode : y.node = c.node := hd.eq_of_id (List.mem_map_of_mem hmem) hc (beq_iff_eq.1 hy)
  refine ⟨pre.map Comment.node, post.map Comment.node, ?_, ?_⟩
  · simp [core, hsplit, hynode]
  · rw [core_comments]
    simp only [Table.remove]
    rw [herase, List.map_append]
    rfl

theorem Tree.dropComment {c : Comment} (hd : d.Tree) (hc : c ∈ d.comments.rows)
    (hzero : c.children = 0) (h : dropComment d c = .ok d') : d'.Tree := by
  rw [dropComment_eq] at h
  obtain ⟨d₁, h₁, h⟩ := bind_ok.1 h
  cases h
  have hcnode : c.node ∈ d.core.comments := List.mem_map_of_mem hc
  have hcore₁ := uncountReply_ok (d := d.dropVotes c.id) hd.discussions hcnode h₁
  have hcomments : d₁.core.comments = d.core.comments := by
    rw [hcore₁]
    rfl
  have hnext : d₁.core.nextComment = d.core.nextComment := by
    rw [hcore₁]
    rfl
  have hcounters : d₁.core.children = if d.hasHardfork 6 then d.core.children.map <|
      Shape.bump (decrement 32) (CommentNode.shape.ancestors d.core.comments c.node)
      else d.core.children := by
    rw [hcore₁]
    rfl
  obtain ⟨l₁, l₂, hsplit, hcore⟩ := removeComment_ok (d := d₁) (c := c)
    (by rw [hcomments, hnext]; exact hd.discussions) (by rwa [hcomments])
  rw [hcomments] at hsplit
  have hl := hd.discussions
  rw [hsplit] at hl
  have hleaf : ∀ m ∈ l₁ ++ c.node :: l₂, m.parent ≠ some c.node.key := by
    refine hl.forest.leaf (List.mem_append_right _ List.mem_cons_self) ?_
    have hle := (hd.bound c.counter (List.mem_map_of_mem hc)).1
    rw [hsplit] at hle
    exact Nat.le_zero.1 (hle.trans_eq hzero)
  have hl' := hl.remove hleaf
  have hcount : ∀ k, repliesBelow d.core.comments k = repliesBelow (l₁ ++ l₂) k +
      if k ∈ CommentNode.shape.ancestors d.core.comments c.node then 1 else 0 := by
    rw [hsplit]
    exact hl'.forest.descendants_insert hl.forest
  -- a counter that is left was there before, moved if it is above the comment
  have hchildren : ∀ x ∈ (d₁.comments.remove fun x => x.id == c.id).rows.map Comment.counter,
      ∃ b ∈ d.core.children, x = if d.hasHardfork 6 then
        Shape.bump (decrement 32) (CommentNode.shape.ancestors d.core.comments c.node) b else b := by
    intro x hx
    obtain ⟨r, hr, rfl⟩ := List.mem_map.1 hx
    have hold : r.counter ∈ d₁.core.children := List.mem_map_of_mem (List.mem_of_mem_eraseP hr)
    rw [hcounters] at hold
    by_cases h6 : d.hasHardfork 6
    · rw [if_pos h6] at hold
      obtain ⟨b, hb, hrb⟩ := List.mem_map.1 hold
      exact ⟨b, hb, by rw [if_pos h6, hrb]⟩
    · rw [if_neg h6] at hold
      exact ⟨_, hold, by rw [if_neg h6]⟩
  -- what a counter says after the change: no less than what is left, and that exactly since 6
  have hleft : ∀ x ∈ (d₁.comments.remove fun x => x.id == c.id).rows.map Comment.counter,
      (repliesBelow (l₁ ++ l₂) x.1 ≤ x.2 ∧ x.2 < d.core.nextComment) ∧
        (d.hasHardfork 6 → x.2 = repliesBelow (l₁ ++ l₂) x.1) := by
    intro x hx
    obtain ⟨b, hb, hxb⟩ := hchildren x hx
    have hbound := hd.bound b hb
    have hone := hcount b.1
    by_cases h6 : d.hasHardfork 6
    · have hexact := hd.exact h6 b hb
      rw [if_pos h6] at hxb
      unfold Shape.bump at hxb
      split at hxb
      · next hmem =>
        rw [if_pos hmem] at hone
        have hless : decrement 32 b.2 = b.2 - 1 := if_neg (by omega)
        rw [hxb, hless]
        show (repliesBelow _ b.1 ≤ b.2 - 1 ∧ _) ∧ (_ → b.2 - 1 = repliesBelow _ b.1)
        exact ⟨by omega, fun _ => by omega⟩
      · next hmem =>
        rw [if_neg hmem] at hone
        rw [hxb]
        exact ⟨by omega, fun _ => by omega⟩
    · rw [if_neg h6] at hxb
      rw [hxb]
      exact ⟨by omega, fun h => absurd h h6⟩
  constructor
  · rw [hcore]
    show Discussions (l₁ ++ l₂) d₁.core.nextComment
    rw [hnext]
    exact hl'
  · rw [hcore]
    intro x hx
    rw [hnext]
    exact (hleft x hx).1
  · intro h6 x hx
    rw [hcore] at hx ⊢
    refine (hleft x hx).2 ?_
    rw [hasHardfork_core, hcore, hcore₁] at h6
    exact h6

/-! ### Hardfork 6 -/

/- One comment in the retally: everything above it counts it. -/
def tallyReply (d : Database) (c : Comment) : Result Database :=
  if c.parentAuthor ≠ rootPostParent then
    walkParents (fun p => { p with children := (p.children + 1) % two32 })
      (d.comments.rows.length + 1) d c.parentAuthor c.parentPermlink
  else .ok d

theorem retallyCommentChildren_eq (d : Database) : d.retallyCommentChildren =
    (d.comments.map fun c => { c with children := 0 }).rows.foldlM tallyReply
      { d with comments := d.comments.map fun c => { c with children := 0 } } := rfl

theorem tallyReply_ok {c : Comment} (hd : Discussions d.core.comments d.core.nextComment)
    (hc : c.node ∈ d.core.comments) (h : d.tallyReply c = .ok d') :
    d'.core = { d.core with
      children := d.core.children.map <| Shape.bump (fun x => (x + 1) % two32)
        (CommentNode.shape.ancestors d.core.comments c.node) } := by
  unfold tallyReply at h
  split at h
  · next hparent =>
    exact walkParents_above (fun _ => by rfl) (fun _ => by rfl) (fun _ => by rfl) hd hc hparent h
  · next hroot =>
    cases h
    rw [ancestors_root _ (not_not.1 hroot), Shape.bump_nil, List.map_id]

/-- The retally counts, modulo the width of the counters, what lies below every comment. -/
theorem retally_ok (hd : Discussions d.core.comments d.core.nextComment)
    (h : d.retallyCommentChildren = .ok d') :
    d'.core = { d.core with children := d'.core.children } ∧
      ∀ x ∈ d'.core.children, x.2 = repliesBelow d.core.comments x.1 % two32 := by
  rw [retallyCommentChildren_eq] at h
  have hzero : core { d with comments := d.comments.map fun c => { c with children := 0 } } =
      { d.core with children := d.comments.rows.map fun c => (c.key, 0) } := by
    rw [core_comments]
    simp [core, Table.map, Comment.node, Comment.counter, Comment.tally, Comment.key,
      Comment.parentKey, Function.comp_def]
  have hrun : d'.core = { d.core with children := d'.core.children } ∧
      ∀ x ∈ d'.core.children, x.2 = ((d.comments.map fun c => { c with children := 0 }).rows.map
        Comment.node).countP
          (fun n => x.1 ∈ CommentNode.shape.ancestors d.core.comments n) % two32 := by
    refine run_induction (P := fun done e => e.core = { d.core with children := e.core.children } ∧
      ∀ x ∈ e.core.children, x.2 = (done.map Comment.node).countP
        (fun n => x.1 ∈ CommentNode.shape.ancestors d.core.comments n) % two32) h ?_ ?_
    · rw [hzero]
      refine ⟨rfl, fun x hx => ?_⟩
      obtain ⟨c, -, rfl⟩ := List.mem_map.1 hx
      rfl
    · intro done e c e' hdone hc hstep
      obtain ⟨he, hcount⟩ := hdone
      have hcomments : e.core.comments = d.core.comments := by rw [he]
      have hnext : e.core.nextComment = d.core.nextComment := by rw [he]
      have hcnode : c.node ∈ e.core.comments := by
        rw [hcomments]
        obtain ⟨r, hr, rfl⟩ := List.mem_map.1 hc
        exact List.mem_map.2 ⟨r, hr, rfl⟩
      have hone := tallyReply_ok (by rw [hcomments, hnext]; exact hd) hcnode hstep
      rw [hcomments] at hone
      refine ⟨by rw [hone, he], ?_⟩
      rw [hone]
      intro x hx
      obtain ⟨b, hb, rfl⟩ := List.mem_map.1 hx
      have hbcount := hcount b hb
      rw [Shape.bump_key, List.map_append, List.countP_append]
      unfold Shape.bump
      split
      · next hmem =>
        show (b.2 + 1) % two32 = _
        rw [hbcount, Nat.mod_add_mod]
        simp [hmem]
      · next hmem =>
        rw [hbcount]
        simp [hmem]
  refine ⟨hrun.1, fun x hx => ?_⟩
  rw [hrun.2 x hx]
  simp only [Table.map, List.map_map]
  rfl

theorem Tree.retally (hd : d.Tree) (hfew : d.core.nextComment ≤ two32)
    (h : d.retallyCommentChildren = .ok d') :
    d'.Tree ∧ ∀ x ∈ d'.core.children, x.2 = repliesBelow d'.core.comments x.1 := by
  obtain ⟨hcore, hcount⟩ := retally_ok hd.discussions h
  have hcomments : d'.core.comments = d.core.comments := by rw [hcore]
  have hnext : d'.core.nextComment = d.core.nextComment := by rw [hcore]
  -- the old counters bound what lies below
  have hless : ∀ x ∈ d'.core.children,
      repliesBelow d.core.comments x.1 < d.core.nextComment := by
    intro x hx
    have hkey : x.1 ∈ d'.core.children.map (·.1) := List.mem_map_of_mem hx
    rw [children_keys, hcomments, ← children_keys] at hkey
    obtain ⟨y, hy, hyx⟩ := List.mem_map.1 hkey
    have hbound := hd.bound y hy
    rw [hyx] at hbound
    omega
  have hexact : ∀ x ∈ d'.core.children, x.2 = repliesBelow d'.core.comments x.1 := by
    intro x hx
    rw [hcount x hx, hcomments]
    exact Nat.mod_eq_of_lt ((hless x hx).trans_le hfew)
  refine ⟨⟨?_, ?_, fun _ => hexact⟩, hexact⟩
  · rw [hcomments, hnext]
    exact hd.discussions
  · intro x hx
    have hx' := hexact x hx
    rw [hcomments] at hx' ⊢
    rw [hnext]
    exact ⟨hx'.ge, hx' ▸ hless x hx⟩

end Database

end WeNode.Chain
