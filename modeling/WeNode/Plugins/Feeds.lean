import Mathlib.Data.List.Sort
import WeNode.Chain.Operations
import WeNode.Chain.State
import WeNode.Lib.NumberedRows
import WeNode.Plugins.Follow

/-!
# Feeds and blogs

libraries/plugins/follow/follow_plugin.cpp (104-135, 181-265) and follow_evaluators.cpp (119-222):
the posts in the feed of every follower and in the blog of every account.
-/

namespace WeNode.Plugins

open WeNode.Lib WeNode.Chain

/-- `feed_object` -/
structure Feed where
  account : Name
  rebloggedBy : List Name := []
  firstRebloggedBy : Name := 0
  firstRebloggedOn : Time := 0
  comment : Nat
  reblogs : Nat
  accountFeedId : Nat := 0

/-- `blog_object` -/
structure Blog where
  account : Name
  comment : Nat
  rebloggedOn : Time := 0
  blogFeedId : Nat := 0

/-- `blog_author_stats_object` -/
structure BlogAuthorStats where
  blogger : Name
  guest : Name
  count : Nat := 0

/-- `reblog_operation` -/
structure ReblogOperation where
  account : Name
  author : Name
  permlink : Bytes

/-- The options of the plugin. -/
structure FollowOptions where
  maxFeedSize : Nat := 500
  startFeeds : Time := 0

/-- The objects of the plugin. -/
structure Caches where
  follows : Follows := {}
  feeds : List Feed := []
  blogs : List Blog := []
  stats : List BlogAuthorStats := []

namespace Feed

/- The key of `by_comment` -/
def pair (f : Feed) : Nat × Name := (f.comment, f.account)

def next (a : Name) (l : List Feed) : Nat := nextNumber account accountFeedId a l

/- An object the unique indices have room for. -/
def create (f : Feed) (l : List Feed) : Result (List Feed) :=
  if l.any fun g => g.account = f.account ∧
      (g.accountFeedId = f.accountFeedId ∨ g.comment = f.comment) then .error .duplicate
  else .ok (l ++ [f])

end Feed

namespace Blog

def pair (b : Blog) : Nat × Name := (b.comment, b.account)

def next (a : Name) (l : List Blog) : Nat := nextNumber account blogFeedId a l

def create (b : Blog) (l : List Blog) : Result (List Blog) :=
  if l.any fun g => g.account = b.account ∧
      (g.blogFeedId = b.blogFeedId ∨ g.comment = b.comment) then .error .duplicate
  else .ok (l ++ [b])

end Blog

def BlogAuthorStats.pair (s : BlogAuthorStats) : Name × Name := (s.blogger, s.guest)

/- The followers of an account, in the order of `by_following_follower`. -/
def Follows.followersOf (s : Follows) (a : Name) : List Name :=
  ((s.follows.filter fun f => decide (f.following = a) && f.blog).map
    Follow.follower).insertionSort (· ≤ ·)

variable (cfg : FollowOptions)

/-! ### The visitors and the evaluator -/

/- A new post in the feed of a follower.  The source does not set `reblogs`. -/
def postFeed (c : Nat) (unset : Name → Nat) (l : List Feed) (follower : Name) :
    Result (List Feed) := do
  let nextId := Feed.next follower l
  if (lookup Feed.pair l (c, follower)).isSome then return l
  let l ← Feed.create
    { account := follower, comment := c, reblogs := unset follower, accountFeedId := nextId } l
  return evictAll Feed.account Feed.accountFeedId follower nextId cfg.maxFeedSize l

def postBlog (c : Nat) (author : Name) (l : List Blog) : Result (List Blog) := do
  let nextId := Blog.next author l
  if (lookup Blog.pair l (c, author)).isSome then return l
  let l ← Blog.create { account := author, comment := c, blogFeedId := nextId } l
  return evictAll Blog.account Blog.blogFeedId author nextId cfg.maxFeedSize l

/- The feeds of all followers, from the time on that the plugin keeps them. -/
def onFollowers (d : Database) (s : Caches) (a : Name)
    (f : List Feed → Name → Result (List Feed)) : Result (List Feed) :=
  if cfg.startFeeds ≤ d.headBlockTime then (s.follows.followersOf a).foldlM f s.feeds
  else .ok s.feeds

/- The `post_operation_visitor` of a comment. -/
def postComment (d : Database) (o : CommentOperation) (unset : Name → Nat) (s : Caches) :
    Result Caches := do
  if o.parentAuthor ≠ rootPostParent then return s
  let c ← d.getComment o.author o.permlink
  if c.created ≠ d.headBlockTime then return s
  let feeds ← onFollowers cfg d s o.author (postFeed cfg c.id unset)
  let blogs ← postBlog cfg c.id o.author s.blogs
  return { s with feeds := feeds, blogs := blogs }

/- The `pre_operation_visitor` of a deletion. -/
def deleteComment (d : Database) (o : DeleteCommentOperation) (s : Caches) : Caches :=
  match d.findComment o.author o.permlink with
  | none => s
  | some c =>
    if c.parentAuthor ≠ rootPostParent then s
    else { s with
      feeds := s.feeds.filter fun f => !decide (f.comment = c.id)
      blogs := s.blogs.filter fun b => !decide (b.comment = c.id) }

def Feed.addReblog (account : Name) (f : Feed) : Feed := { f with
  rebloggedBy := f.rebloggedBy ++ [account]
  reblogs := (f.reblogs + 1) % 2 ^ 32 }

/- A reblogged post in the feed of a follower. -/
def reblogFeed (c : Nat) (account : Name) (now : Time) (l : List Feed) (follower : Name) :
    Result (List Feed) := do
  let nextId := Feed.next follower l
  let l ← match lookup Feed.pair l (c, follower) with
    | none => Feed.create {
        account := follower
        rebloggedBy := [account]
        firstRebloggedBy := account
        firstRebloggedOn := now
        comment := c
        reblogs := 1
        accountFeedId := nextId } l
    | some _ => pure (change Feed.pair (c, follower) (Feed.addReblog account) l)
  return evictAll Feed.account Feed.accountFeedId follower nextId cfg.maxFeedSize l

/-- `reblog_evaluator::do_apply` -/
def ReblogOperation.apply (o : ReblogOperation) (d : Database) (s : Caches) : Result Caches := do
  let c ← d.getComment o.author o.permlink
  require (c.parentAuthor = rootPostParent) "Only top level posts can be reblogged"
  let nextBlogId := Blog.next o.account s.blogs
  require (lookup Blog.pair s.blogs (c.id, o.account)).isNone
    "Account has already reblogged this post"
  let blogs ← Blog.create {
    account := o.account
    comment := c.id
    rebloggedOn := d.headBlockTime
    blogFeedId := nextBlogId } s.blogs
  let stats := upsert BlogAuthorStats.pair (o.account, c.author) ⟨o.account, c.author, 1⟩
    (fun s => { s with count := (s.count + 1) % two32 }) s.stats
  let feeds ← onFollowers cfg d s o.account (reblogFeed cfg c.id o.account d.headBlockTime)
  return { s with feeds := feeds, blogs := blogs, stats := stats }

/-! ### Events -/

/-- The operations that change the caches, with the chain they meet: a comment after it was made
and what the new objects hold in `reblogs`, a comment that will be deleted. -/
inductive CacheEvent where
  | comment (d : Database) (o : CommentOperation) (unset : Name → Nat)
  | reblog (d : Database) (o : ReblogOperation)
  | follow (o : FollowOperation)
  | delete (d : Database) (o : DeleteCommentOperation)

namespace Caches

variable (s : Caches)

def step : CacheEvent → Option Caches
  | .comment d o unset => (postComment cfg d o unset s).toOption
  | .reblog d o => (o.apply cfg d s).toOption
  | .follow o => (o.apply s.follows).toOption.map fun follows => { s with follows := follows }
  | .delete d o => some (deleteComment d o s)

/-! ### The condition -/

/- The feed of a follower that does not hold the post has room for it. -/
def feedReady (c : Nat) (l : List Feed) (a : Name) : Bool :=
  (lookup Feed.pair l (c, a)).isSome || decide (NumbersFit Feed.account Feed.accountFeedId a l) &&
    decide (HasRoom Feed.account Feed.accountFeedId cfg.maxFeedSize a l)

/- A feed that holds the post can count one reblog more. -/
def reblogReady (c : Nat) (l : List Feed) (a : Name) : Bool :=
  match lookup Feed.pair l (c, a) with
  | none => decide (NumbersFit Feed.account Feed.accountFeedId a l) &&
    decide (HasRoom Feed.account Feed.accountFeedId cfg.maxFeedSize a l)
  | some f => decide (f.reblogs + 1 < 2 ^ 32)

def blogReady (c : Nat) (l : List Blog) (a : Name) : Bool :=
  (lookup Blog.pair l (c, a)).isSome || decide (NumbersFit Blog.account Blog.blogFeedId a l) &&
    decide (HasRoom Blog.account Blog.blogFeedId cfg.maxFeedSize a l)

/-- There is room wherever an operation adds an object, numbers and counters go on below 2^32, and
what the source leaves unset is zero. -/
def Ready : CacheEvent → Bool
  | .comment d o unset =>
    match d.getComment o.author o.permlink with
    | .error _ => true
    | .ok c => decide (o.parentAuthor ≠ rootPostParent) || decide (c.created ≠ d.headBlockTime) ||
      (decide (d.headBlockTime < cfg.startFeeds) ||
        (s.follows.followersOf o.author).all fun a => feedReady cfg c.id s.feeds a &&
          ((lookup Feed.pair s.feeds (c.id, a)).isSome || unset a == 0)) &&
      blogReady cfg c.id s.blogs o.author
  | .reblog d o =>
    match d.getComment o.author o.permlink with
    | .error _ => true
    | .ok c => (decide (d.headBlockTime < cfg.startFeeds) ||
        (s.follows.followersOf o.account).all (reblogReady cfg c.id s.feeds)) &&
      decide (NumbersFit Blog.account Blog.blogFeedId o.account s.blogs) &&
      decide ((rowsOf Blog.account o.account s.blogs).length < cfg.maxFeedSize)
  | _ => true

end Caches

/-! ### Feeds -/

section Steps

variable {cfg} {l l' : List Feed} {c : Nat} {a : Name}

theorem lookup_feed (c : Nat) (a : Name) (l : List Feed) : lookup Feed.pair l (c, a) =
    (rowsOf Feed.account a l).find? fun f => decide (f.comment = c) :=
  lookup_pair Feed.account Feed.comment

/- What a create returns that no index refuses. -/
theorem unrefused {α : Type} {p : Prop} [Decidable p] {e : Exception} {x y : α}
    (h : (if p then .error e else .ok x : Result α) = .ok y) : y = x := by
  split at h
  · cases h
  · cases h
    rfl

theorem createFeed_ok {f : Feed} (h : f.create l = .ok l') : l' = l ++ [f] := unrefused h

theorem createBlog_ok {b : Blog} {l l' : List Blog} (h : b.create l = .ok l') : l' = l ++ [b] :=
  unrefused h

theorem not_mem_feed (h : lookup Feed.pair l (c, a) = none) :
    c ∉ (rowsOf Feed.account a l).map Feed.comment :=
  not_mem_of_pair Feed.account Feed.comment h

theorem not_mem_blog {l : List Blog} (h : lookup Blog.pair l (c, a) = none) :
    c ∉ (rowsOf Blog.account a l).map Blog.comment :=
  not_mem_of_pair Blog.account Blog.comment h

/-- The feeds are bounded, and count their reblogs. -/
structure FeedsKept (cfg : FollowOptions) (l : List Feed) : Prop where
  bounded : Bounded Feed.account Feed.accountFeedId Feed.comment cfg.maxFeedSize l
  reblogs : ∀ f ∈ l, f.reblogs = f.rebloggedBy.length

/-- What a step does to the feed of one follower. -/
structure FeedStep (cfg : FollowOptions) (l l' : List Feed) (a : Name) : Prop where
  kept : FeedsKept cfg l'
  others : ∀ b, b ≠ a → rowsOf Feed.account b l' = rowsOf Feed.account b l
  evicts : Evicts Feed.comment (rowsOf Feed.account a l) (rowsOf Feed.account a l')

/- A new object for a post that the feed does not hold. -/
theorem pushFeed_step {f : Feed} (hk : FeedsKept cfg l) (hf : f.account = a)
    (hid : f.accountFeedId = Feed.next a l)
    (hnone : lookup Feed.pair l (f.comment, a) = none)
    (hfit : NumbersFit Feed.account Feed.accountFeedId a l)
    (hroom : HasRoom Feed.account Feed.accountFeedId cfg.maxFeedSize a l)
    (hreblogs : f.reblogs = f.rebloggedBy.length) :
    FeedStep cfg l (evictAll Feed.account Feed.accountFeedId a (Feed.next a l) cfg.maxFeedSize
      (l ++ [f])) a where
  kept := by
    refine ⟨hk.bounded.push hfit hf hid (not_mem_feed hnone) hroom, fun g hg => ?_⟩
    rcases List.mem_append.1 (evictAll_sublist.subset hg) with hg | hg
    · exact hk.reblogs g hg
    · rw [List.mem_singleton.1 hg]
      exact hreblogs
  others b hb := by
    rw [rowsOf_evictAll_other hb]
    exact rowsOf_append_other fun he => hb (he.symm.trans hf)
  evicts := hk.bounded.push_evicts hfit hf hid (not_mem_feed hnone) a

theorem FeedStep.refl (hk : FeedsKept cfg l) (a : Name) : FeedStep cfg l l a :=
  ⟨hk, fun _ _ => rfl, .refl _ _⟩

theorem postFeed_step {unset : Name → Nat} (hk : FeedsKept cfg l)
    (hready : Caches.feedReady cfg c l a) (hunset : (lookup Feed.pair l (c, a)).isSome ∨ unset a = 0)
    (h : postFeed cfg c unset l a = .ok l') : FeedStep cfg l l' a := by
  unfold postFeed at h
  cases hl : lookup Feed.pair l (c, a) with
  | some f =>
    rw [hl] at h
    cases h
    exact .refl hk a
  | none =>
    rw [hl] at h hunset
    obtain ⟨l₁, hl₁, h⟩ := bind_ok.1 h
    cases h
    rw [createFeed_ok hl₁]
    unfold Caches.feedReady at hready
    simp only [hl, Option.isSome_none, Bool.false_or, Bool.and_eq_true, decide_eq_true_eq] at hready
    have hzero : unset a = 0 := hunset.resolve_left Bool.false_ne_true
    exact pushFeed_step hk rfl rfl hl hready.1 hready.2 hzero

/- A reblog that the feed counts. -/
theorem addReblog_kept {account : Name} {f : Feed} (hk : FeedsKept cfg l)
    (hl : lookup Feed.pair l (c, a) = some f) (hfew : f.reblogs + 1 < 2 ^ 32) :
    FeedsKept cfg (change Feed.pair (c, a) (Feed.addReblog account) l) := by
  refine ⟨hk.bounded.map ?_ ?_ ?_, fun g hg => ?_⟩
  · intro g
    split <;> rfl
  · intro g
    split <;> rfl
  · intro g
    split <;> rfl
  · obtain ⟨g, hmem, rfl⟩ := List.mem_map.1 hg
    split
    · next hpair =>
      have hgf : g = f := by
        rw [lookup_feed] at hl
        have hf := List.mem_of_find?_eq_some hl
        have hcomment : f.comment = c := by simpa using List.find?_some hl
        obtain ⟨hgc, hga⟩ := Prod.mk.inj hpair
        exact List.inj_on_of_nodup_map (hk.bounded.items a) (mem_rowsOf.2 ⟨hmem, hga⟩) hf
          (hgc.trans hcomment.symm)
      have hcount := hk.reblogs g hmem
      unfold Feed.addReblog
      rw [hgf] at hcount ⊢
      rw [Nat.mod_eq_of_lt hfew, hcount, List.length_append]
      rfl
    · exact hk.reblogs g hmem

theorem reblogFeed_step {account : Name} {now : Time} (hk : FeedsKept cfg l)
    (hready : Caches.reblogReady cfg c l a) (h : reblogFeed cfg c account now l a = .ok l') :
    FeedStep cfg l l' a := by
  unfold Caches.reblogReady at hready
  unfold reblogFeed at h
  cases hl : lookup Feed.pair l (c, a) with
  | none =>
    rw [hl] at h
    obtain ⟨l₁, hl₁, h⟩ := bind_ok.1 h
    cases h
    simp only [hl, Bool.and_eq_true, decide_eq_true_eq] at hready
    rw [createFeed_ok hl₁]
    exact pushFeed_step hk rfl rfl hl hready.1 hready.2 rfl
  | some f =>
    rw [hl] at h
    cases h
    simp only [hl, decide_eq_true_eq] at hready
    have hkept : FeedsKept cfg (change Feed.pair (c, a) (Feed.addReblog account) l) :=
      addReblog_kept hk hl hready
    have hrows : ∀ b, rowsOf Feed.account b (change Feed.pair (c, a) (Feed.addReblog account) l) =
        (rowsOf Feed.account b l).map fun g =>
          if g.pair = (c, a) then g.addReblog account else g := by
      intro b
      refine rowsOf_map fun g => ?_
      split <;> rfl
    refine ⟨⟨hkept.bounded.evict _, fun g hg => hkept.reblogs g (evictAll_sublist.subset hg)⟩,
      fun b hb => ?_, ?_⟩
    · rw [rowsOf_evictAll_other hb, hrows]
      refine (List.map_congr_left fun g hg => if_neg fun hpair => hb ?_).trans (List.map_id _)
      exact (mem_rowsOf.1 hg).2.symm.trans (Prod.mk.inj hpair).2
    · refine (hkept.bounded.evict_evicts _ a).congr ?_
      rw [hrows, List.map_map]
      refine List.map_congr_left fun g _ => ?_
      show Feed.comment (if g.pair = (c, a) then g.addReblog account else g) = g.comment
      split <;> rfl

/-- A loop over followers, each of whose feeds is ready for it. -/
theorem followers_steps {f : List Feed → Name → Result (List Feed)}
    {r : List Feed → Name → Bool} {followers : List Name}
    (hsame : ∀ l l' a, rowsOf Feed.account a l' = rowsOf Feed.account a l → r l' a = r l a)
    (hstep : ∀ l l' a, FeedsKept cfg l → r l a → f l a = .ok l' → FeedStep cfg l l' a)
    (hn : followers.Nodup) (hk : FeedsKept cfg l) (hready : ∀ a ∈ followers, r l a)
    (h : followers.foldlM f l = .ok l') : FeedsKept cfg l' ∧
      (∀ b ∉ followers, rowsOf Feed.account b l' = rowsOf Feed.account b l) ∧
      ∀ b, Evicts Feed.comment (rowsOf Feed.account b l) (rowsOf Feed.account b l') := by
  induction followers generalizing l with
  | nil =>
    cases h
    exact ⟨hk, fun _ _ => rfl, fun _ => .refl _ _⟩
  | cons a followers ih =>
    obtain ⟨l₁, h₁, h⟩ := bind_ok.1 h
    obtain ⟨hna, hn⟩ := List.nodup_cons.1 hn
    have ha := hstep l l₁ a hk (hready a (List.mem_cons_self ..)) h₁
    have hne : ∀ b ∈ followers, b ≠ a := fun b hb he => hna (he ▸ hb)
    obtain ⟨hkept, hothers, hevicts⟩ := ih hn ha.kept (fun b hb => by
      rw [hsame l l₁ b (ha.others b (hne b hb))]
      exact hready b (List.mem_cons_of_mem a hb)) h
    refine ⟨hkept, fun b hb => ?_, fun b => ?_⟩
    · rw [List.mem_cons, not_or] at hb
      exact (hothers b hb.2).trans (ha.others b hb.1)
    · by_cases hba : b = a
      · subst hba
        rw [hothers b hna]
        exact ha.evicts
      · rw [← ha.others b hba]
        exact hevicts b

theorem next_same (h : rowsOf Feed.account a l' = rowsOf Feed.account a l) :
    lookup Feed.pair l' (c, a) = lookup Feed.pair l (c, a) ∧
      (NumbersFit Feed.account Feed.accountFeedId a l' ↔
        NumbersFit Feed.account Feed.accountFeedId a l) ∧
      (HasRoom Feed.account Feed.accountFeedId cfg.maxFeedSize a l' ↔
        HasRoom Feed.account Feed.accountFeedId cfg.maxFeedSize a l) := by
  rw [lookup_feed, lookup_feed, h]
  exact ⟨rfl, numbersFit_congr h, hasRoom_congr h⟩

/-! ### Blogs -/

/-- The blogs of all accounts are bounded. -/
def BlogsKept (cfg : FollowOptions) (l : List Blog) : Prop :=
  Bounded Blog.account Blog.blogFeedId Blog.comment cfg.maxFeedSize l

theorem postBlog_step {l l' : List Blog} (hk : BlogsKept cfg l)
    (hready : Caches.blogReady cfg c l a) (h : postBlog cfg c a l = .ok l') : BlogsKept cfg l' ∧
      ∀ b, Evicts Blog.comment (rowsOf Blog.account b l) (rowsOf Blog.account b l') := by
  unfold postBlog at h
  cases hl : lookup Blog.pair l (c, a) with
  | some b =>
    rw [hl] at h
    cases h
    exact ⟨hk, fun b => .refl _ _⟩
  | none =>
    rw [hl] at h
    obtain ⟨l₁, hl₁, h⟩ := bind_ok.1 h
    cases h
    rw [createBlog_ok hl₁]
    unfold Caches.blogReady at hready
    simp only [hl, Option.isSome_none, Bool.false_or, Bool.and_eq_true, decide_eq_true_eq] at hready
    exact ⟨hk.push hready.1 rfl rfl (not_mem_blog hl) hready.2,
      hk.push_evicts hready.1 rfl rfl (not_mem_blog hl)⟩

end Steps

/-! ### Runs -/

theorem followersOf_nodup {s : Follows} (hs : s.Counted) (a : Name) :
    (s.followersOf a).Nodup := by
  unfold Follows.followersOf
  rw [(List.perm_insertionSort (· ≤ ·) _).nodup_iff]
  have hpairs : ((s.follows.filter fun f => decide (f.following = a) && f.blog).map
      Follow.pair).Nodup := hs.pairs.sublist (List.filter_sublist.map _)
  refine List.pairwise_map.2 ((List.pairwise_map.1 hpairs).imp_of_mem fun {f g} hf hg hne he => ?_)
  have hfa := (List.mem_filter.1 hf).2
  have hga := (List.mem_filter.1 hg).2
  simp only [Bool.and_eq_true, decide_eq_true_eq] at hfa hga
  exact hne (Prod.ext he (hfa.1.trans hga.1.symm))

namespace Caches

variable {cfg} {s s' : Caches}

/-- What all caches have. -/
structure Kept (cfg : FollowOptions) (s : Caches) : Prop where
  follows : s.follows.Counted
  feeds : FeedsKept cfg s.feeds
  blogs : BlogsKept cfg s.blogs

/-- What is new in a step is no older than what is left. -/
structure StepsOn (s s' : Caches) : Prop where
  feeds : ∀ a, Evicts Feed.comment (rowsOf Feed.account a s.feeds) (rowsOf Feed.account a s'.feeds)
  blogs : ∀ a, Evicts Blog.comment (rowsOf Blog.account a s.blogs) (rowsOf Blog.account a s'.blogs)

theorem StepsOn.refl (s : Caches) : s.StepsOn s := ⟨fun _ => .refl _ _, fun _ => .refl _ _⟩

theorem onFollowers_steps {d : Database} {a : Name} {f : List Feed → Name → Result (List Feed)}
    {r : List Feed → Name → Bool} {feeds : List Feed} (hs : s.Kept cfg)
    (hsame : ∀ l l' a, rowsOf Feed.account a l' = rowsOf Feed.account a l → r l' a = r l a)
    (hstep : ∀ l l' a, FeedsKept cfg l → r l a → f l a = .ok l' → FeedStep cfg l l' a)
    (hready : d.headBlockTime < cfg.startFeeds ∨ ∀ b ∈ s.follows.followersOf a, r s.feeds b)
    (h : onFollowers cfg d s a f = .ok feeds) : FeedsKept cfg feeds ∧
      ∀ b, Evicts Feed.comment (rowsOf Feed.account b s.feeds) (rowsOf Feed.account b feeds) := by
  unfold onFollowers at h
  split at h
  · next hstart =>
    obtain ⟨hkept, -, hon⟩ := followers_steps hsame hstep (followersOf_nodup hs.follows a) hs.feeds
      (hready.resolve_left (Nat.not_lt.2 hstart)) h
    exact ⟨hkept, hon⟩
  · cases h
    exact ⟨hs.feeds, fun _ => .refl _ _⟩

theorem postComment_step {d : Database} {o : CommentOperation} {unset : Name → Nat}
    (hs : s.Kept cfg) (hready : s.Ready cfg (.comment d o unset))
    (h : postComment cfg d o unset s = .ok s') : s'.Kept cfg ∧ s.StepsOn s' := by
  unfold postComment at h
  split at h
  · cases h
    exact ⟨hs, .refl s⟩
  next hroot =>
  obtain ⟨c, hc, h⟩ := bind_ok.1 h
  split at h
  · cases h
    exact ⟨hs, .refl s⟩
  next hnew =>
  obtain ⟨feeds, hfeed, h⟩ := bind_ok.1 h
  obtain ⟨blogs, hpost, h⟩ := bind_ok.1 h
  cases h
  unfold Ready at hready
  simp only [hc, hroot, hnew, Bool.and_eq_true, Bool.or_eq_true, decide_eq_true_eq,
    List.all_eq_true, false_or] at hready
  obtain ⟨hfeeds, hblog⟩ := hready
  obtain ⟨hblogs, hblogsOn⟩ := postBlog_step hs.blogs hblog hpost
  obtain ⟨hkept, hon⟩ := onFollowers_steps (r := fun l a => feedReady cfg c.id l a &&
      ((lookup Feed.pair l (c.id, a)).isSome || unset a == 0)) hs
    (fun l l' a hrows => by
      obtain ⟨hlookup, hfit, hroom⟩ := @next_same cfg l l' c.id a hrows
      unfold feedReady
      simp only [hlookup, hfit, hroom])
    (fun l l' a hk hr hf => by
      simp only [Bool.and_eq_true, Bool.or_eq_true, beq_iff_eq] at hr
      exact postFeed_step hk hr.1 hr.2 hf)
    (hfeeds.imp_right fun hall a ha => by simpa using hall a ha) hfeed
  exact ⟨⟨hs.follows, hkept, hblogs⟩, hon, hblogsOn⟩

theorem reblog_step {d : Database} {o : ReblogOperation} (hs : s.Kept cfg)
    (hready : s.Ready cfg (.reblog d o)) (h : o.apply cfg d s = .ok s') :
    s'.Kept cfg ∧ s.StepsOn s' := by
  obtain ⟨c, hc, h⟩ := bind_ok.1 h
  obtain ⟨_, -, h⟩ := bind_ok.1 h
  obtain ⟨_, hnone, h⟩ := bind_ok.1 h
  obtain ⟨blogs, hblog, h⟩ := bind_ok.1 h
  obtain ⟨feeds, hfeed, h⟩ := bind_ok.1 h
  cases h
  unfold Ready at hready
  simp only [hc, Bool.and_eq_true, Bool.or_eq_true, decide_eq_true_eq, List.all_eq_true] at hready
  obtain ⟨⟨hfeeds, hfit⟩, hfew⟩ := hready
  have hnew : lookup Blog.pair s.blogs (c.id, o.account) = none := by
    simpa using require_ok hnone
  have hblogs : BlogsKept cfg blogs := by
    rw [createBlog_ok hblog]
    exact hs.blogs.append hfit rfl rfl (not_mem_blog hnew) hfew
  have hblogsOn : ∀ a, Evicts Blog.comment (rowsOf Blog.account a s.blogs)
      (rowsOf Blog.account a blogs) := by
    rw [createBlog_ok hblog]
    exact Evicts.append rfl (not_mem_blog hnew)
  obtain ⟨hkept, hon⟩ := onFollowers_steps (r := reblogReady cfg c.id) hs
    (fun l l' a hrows => by
      obtain ⟨hlookup, hfit, hroom⟩ := @next_same cfg l l' c.id a hrows
      unfold reblogReady
      simp only [hlookup, hfit, hroom])
    (fun l l' a hk hr hf => reblogFeed_step hk hr hf) hfeeds hfeed
  exact ⟨⟨hs.follows, hkept, hblogs⟩, hon, hblogsOn⟩

theorem deleteComment_step {d : Database} {o : DeleteCommentOperation} (hs : s.Kept cfg) :
    (deleteComment d o s).Kept cfg := by
  unfold deleteComment
  split
  · exact hs
  · split
    · exact hs
    · exact ⟨hs.follows, ⟨hs.feeds.bounded.filter _,
        fun f hf => hs.feeds.reblogs f (List.mem_of_mem_filter hf)⟩, hs.blogs.filter _⟩

/-- One step keeps the bounds, and unless a post is deleted no older entry stays than goes. -/
theorem step_kept {e : CacheEvent} (hs : s.Kept cfg) (hready : s.Ready cfg e)
    (h : s.step cfg e = some s') :
    s'.Kept cfg ∧ ((∀ d o, e ≠ .delete d o) → s.StepsOn s') := by
  cases e with
  | comment d o unset =>
    obtain ⟨hkept, hon⟩ := postComment_step hs hready (toOption_ok h)
    exact ⟨hkept, fun _ => hon⟩
  | reblog d o =>
    obtain ⟨hkept, hon⟩ := reblog_step hs hready (toOption_ok h)
    exact ⟨hkept, fun _ => hon⟩
  | follow o =>
    obtain ⟨follows, hfollow, rfl⟩ := Option.map_eq_some_iff.1 h
    exact ⟨⟨hs.follows.apply (toOption_ok hfollow), hs.feeds, hs.blogs⟩,
      fun _ => ⟨fun _ => .refl _ _, fun _ => .refl _ _⟩⟩
  | delete d o =>
    cases h
    exact ⟨deleteComment_step hs, fun hne => absurd rfl (hne d o)⟩

/- The states that operations lead to, each of them with some property. -/
def Reached (cfg : FollowOptions) (ok : Caches → CacheEvent → Bool) : Caches → Prop :=
  Reaches (fun s e => s.step cfg e) (fun s e => ok s e) {}

theorem kept_empty : Kept cfg {} where
  follows := Follows.counted_empty
  feeds := ⟨⟨fun _ => .nil, fun _ => .nil, fun _ => Nat.zero_le _⟩, nofun⟩
  blogs := ⟨fun _ => .nil, fun _ => .nil, fun _ => Nat.zero_le _⟩

theorem Reached.kept (h : Reached cfg (Ready cfg) s) : s.Kept cfg :=
  h.invariant kept_empty fun _ _ _ hs hready hstep => (step_kept hs hready hstep).1

/-- An account has a bounded feed and a bounded blog, with one entry for a post and one for a
number, and the entries of feeds count their reblogs. -/
structure WithinBounds (cfg : FollowOptions) (s : Caches) : Prop where
  feedSize : ∀ a, (rowsOf Feed.account a s.feeds).length ≤ cfg.maxFeedSize
  blogSize : ∀ a, (rowsOf Blog.account a s.blogs).length ≤ cfg.maxFeedSize
  feedComments : ∀ a, ((rowsOf Feed.account a s.feeds).map Feed.comment).Nodup
  blogComments : ∀ a, ((rowsOf Blog.account a s.blogs).map Blog.comment).Nodup
  feedIds : ∀ a, ((rowsOf Feed.account a s.feeds).map Feed.accountFeedId).Nodup
  blogIds : ∀ a, ((rowsOf Blog.account a s.blogs).map Blog.blogFeedId).Nodup
  reblogs : ∀ f ∈ s.feeds, f.reblogs = f.rebloggedBy.length

/-- If there is room in every cache that an operation adds to, caches stay within their bounds, and
what is evicted is older than all that stays. -/
theorem Reached.caches_bounded (h : Reached cfg (Ready cfg) s) : s.WithinBounds cfg ∧
    ∀ e s', s.Ready cfg e → s.step cfg e = some s' → (∀ d o, e ≠ .delete d o) → s.StepsOn s' := by
  have hs := h.kept
  refine ⟨⟨hs.feeds.bounded.size, hs.blogs.size, hs.feeds.bounded.items, hs.blogs.items,
    hs.feeds.bounded.ascending.nodup, hs.blogs.ascending.nodup, hs.feeds.reblogs⟩, ?_⟩
  exact fun e s' hready hstep => (step_kept hs hready hstep).2

/-! ### An author, a follower and one who reblogs -/

/- The posts of account 1 up to some number, the last of which is new. -/
def demoPosts (n : Nat) : Database where
  comments := ⟨(List.range (n + 1)).map fun i =>
    { id := i, author := 1, permlink := [i.toUInt8 + 97], created := 1600000000 + i }, n + 1⟩
  gpo := { time := 1600000000 + n }

def demoPosted (n : Nat) : CacheEvent := .comment (demoPosts n)
  ⟨rootPostParent, [], 1, [n.toUInt8 + 97], { size := 1 }, { size := 1 }, { size := 0 }⟩
  fun _ => 0

def demoReblog (n : Nat) : CacheEvent := .reblog (demoPosts n) ⟨3, 1, [n.toUInt8 + 97]⟩

/-- A follower of the author and of an account that reblogs a post. -/
theorem caches_bounded_demo : ∃ s : Caches, s.WithinBounds {} ∧
    s.feeds.map (fun f => (f.account, f.comment, f.reblogs)) = [(2, 0, 1), (2, 1, 0)] := by
  have h : ([.follow ⟨2, 1, ["blog"]⟩, .follow ⟨2, 3, ["blog"]⟩, demoPosted 0, demoReblog 0,
      demoPosted 1].foldlM (fun s e => if Ready {} s e then s.step {} e else none)
        ({} : Caches)).map (fun s => s.feeds.map fun f => (f.account, f.comment, f.reblogs)) =
      some [(2, 0, 1), (2, 1, 0)] := by
    decide
  obtain ⟨s, hrun, hfeeds⟩ := Option.map_eq_some_iff.1 h
  exact ⟨s, (Reached.caches_bounded (.of_run hrun)).1, hfeeds⟩

/-- A blog that may hold one entry holds two of them. -/
theorem blog_over_limit : ∃ s : Caches, Reached { maxFeedSize := 1 } (fun _ _ => true) s ∧
    (rowsOf Blog.account 1 s.blogs).length = 2 := by
  have h : ([demoPosted 0, demoPosted 1].foldlM (fun s e => if (fun _ _ => true : Caches →
      CacheEvent → Bool) s e then s.step { maxFeedSize := 1 } e else none) ({} : Caches)).map
        (fun s => (rowsOf Blog.account 1 s.blogs).length) = some 2 := by
    decide
  obtain ⟨s, hrun, hlength⟩ := Option.map_eq_some_iff.1 h
  exact ⟨s, .of_run hrun, hlength⟩

end Caches

end WeNode.Plugins
