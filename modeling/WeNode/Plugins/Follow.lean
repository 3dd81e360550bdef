import WeNode.Chain.Objects
import WeNode.Lib.Events
import WeNode.Lib.KeyedRows
import WeNode.Lib.Runs

/-!
# Follows

libraries/plugins/follow/follow_evaluators.cpp (9-117): who follows and who ignores whom, and the
two counters of every account.
-/

namespace WeNode.Plugins

open WeNode.Lib WeNode.Chain

inductive FollowType where
  | undefined
  | blog
  | ignore
deriving DecidableEq

/- `follow_type_map`, which makes any other text undefined -/
def followType : String → FollowType
  | "blog" => .blog
  | "ignore" => .ignore
  | _ => .undefined

/-- `follow_object`; bit `blog` of `what` is 1 and bit `ignore` is 2. -/
structure Follow where
  follower : Name
  following : Name
  what : Nat

namespace Follow

/- The key of `by_follower_following` -/
def pair (f : Follow) : Name × Name := (f.follower, f.following)

def blog (f : Follow) : Bool := f.what.testBit 1

end Follow

/-- `follow_count_object`; the counters are `uint32_t`. -/
structure FollowCount where
  account : Name
  followerCount : Nat := 0
  followingCount : Nat := 0

/-- `follow_operation` -/
structure FollowOperation where
  follower : Name
  following : Name
  what : List String

/-- The objects of the evaluator. -/
structure Follows where
  follows : List Follow := []
  counts : List FollowCount := []

namespace FollowOperation

variable (o : FollowOperation)

/- `what |= 1 << blog` and `what |= 1 << ignore` -/
def addTarget (w : Nat) (target : String) : Nat :=
  match followType target with
  | .blog => w ||| 1 <<< 1
  | .ignore => w ||| 1 <<< 2
  | .undefined => w

def bits : Nat := o.what.foldl addTarget 0

def isFollowing : Bool := o.what.any fun target => followType target = .blog

def wasFollowed (s : Follows) : Bool :=
  ((lookup Follow.pair s.follows (o.follower, o.following)).map Follow.blog).getD false

/- A counter after the change. -/
def count (was is : Bool) (n : Nat) : Nat :=
  let n := if was then decrement 32 n else n
  if is then (n + 1) % two32 else n

/- The counter of the follower, and that of the one who is followed. -/
def countFollower (was : Bool) (counts : List FollowCount) : List FollowCount :=
  upsert FollowCount.account o.follower
    { account := o.follower, followingCount := if o.isFollowing then 1 else 0 }
    (fun c => { c with followingCount := count was o.isFollowing c.followingCount }) counts

def countFollowing (was : Bool) (counts : List FollowCount) : List FollowCount :=
  upsert FollowCount.account o.following
    { account := o.following, followerCount := if o.isFollowing then 1 else 0 }
    (fun c => { c with followerCount := count was o.isFollowing c.followerCount }) counts

/-- `follow_evaluator::do_apply` -/
def apply (s : Follows) : Result Follows := do
  require (o.bits.testBit 2 → o.bits.testBit 1 = false)
    "Cannot follow blog and ignore author at the same time"
  let was := o.wasFollowed s
  let follows := upsert Follow.pair (o.follower, o.following) ⟨o.follower, o.following, o.bits⟩
    (fun f => { f with what := o.bits }) s.follows
  let counts := o.countFollowing was (o.countFollower was s.counts)
  return { follows := follows, counts := counts }

theorem foldl_addTarget (l : List String) (w : Nat) :
    (l.foldl addTarget w).testBit 1 =
      (w.testBit 1 || l.any fun target => followType target = .blog) := by
  induction l generalizing w with
  | nil => simp
  | cons target l ih =>
    have hblog : Nat.testBit (1 <<< 1) 1 = true := by decide
    have hignore : Nat.testBit (1 <<< 2) 1 = false := by decide
    rw [List.foldl_cons, ih, List.any_cons, ← Bool.or_assoc]
    refine congrArg (· || _) ?_
    unfold addTarget
    cases followType target with
    | undefined => simp
    | blog => simp only [Nat.testBit_or, hblog, decide_true]
    | ignore => simp only [Nat.testBit_or, hignore, Bool.or_false, reduceCtorEq, decide_false]

/-- The bit in the object is what the counters go by. -/
theorem bits_blog : o.bits.testBit 1 = o.isFollowing := by
  unfold bits isFollowing
  rw [foldl_addTarget]
  simp

/-- The counter follows the number of objects. -/
theorem count_mod {was is : Bool} {n n' : Nat} (h : n' + was.toNat = n + is.toNat) :
    count was is (n % two32) = n' % two32 := by
  have hlt : n % two32 < two32 := Nat.mod_lt n (by decide)
  unfold count decrement
  unfold two32 at *
  cases was <;> cases is <;> simp only [Bool.toNat_true, Bool.toNat_false, if_true, if_false,
    Bool.false_eq_true] at h ⊢ <;> grind

/- The counter of the account of an operation, and that of another account. -/
theorem count_of {was is : Bool} {n n' : Nat} {name a : Name}
    (h : n' + (decide (name = a) && was).toNat = n + (decide (name = a) && is).toNat) :
    (if a = name then count was is (n % two32) else n % two32) = n' % two32 := by
  by_cases ha : a = name
  · subst ha
    rw [if_pos rfl]
    refine count_mod ?_
    simpa using h
  · have hne : ¬ name = a := fun he => ha he.symm
    rw [if_neg ha]
    refine congrArg (· % two32) ?_
    simpa [hne] using h.symm

end FollowOperation

namespace Follows

variable {s s' : Follows} {o : FollowOperation}

/- The objects with the blog bit of a follower, and of one who is followed. -/
def followings (s : Follows) (a : Name) : Nat :=
  s.follows.countP fun f => decide (f.follower = a) && f.blog

def followers (s : Follows) (a : Name) : Nat :=
  s.follows.countP fun f => decide (f.following = a) && f.blog

/- The counters of an account; one without an object has counted nothing. -/
def view (g : FollowCount → Nat) (l : List FollowCount) (a : Name) : Nat :=
  ((lookup FollowCount.account l a).map g).getD 0

def followingCount (s : Follows) (a : Name) : Nat := view FollowCount.followingCount s.counts a

def followerCount (s : Follows) (a : Name) : Nat := view FollowCount.followerCount s.counts a

/-- The counters are the numbers, as far as they have room for these. -/
structure Counted (s : Follows) : Prop where
  pairs : (s.follows.map Follow.pair).Nodup
  known : ∀ f ∈ s.follows, (lookup FollowCount.account s.counts f.follower).isSome ∧
    (lookup FollowCount.account s.counts f.following).isSome
  following : ∀ a, s.followingCount a = s.followings a % two32
  follower : ∀ a, s.followerCount a = s.followers a % two32

theorem counted_empty : Counted {} :=
  ⟨List.nodup_nil, nofun, fun _ => rfl, fun _ => rfl⟩

/- The objects of one kind, told by a part of the pair, before and after an operation. -/
theorem countP_apply (hs : s.Counted) (h : o.apply s = .ok s') (q : Name × Name → Bool) :
    s'.follows.countP (fun f => q f.pair && f.blog) +
        (q (o.follower, o.following) && o.wasFollowed s).toNat =
      s.follows.countP (fun f => q f.pair && f.blog) +
        (q (o.follower, o.following) && o.isFollowing).toNat := by
  obtain ⟨_, -, h⟩ := bind_ok.1 h
  cases h
  have hcount := countP_upsert (k := (o.follower, o.following))
    (n := ⟨o.follower, o.following, o.bits⟩) (f := fun f => { f with what := o.bits })
    (p := fun f => q f.pair && f.blog) hs.pairs
  have hbit : Follow.blog ⟨o.follower, o.following, o.bits⟩ = o.isFollowing := o.bits_blog
  have hone (b : Bool) : b.toNat = if b = true then 1 else 0 := by cases b <;> rfl
  unfold FollowOperation.wasFollowed
  cases hf : lookup Follow.pair s.follows (o.follower, o.following) with
  | none =>
    rw [hf] at hcount
    simpa [Follow.pair, hbit, hone] using hcount
  | some f =>
    have hpair : f.pair = (o.follower, o.following) := (lookup_some hf).2
    have hblog : Follow.blog { f with what := o.bits } = o.isFollowing := o.bits_blog
    have hpair' : Follow.pair { f with what := o.bits } = (o.follower, o.following) := hpair
    rw [hf] at hcount
    simpa [hpair, hpair', hblog, hone] using hcount

/-- An account without an object has counted nothing, so that a new object is a change of 0. -/
theorem view_upsert {l : List FollowCount} {name a : Name} {n : FollowCount}
    {f : FollowCount → FollowCount} {g : FollowCount → Nat} {u : Nat → Nat}
    (hnew : n.account = name) (hf : ∀ c, (f c).account = c.account)
    (hnone : lookup FollowCount.account l name = none → g n = u 0)
    (hsome : ∀ c, g (f c) = u (g c)) :
    view g (upsert FollowCount.account name n f l) a =
      if a = name then u (view g l a) else view g l a := by
  unfold view
  rw [lookup_upsert hnew hf]
  by_cases h : a = name
  · subst h
    rw [if_pos rfl, if_pos rfl]
    cases hl : lookup FollowCount.account l a with
    | none => exact hnone hl
    | some c => exact hsome c
  · rw [if_neg h, if_neg h]

theorem view_same {l : List FollowCount} {name a : Name} {n : FollowCount}
    {f : FollowCount → FollowCount} {g : FollowCount → Nat} (hnew : n.account = name)
    (hf : ∀ c, (f c).account = c.account) (hnone : g n = 0) (hsome : ∀ c, g (f c) = g c) :
    view g (upsert FollowCount.account name n f l) a = view g l a := by
  rw [view_upsert (u := fun x => x) hnew hf (fun _ => hnone) hsome]
  exact ite_self _

section

variable {was : Bool} {l : List FollowCount} {a : Name}

theorem isSome_countFollower :
    (lookup FollowCount.account (o.countFollower was l) a).isSome ↔
      a = o.follower ∨ (lookup FollowCount.account l a).isSome :=
  isSome_upsert rfl fun _ => rfl

theorem isSome_countFollowing :
    (lookup FollowCount.account (o.countFollowing was l) a).isSome ↔
      a = o.following ∨ (lookup FollowCount.account l a).isSome :=
  isSome_upsert rfl fun _ => rfl

/- The number of a new object. -/
theorem count_new (hw : was = true → (lookup FollowCount.account l a).isSome)
    (hnone : lookup FollowCount.account l a = none) (is : Bool) :
    (if is then 1 else 0) = FollowOperation.count was is 0 := by
  cases was with
  | true =>
    rw [hnone] at hw
    cases hw rfl
  | false => cases is <;> rfl

theorem following_countFollower
    (hw : was = true → (lookup FollowCount.account l o.follower).isSome) :
    view FollowCount.followingCount (o.countFollower was l) a =
      if a = o.follower then
        FollowOperation.count was o.isFollowing (view FollowCount.followingCount l a)
      else view FollowCount.followingCount l a :=
  view_upsert rfl (fun _ => rfl) (fun hnone => count_new hw hnone _) fun _ => rfl

theorem follower_countFollowing
    (hw : was = true → (lookup FollowCount.account l o.following).isSome) :
    view FollowCount.followerCount (o.countFollowing was l) a =
      if a = o.following then
        FollowOperation.count was o.isFollowing (view FollowCount.followerCount l a)
      else view FollowCount.followerCount l a :=
  view_upsert rfl (fun _ => rfl) (fun hnone => count_new hw hnone _) fun _ => rfl

theorem following_countFollowing :
    view FollowCount.followingCount (o.countFollowing was l) a =
      view FollowCount.followingCount l a :=
  view_same rfl (fun _ => rfl) rfl fun _ => rfl

theorem follower_countFollower :
    view FollowCount.followerCount (o.countFollower was l) a =
      view FollowCount.followerCount l a :=
  view_same rfl (fun _ => rfl) rfl fun _ => rfl

end

/- Who was followed has an object that says so. -/
theorem wasFollowed_row (hw : o.wasFollowed s = true) : ∃ f ∈ s.follows,
    f.follower = o.follower ∧ f.following = o.following ∧ f.blog = true := by
  unfold FollowOperation.wasFollowed at hw
  cases hf : lookup Follow.pair s.follows (o.follower, o.following) with
  | none =>
    rw [hf] at hw
    cases hw
  | some f =>
    rw [hf] at hw
    obtain ⟨hmem, hpair⟩ := lookup_some hf
    obtain ⟨hfollower, hfollowing⟩ := Prod.mk.inj hpair
    exact ⟨f, hmem, hfollower, hfollowing, hw⟩

/-- Who was followed has a counter, and so has who followed. -/
theorem wasFollowed_known (hs : s.Counted) (hw : o.wasFollowed s = true) :
    (lookup FollowCount.account s.counts o.follower).isSome ∧
      (lookup FollowCount.account s.counts o.following).isSome := by
  obtain ⟨f, hmem, hfollower, hfollowing, -⟩ := wasFollowed_row hw
  rw [← hfollower, ← hfollowing]
  exact hs.known f hmem

theorem followingCount_apply (hs : s.Counted) (h : o.apply s = .ok s') (a : Name) :
    s'.followingCount a = if a = o.follower
      then FollowOperation.count (o.wasFollowed s) o.isFollowing (s.followingCount a)
      else s.followingCount a := by
  obtain ⟨_, -, h⟩ := bind_ok.1 h
  cases h
  exact following_countFollowing.trans
    (following_countFollower fun hw => (wasFollowed_known hs hw).1)

theorem followerCount_apply (hs : s.Counted) (h : o.apply s = .ok s') (a : Name) :
    s'.followerCount a = if a = o.following
      then FollowOperation.count (o.wasFollowed s) o.isFollowing (s.followerCount a)
      else s.followerCount a := by
  obtain ⟨_, -, h⟩ := bind_ok.1 h
  cases h
  have hw : o.wasFollowed s = true → (lookup FollowCount.account
      (o.countFollower (o.wasFollowed s) s.counts) o.following).isSome :=
    fun hw => isSome_countFollower.2 (Or.inr (wasFollowed_known hs hw).2)
  refine (follower_countFollowing hw).trans ?_
  rw [follower_countFollower]
  rfl

/-- One operation keeps the counters right. -/
theorem Counted.apply (hs : s.Counted) (h : o.apply s = .ok s') : s'.Counted := by
  constructor
  · obtain ⟨_, -, h⟩ := bind_ok.1 h
    cases h
    exact nodup_upsert rfl (fun _ => rfl) hs.pairs
  · obtain ⟨_, -, h⟩ := bind_ok.1 h
    cases h
    intro f hf
    rw [isSome_countFollowing, isSome_countFollower, isSome_countFollowing, isSome_countFollower]
    rcases mem_upsert hf with hf | rfl | ⟨x, hx, -, rfl⟩
    · exact ⟨Or.inr (Or.inr (hs.known f hf).1), Or.inr (Or.inr (hs.known f hf).2)⟩
    · exact ⟨Or.inr (Or.inl rfl), Or.inl rfl⟩
    · exact ⟨Or.inr (Or.inr (hs.known x hx).1), Or.inr (Or.inr (hs.known x hx).2)⟩
  · intro a
    rw [followingCount_apply hs h, hs.following]
    have hnumber := countP_apply hs h fun q => decide (q.1 = a)
    exact FollowOperation.count_of hnumber
  · intro a
    rw [followerCount_apply hs h, hs.follower]
    have hnumber := countP_apply hs h fun q => decide (q.2 = a)
    exact FollowOperation.count_of hnumber

/-! ### Runs -/

/- The states that follow operations reach. -/
def Reached : Follows → Prop :=
  Reaches (fun s o => (FollowOperation.apply o s).toOption) (fun _ _ => True) {}

theorem Reached.counted (h : s.Reached) : s.Counted :=
  h.invariant counted_empty fun _ _ _ hs _ ho => hs.apply (toOption_ok ho)

theorem mod_eq_iff {n : Nat} : n % two32 = n ↔ n < two32 := by
  constructor
  · intro h
    rw [← h]
    exact Nat.mod_lt n (by decide)
  · exact Nat.mod_eq_of_lt

/-- A counter that an operation is about to decrement counts the object of the operation. -/
theorem wasFollowed_pos (hw : o.wasFollowed s = true) :
    0 < s.followings o.follower ∧ 0 < s.followers o.following := by
  obtain ⟨f, hmem, hfollower, hfollowing, hblog⟩ := wasFollowed_row hw
  constructor
  · exact List.countP_pos_iff.2 ⟨f, hmem, by simp [hfollower, hblog]⟩
  · exact List.countP_pos_iff.2 ⟨f, hmem, by simp [hfollowing, hblog]⟩

/-- There is one object for a pair, and as long as a number has room in its counter, the counter is
the number and is not decremented below zero. -/
theorem Reached.follow_counts (h : s.Reached) :
    (s.follows.map Follow.pair).Nodup ∧
      (∀ a, (s.followingCount a = s.followings a ↔ s.followings a < two32) ∧
        (s.followerCount a = s.followers a ↔ s.followers a < two32)) ∧
      ∀ o : FollowOperation, o.wasFollowed s →
        (s.followings o.follower < two32 → 0 < s.followingCount o.follower) ∧
        (s.followers o.following < two32 → 0 < s.followerCount o.following) := by
  have hs := h.counted
  refine ⟨hs.pairs, fun a => ⟨?_, ?_⟩, fun o hw => ⟨fun hfew => ?_, fun hfew => ?_⟩⟩
  · rw [hs.following]
    exact mod_eq_iff
  · rw [hs.follower]
    exact mod_eq_iff
  · rw [hs.following, mod_eq_iff.2 hfew]
    exact (wasFollowed_pos hw).1
  · rw [hs.follower, mod_eq_iff.2 hfew]
    exact (wasFollowed_pos hw).2

end Follows

/- One account follows another and then itself, ignores the other, and follows it again. -/
def demoFollows : List FollowOperation :=
  [⟨1, 2, ["blog"]⟩, ⟨1, 1, ["blog"]⟩, ⟨1, 2, ["ignore"]⟩, ⟨1, 2, ["blog"]⟩]

theorem follow_counts_demo : ∃ s : Follows, s.followings 1 = 2 ∧ s.followingCount 1 = 2 := by
  have h : (demoFollows.foldlM (fun s o => if True then (o.apply s).toOption else none)
      ({} : Follows)).map (fun s => s.followings 1) = some 2 := by
    decide
  obtain ⟨s, hrun, hnumber⟩ := Option.map_eq_some_iff.1 h
  have hfew : s.followings 1 < two32 := by
    rw [hnumber]
    decide
  have hcount := ((Follows.Reached.follow_counts (.of_run hrun)).2.1 1).1.2 hfew
  exact ⟨s, hnumber, hcount.trans hnumber⟩

/- The operations of one account that follows others. -/
def followOthers (n : Nat) : List Follow := (List.range n).map fun i => ⟨0, i + 1, 2⟩

theorem follow_bits (a b : Name) : FollowOperation.bits ⟨a, b, ["blog"]⟩ = 2 := by
  simp [FollowOperation.bits, FollowOperation.addTarget, followType]

theorem followOthers_reached (n : Nat) : ∃ s : Follows, s.Reached ∧ s.follows = followOthers n := by
  induction n with
  | zero => exact ⟨{}, .start, rfl⟩
  | succ n ih =>
    obtain ⟨s, hs, hfollows⟩ := ih
    have hnew : lookup Follow.pair s.follows (0, n + 1) = none := by
      rw [lookup_none, hfollows]
      simp [followOthers, Follow.pair]
    have hbits := follow_bits 0 (n + 1)
    have hok : ∃ s', FollowOperation.apply ⟨0, n + 1, ["blog"]⟩ s = .ok s' ∧
        s'.follows = upsert Follow.pair (0, n + 1) ⟨0, n + 1, 2⟩ (fun f => { f with what := 2 })
          s.follows := by
      unfold FollowOperation.apply
      rw [hbits]
      exact ⟨_, rfl, rfl⟩
    obtain ⟨s', ho, hs'⟩ := hok
    refine ⟨s', .next ⟨0, n + 1, ["blog"]⟩ hs trivial (congrArg Except.toOption ho), ?_⟩
    rw [hs', upsert_none hnew, hfollows, followOthers, followOthers, List.range_succ,
      List.map_append]
    rfl

/-- An account that follows 2^32 others has a counter of zero. -/
theorem follow_count_wraps : ∃ s : Follows, s.Reached ∧ s.followings 0 = two32 ∧
    s.followingCount 0 = 0 := by
  obtain ⟨s, hs, hfollows⟩ := followOthers_reached two32
  have hnumber : s.followings 0 = two32 := by
    unfold Follows.followings
    rw [hfollows, List.countP_eq_length.2, followOthers, List.length_map, List.length_range]
    intro f hf
    obtain ⟨i, -, rfl⟩ := List.mem_map.1 hf
    have hblog : Nat.testBit 2 1 = true := by decide
    simp [Follow.blog, hblog]
  refine ⟨s, hs, hnumber, ?_⟩
  rw [hs.counted.following, hnumber, Nat.mod_self]

end WeNode.Plugins
