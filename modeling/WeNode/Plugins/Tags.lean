import Mathlib.Algebra.Group.Prod
import Mathlib.Data.BitVec
import Mathlib.Data.List.Sort
import WeNode.Chain.Content
import WeNode.Chain.Operations
import WeNode.Lib.Attempts
import WeNode.Lib.Events
import WeNode.Lib.KeyedRows
import WeNode.Protocol.FixedString

/-!
# Tag statistics

libraries/plugins/tags/tags_plugin.cpp (58-232, 264-329, 433-475): the tags of comments, and what is
counted of them for every tag and for every author.  An object that the source reads after it was
removed is read as it was.
-/

namespace WeNode.Plugins

open WeNode.Lib WeNode.Chain WeNode.Protocol

/-- `tag_name_type` -/
abbrev TagName := FixedString 32

/-- `tag_object`, without `hot` -/
structure Tag where
  id : Nat
  tag : TagName
  created : Time := 0
  active : Time := 0
  cashout : Time := 0
  netSCOREreward : Int := 0
  netVotes : Int := 0
  children : Nat := 0
  /-- `static_cast<uint32_t>(tag.trending)` -/
  trending : Nat := 0
  promotedBalance : Int := 0
  author : Nat
  parent : Nat := 0
  comment : Nat
  /-- the comment has a parent, which the source does not keep -/
  reply : Bool := false

/-- `tag_stats_object` -/
structure TagStats where
  tag : TagName
  totalPayout : Asset := .usd 0
  netVotes : BitVec 32 := 0
  topPosts : BitVec 32 := 0
  comments : BitVec 32 := 0
  totalTrending : BitVec 128 := 0

/-- `author_tag_stats_object` -/
structure AuthorTagStats where
  author : Nat
  tag : TagName
  totalPosts : BitVec 32 := 0

/-- The objects of the plugin. -/
structure Tags where
  tags : List Tag := []
  nextTag : Nat := 0
  stats : List TagStats := []
  authors : List AuthorTagStats := []

/-- `fc::to_lower`, and what `calculate_trending` is as `uint32_t` -/
structure TagsLibrary where
  toLower : Bytes → Bytes
  trending : Int → Time → Nat

def AuthorTagStats.pair (s : AuthorTagStats) : Nat × TagName := (s.author, s.tag)

/-- `remove_stats` -/
def removeStats (t : Tag) (s : TagStats) : TagStats :=
  let s := if t.parent = 0 then { s with topPosts := s.topPosts - 1 }
    else { s with comments := s.comments - 1 }
  { s with
    totalTrending := s.totalTrending - BitVec.ofNat 128 t.trending
    netVotes := s.netVotes - BitVec.ofInt 32 t.netVotes }

/-- `add_stats` -/
def addStats (t : Tag) (s : TagStats) : TagStats :=
  let s := if t.parent = 0 then { s with topPosts := s.topPosts + 1 }
    else { s with comments := s.comments + 1 }
  { s with
    totalTrending := s.totalTrending + BitVec.ofNat 128 t.trending
    netVotes := s.netVotes + BitVec.ofInt 32 t.netVotes }

/- `get_stats`, and a change of what it returns -/
def modifyStats (tag : Bytes) (f : TagStats → TagStats) (l : List TagStats) : List TagStats :=
  upsert TagStats.tag (.ofString 32 tag) (f { tag := .ofString 32 tag }) f l

/- `set< string >::insert` -/
def insertString (s : Bytes) (l : List Bytes) : List Bytes :=
  if s ∈ l then l else l.orderedInsert (· ≤ ·) s

variable (lib : TagsLibrary) (d : Database)

/-- `filter_tags` of a comment whose json has these tags -/
def filterTags (json : List Bytes) (c : Comment) : List Bytes :=
  -- the loop ends at the sixth tag
  let lowerTags := (json.take 5).foldl (fun l tag =>
    if tag = [] then l else insertString (lib.toLower tag) l) []
  -- the universal tag
  if 0 ≤ c.netSCOREreward then insertString [] lowerTags else lowerTags

namespace Tags

variable (s : Tags)

/- The tags of a comment, in the order of `by_comment`. -/
def tagsOf (comment : Nat) : List Tag := s.tags.filter fun t => decide (t.comment = comment)

/-- `remove_tag` -/
def removeTag (i : Nat) : Tags :=
  match lookup Tag.id s.tags i with
  | none => s
  | some t => { s with
    tags := without Tag.id i s.tags
    authors := change AuthorTagStats.pair (t.author, t.tag)
      (fun a => { a with totalPosts := a.totalPosts - 1 }) s.authors }

/- What an update makes of a tag. -/
def renew (c : Comment) (cashout : Time) (t : Tag) : Tag := { t with
  active := c.active
  cashout := cashout
  children := c.children
  netSCOREreward := c.netSCOREreward
  netVotes := c.netVotes
  trending := lib.trending c.netSCOREreward c.created
  promotedBalance := if cashout = 0 then 0 else t.promotedBalance }

/-- `update_tag` -/
def updateTag (c : Comment) (i : Nat) : Attempt Tags Tags :=
  match lookup Tag.id s.tags i with
  | none => .error none
  | some t => do
    let s := { s with stats := modifyStats t.tag.toString (removeStats t) s.stats }
    if c.cashoutTime ≠ timeMax then
      let s := { s with tags := change Tag.id i (fun t => { t with active := c.active }) s.tags }
      let cashout ← Attempt.orThrow (d.calculateDiscussionPayoutTime c) s
      return { s with
        tags := change Tag.id i (renew lib c cashout) s.tags
        stats := modifyStats t.tag.toString (addStats (renew lib c cashout t)) s.stats }
    else return { s with tags := without Tag.id i s.tags }

/- The id of the parent, and that of a default `comment_id_type` for a root. -/
def parentId (c : Comment) : Result Nat :=
  if c.parentAuthor = rootPostParent then .ok 0
  else (d.getComment c.parentAuthor c.parentPermlink).map Comment.id

/-- `create_tag` -/
def createTag (c : Comment) (tag : Bytes) : Attempt Tags Tags := do
  let author ← Attempt.orThrow (d.getAccount c.author) s
  let parent ← Attempt.orThrow (parentId d c) s
  let t : Tag := {
    id := s.nextTag
    tag := .ofString 32 tag
    created := c.created
    active := c.active
    cashout := c.cashoutTime
    netSCOREreward := c.netSCOREreward
    netVotes := c.netVotes
    children := c.children
    trending := lib.trending c.netSCOREreward c.created
    author := author.id
    parent := parent
    comment := c.id
    reply := decide (c.parentAuthor ≠ rootPostParent) }
  return {
    tags := s.tags ++ [t]
    nextTag := s.nextTag + 1
    stats := modifyStats tag (addStats t) s.stats
    authors := upsert AuthorTagStats.pair (author.id, t.tag) ⟨author.id, t.tag, 1⟩
      (fun a => { a with totalPosts := a.totalPosts + 1 }) s.authors }

/- The tags of the comment itself, which are not parsed. -/
def updateOwn (c : Comment) : Attempt Tags Tags :=
  ((s.tagsOf c.id).map Tag.id).foldlM (fun s i => s.updateTag lib d c i) s

/- The tag is made, or it is the last of the comment with this name that is updated. -/
def putTag (c : Comment) (existing : List Tag) (tag : Bytes) : Attempt Tags Tags :=
  match existing.reverse.find? fun t => t.tag.toString = tag with
  | none => s.createTag lib d c tag
  | some t => s.updateTag lib d c t.id

/- The tags of the comment itself, as its json has them. -/
def parseOwn (json : List Bytes) (c : Comment) : Attempt Tags Tags := do
  let names := filterTags lib json c
  let existing := s.tagsOf c.id
  let removeQueue := existing.filter fun t => t.tag.toString ∉ names
  let s ← names.foldlM (fun s tag => s.putTag lib d c existing tag) s
  return (removeQueue.map Tag.id).foldl removeTag s

/-- `update_tags` of a comment that is not parsed -/
def updateTags : Nat → Tags → Comment → Attempt Tags Tags
  | 0, _, _ => .error none
  | n + 1, s, c => do
    let s ← s.updateOwn lib d c
    if c.parentAuthor = rootPostParent then return s
    let parent ← Attempt.orThrow (d.getComment c.parentAuthor c.parentPermlink) s
    updateTags n s parent

/-- `update_tags` of a comment that is parsed -/
def parseTags (json : List Bytes) (c : Comment) : Attempt Tags Tags := do
  let s ← s.parseOwn lib d json c
  if c.parentAuthor = rootPostParent then return s
  let parent ← Attempt.orThrow (d.getComment c.parentAuthor c.parentPermlink) s
  updateTags lib d d.comments.rows.length s parent

/- What a reward adds to the payout of a tag. -/
def payTag (payout : Asset) (tag : Bytes) : Attempt Tags Tags := do
  let s := { s with stats := modifyStats tag id s.stats }
  let name := FixedString.ofString 32 tag
  let total := ((lookup TagStats.tag s.stats name).map TagStats.totalPayout).getD (.usd 0)
  let total ← Attempt.orThrow (total.add payout) s
  return { s with
    stats := change TagStats.tag name (fun t => { t with totalPayout := total }) s.stats }

end Tags

/-! ### Events -/

/-- The operations that change the tags, with the chain as it is afterwards, and the tags in the
json of the comment where it is parsed. -/
inductive TagEvent where
  | comment (d : Database) (o : CommentOperation) (json : List Bytes)
  | vote (d : Database) (o : VoteOperation)
  | delete (d : Database) (o : DeleteCommentOperation)
  | reward (d : Database) (author : Name) (permlink : Bytes) (payout : Asset) (json : List Bytes)
  | payoutUpdate (d : Database) (author : Name) (permlink : Bytes)

namespace Tags

variable (s : Tags)

/- The tags of a comment and of what is above it. -/
def refresh (author : Name) (permlink : Bytes) : Attempt Tags Tags := do
  let c ← Attempt.orThrow (d.getComment author permlink) s
  updateTags lib d (d.comments.rows.length + 1) s c

/- The tags of comments of an account that do not exist any more. -/
def dropTags (author : Nat) : Tags := { s with
  tags := s.tags.filter fun t =>
    !(decide (t.author = author) && (d.comments.find fun c => c.id == t.comment).isNone) }

def apply : TagEvent → Attempt Tags Tags
  | .comment d o json => do
    let c ← Attempt.orThrow (d.getComment o.author o.permlink) s
    s.parseTags lib d json c
  | .vote d o => s.refresh lib d o.author o.permlink
  | .delete d o => do
    let author ← Attempt.orThrow (d.getAccount o.author) s
    return s.dropTags d author.id
  | .reward d author permlink payout json => do
    let s ← s.refresh lib d author permlink
    let c ← Attempt.orThrow (d.getComment author permlink) s
    (filterTags lib json c).foldlM (fun s tag => s.payTag payout tag) s
  | .payoutUpdate d author permlink => s.refresh lib d author permlink

/- `on_operation`, which catches what is thrown. -/
def step (e : TagEvent) : Option Tags := (s.apply lib e).left

/-! ### The condition -/

/- A comment and what is above it, as far as `update_tags` goes. -/
def line : Nat → Comment → List Comment
  | 0, _ => []
  | n + 1, c => c :: if c.parentAuthor = rootPostParent then [] else
    match d.getComment c.parentAuthor c.parentPermlink with
    | .error _ => []
    | .ok parent => line n parent

/- A tag that is updated stays, and is counted under its own name. -/
def renews (c : Comment) (tag : TagName) : Bool :=
  decide (c.cashoutTime ≠ timeMax) && (d.calculateDiscussionPayoutTime c).isOk && decide tag.Clean

def Renewable (c : Comment) : Bool := (s.tagsOf c.id).all fun t => renews d c t.tag

def LineReady (c : Comment) : Bool :=
  (line d (d.comments.rows.length + 1) c).all (s.Renewable d)

/- No tag is dropped, and no new tag is on a reply to the comment with the default id. -/
def ParseReady (json : List Bytes) (c : Comment) : Bool :=
  ((s.tagsOf c.id).all fun t => t.tag.toString ∈ filterTags lib json c) &&
    (((filterTags lib json c).all fun name =>
        (s.tagsOf c.id).any fun t => decide (t.tag.toString = name)) ||
      decide (c.parentAuthor = rootPostParent) ||
      decide (parentId d c ≠ .ok 0)) &&
    (line d (d.comments.rows.length + 1) c).tail.all fun p => decide (p.id ≠ c.id)

/-- No tag is dropped by an edit and none is left by a comment that is deleted; the comments whose
tags are updated are not paid; new tags are not on replies to the comment with the default id. -/
def Ready : TagEvent → Bool
  | .comment d o json =>
    match d.getComment o.author o.permlink with
    | .error _ => true
    | .ok c => s.LineReady d c && s.ParseReady lib d json c
  | .vote d o => refreshReady d o.author o.permlink
  | .delete d o =>
    match d.getAccount o.author with
    | .error _ => true
    | .ok author => s.tags.all fun t =>
      decide (t.author ≠ author.id) || (d.comments.find fun c => c.id == t.comment).isSome
  | .reward d author permlink _ _ => refreshReady d author permlink
  | .payoutUpdate d author permlink => refreshReady d author permlink
where
  refreshReady (d : Database) (author : Name) (permlink : Bytes) : Bool :=
    match d.getComment author permlink with
    | .error _ => true
    | .ok c => s.LineReady d c

end Tags

/-! ### What is counted -/

/-- The posts, the replies and the net votes of a tag. -/
abbrev Numbers := BitVec 32 × BitVec 32 × BitVec 32

def TagStats.numbers (s : TagStats) : Numbers := (s.topPosts, s.comments, s.netVotes)

/- What a tag is counted with. -/
def Tag.weight (t : Tag) : Numbers :=
  if t.parent = 0 then (1, 0, BitVec.ofInt 32 t.netVotes) else (0, 1, BitVec.ofInt 32 t.netVotes)

theorem removeStats_tag (t : Tag) (s : TagStats) : (removeStats t s).tag = s.tag := by
  unfold removeStats
  split <;> rfl

theorem addStats_tag (t : Tag) (s : TagStats) : (addStats t s).tag = s.tag := by
  unfold addStats
  split <;> rfl

theorem removeStats_numbers (t : Tag) (s : TagStats) :
    (removeStats t s).numbers = s.numbers + -t.weight := by
  unfold removeStats Tag.weight TagStats.numbers
  split <;> simp [sub_eq_add_neg]

theorem addStats_numbers (t : Tag) (s : TagStats) :
    (addStats t s).numbers = s.numbers + t.weight := by
  unfold addStats Tag.weight TagStats.numbers
  split <;> simp

/- The numbers of a tag; one without an object has none. -/
def numbersOf (l : List TagStats) (tag : TagName) : Numbers :=
  ((lookup TagStats.tag l tag).map TagStats.numbers).getD 0

def postsOf (l : List AuthorTagStats) (k : Nat × TagName) : BitVec 32 :=
  ((lookup AuthorTagStats.pair l k).map AuthorTagStats.totalPosts).getD 0

section

variable {l : List TagStats} {f : TagStats → TagStats} {tag : Bytes} {w : Numbers}

theorem numbersOf_modify (hf : ∀ s, (f s).tag = s.tag) (hw : ∀ s, (f s).numbers = s.numbers + w)
    (name : TagName) : numbersOf (modifyStats tag f l) name =
      numbersOf l name + if name = .ofString 32 tag then w else 0 := by
  unfold numbersOf modifyStats
  rw [lookup_upsert (hf { tag := .ofString 32 tag }) hf]
  by_cases h : name = .ofString 32 tag
  · rw [if_pos h, if_pos h, h]
    cases hl : lookup TagStats.tag l (.ofString 32 tag) with
    | none => exact (hw _).trans (congrArg (· + w) rfl)
    | some s => exact hw s
  · rw [if_neg h, if_neg h, add_zero]

theorem keys_modify (hf : ∀ s, (f s).tag = s.tag) (hn : (l.map TagStats.tag).Nodup) :
    ((modifyStats tag f l).map TagStats.tag).Nodup :=
  nodup_upsert (hf _) hf hn

theorem postsOf_new {l : List AuthorTagStats} (author : Nat) (name : TagName)
    (k : Nat × TagName) :
    postsOf (upsert AuthorTagStats.pair (author, name) ⟨author, name, 1⟩
        (fun a => { a with totalPosts := a.totalPosts + 1 }) l) k =
      postsOf l k + if k = (author, name) then 1 else 0 := by
  have hnew : AuthorTagStats.pair ⟨author, name, 1⟩ = (author, name) := rfl
  have hf : ∀ a : AuthorTagStats,
      AuthorTagStats.pair { a with totalPosts := a.totalPosts + 1 } = a.pair := fun _ => rfl
  unfold postsOf
  rw [lookup_upsert hnew hf]
  by_cases h : k = (author, name)
  · rw [if_pos h, if_pos h, h]
    cases hl : lookup AuthorTagStats.pair l (author, name) with
    | none => exact (zero_add 1).symm
    | some a => rfl
  · rw [if_neg h, if_neg h, add_zero]

end

namespace Tag

/- What a tag adds to the numbers of a name, and to those of an author and a name. -/
def share (name : TagName) (t : Tag) : Numbers := if name = t.tag then t.weight else 0

def post (k : Nat × TagName) (t : Tag) : BitVec 32 := if k = (t.author, t.tag) then 1 else 0

def label (t : Tag) : Nat × Nat × TagName := (t.id, t.comment, t.tag)

end Tag

namespace Tags

variable {lib d} {s s' : Tags} {c : Comment} {i : Nat}

def labels (s : Tags) : List (Nat × Nat × TagName) := s.tags.map Tag.label

/-- The objects count the tags; root posts are told by their parent. -/
structure Kept (s : Tags) : Prop where
  ids : (s.tags.map Tag.id).Nodup
  fresh : ∀ t ∈ s.tags, t.id < s.nextTag
  roots : ∀ t ∈ s.tags, t.parent = 0 ↔ t.reply = false
  statsTags : (s.stats.map TagStats.tag).Nodup
  pairs : (s.authors.map AuthorTagStats.pair).Nodup
  numbers : ∀ name, numbersOf s.stats name = (s.tags.map (Tag.share name)).sum
  posts : ∀ k, postsOf s.authors k = (s.tags.map (Tag.post k)).sum

theorem label_of_id (hn : (s.tags.map Tag.id).Nodup) {x y : Nat × Nat × TagName}
    (hx : x ∈ s.labels) (hy : y ∈ s.labels) (h : x.1 = y.1) : x = y := by
  obtain ⟨t, ht, rfl⟩ := List.mem_map.1 hx
  obtain ⟨u, hu, rfl⟩ := List.mem_map.1 hy
  rw [List.inj_on_of_nodup_map hn ht hu h]

/-! ### One tag -/

/-- A row changed in its numbers alone, and its objects with it. -/
theorem Kept.renew {t : Tag} {f : Tag → Tag} {stats : List TagStats} (hs : s.Kept)
    (ht : lookup Tag.id s.tags i = some t) (hlabel : ∀ u, (f u).label = u.label)
    (hauthor : ∀ u, (f u).author = u.author) (hparent : ∀ u, (f u).parent = u.parent)
    (hreply : ∀ u, (f u).reply = u.reply) (hstats : (stats.map TagStats.tag).Nodup)
    (hnumbers : ∀ name, numbersOf stats name + t.share name =
      numbersOf s.stats name + (f t).share name) :
    ({ s with tags := change Tag.id i f s.tags, stats := stats } : Tags).Kept where
  ids := by
    have hid : ∀ u, (f u).id = u.id := fun u => (Prod.mk.inj (hlabel u)).1
    rw [map_key_change hid]
    exact hs.ids
  fresh u hu := by
    obtain ⟨v, hv, rfl⟩ := List.mem_map.1 hu
    have hid : (f v).id = v.id := (Prod.mk.inj (hlabel v)).1
    split
    · exact hid ▸ hs.fresh v hv
    · exact hs.fresh v hv
  roots u hu := by
    obtain ⟨v, hv, rfl⟩ := List.mem_map.1 hu
    split
    · rw [hparent, hreply]
      exact hs.roots v hv
    · exact hs.roots v hv
  statsTags := hstats
  pairs := hs.pairs
  numbers name := by
    have hsum := sum_change (f := f) (g := Tag.share name) hs.ids ht
    rw [← hs.numbers, ← hnumbers] at hsum
    exact (add_right_cancel hsum).symm
  posts k := by
    have hsame : ∀ u, (f u).post k = u.post k := by
      intro u
      obtain ⟨-, hrest⟩ := Prod.mk.inj (hlabel u)
      unfold Tag.post
      rw [hauthor, (Prod.mk.inj hrest).2]
    have hsum := sum_change (f := f) (g := Tag.post k) hs.ids ht
    rw [hsame, ← hs.posts] at hsum
    exact (add_right_cancel hsum).symm

/-- A tag that is renewed is counted with what it has become. -/
theorem updateTag_keeps (hs : s.Kept) (hok : ∀ t ∈ s.tags, t.id = i → renews d c t.tag) :
    Attempt.Keeps (fun s' => s'.Kept ∧ s'.labels = s.labels) (s.updateTag lib d c i) := by
  unfold updateTag
  cases hl : lookup Tag.id s.tags i with
  | none => exact nofun
  | some t =>
    obtain ⟨hmem, hid⟩ := lookup_some hl
    have hready := hok t hmem hid
    unfold renews at hready
    simp only [Bool.and_eq_true, decide_eq_true_eq] at hready
    obtain ⟨⟨hunpaid, htime⟩, hclean⟩ := hready
    have hname : FixedString.ofString 32 t.tag.toString = t.tag :=
      (FixedString.ofString_toString_iff _).2 hclean
    dsimp only
    rw [if_pos hunpaid]
    cases hcashout : d.calculateDiscussionPayoutTime c with
    | error e =>
      rw [hcashout] at htime
      cases htime
    | ok cashout =>
      have hcomp : change Tag.id i (Tags.renew lib c cashout)
          (change Tag.id i (fun t => { t with active := c.active }) s.tags) =
          change Tag.id i (Tags.renew lib c cashout) s.tags := change_change fun _ => rfl
      refine .ok ⟨?_, ?_⟩
      · rw [hcomp]
        refine hs.renew hl (fun _ => rfl) (fun _ => rfl) (fun _ => rfl) (fun _ => rfl) ?_ ?_
        · exact keys_modify (addStats_tag _) (keys_modify (removeStats_tag _) hs.statsTags)
        · intro name
          rw [numbersOf_modify (addStats_tag _) (addStats_numbers _),
            numbersOf_modify (removeStats_tag _) (removeStats_numbers _), hname]
          have htag : (Tags.renew lib c cashout t).tag = t.tag := rfl
          unfold Tag.share
          rw [htag]
          by_cases h : name = t.tag
          · rw [if_pos h, if_pos h, if_pos h]
            abel
          · rw [if_neg h, if_neg h, if_neg h]
            abel
      · show (change Tag.id i _ (change Tag.id i _ s.tags)).map Tag.label = s.labels
        rw [hcomp]
        unfold labels change
        rw [List.map_map]
        refine List.map_congr_left fun u _ => ?_
        show Tag.label (if _ then _ else u) = u.label
        split <;> rfl

/-- A new row, and its objects with it. -/
theorem Kept.append {t : Tag} {stats : List TagStats} {authors : List AuthorTagStats} (hs : s.Kept)
    (hid : t.id = s.nextTag) (hroot : t.parent = 0 ↔ t.reply = false)
    (hstats : (stats.map TagStats.tag).Nodup)
    (hpairs : (authors.map AuthorTagStats.pair).Nodup)
    (hnumbers : ∀ name, numbersOf stats name = numbersOf s.stats name + t.share name)
    (hposts : ∀ k, postsOf authors k = postsOf s.authors k + t.post k) :
    ({ tags := s.tags ++ [t], nextTag := s.nextTag + 1, stats := stats, authors := authors } :
      Tags).Kept where
  ids := by
    rw [List.map_append, List.map_singleton]
    refine hs.ids.append (List.nodup_singleton _) (List.disjoint_singleton.2 fun h => ?_)
    obtain ⟨u, hu, hsame⟩ := List.mem_map.1 h
    exact absurd (hs.fresh u hu) (by omega)
  fresh u hu := by
    rcases List.mem_append.1 hu with hu | hu
    · exact Nat.lt_succ_of_lt (hs.fresh u hu)
    · rw [List.mem_singleton.1 hu, hid]
      exact Nat.lt_succ_self _
  roots u hu := by
    rcases List.mem_append.1 hu with hu | hu
    · exact hs.roots u hu
    · rw [List.mem_singleton.1 hu]
      exact hroot
  statsTags := hstats
  pairs := hpairs
  numbers name := by
    rw [hnumbers, hs.numbers, List.map_append, List.sum_append, List.map_singleton,
      List.sum_singleton]
  posts k := by
    rw [hposts, hs.posts, List.map_append, List.sum_append, List.map_singleton, List.sum_singleton]

theorem createTag_keeps {tag : Bytes} (hs : s.Kept)
    (hparent : c.parentAuthor = rootPostParent ∨ parentId d c ≠ .ok 0) :
    Attempt.Keeps (fun s' => s'.Kept ∧ ∃ new : List (Nat × Nat × TagName),
      s'.labels = s.labels ++ new ∧ ∀ x ∈ new, x.2.1 = c.id) (s.createTag lib d c tag) := by
  have hsame : s.Kept ∧ ∃ new : List (Nat × Nat × TagName),
      s.labels = s.labels ++ new ∧ ∀ x ∈ new, x.2.1 = c.id :=
    ⟨hs, [], (List.append_nil _).symm, nofun⟩
  unfold createTag
  refine .lookup hsame fun author _ => .lookup hsame fun parent hp => .ok ⟨?_, ?_⟩
  · refine hs.append rfl ?_ ?_ ?_ ?_ ?_
    · show parent = 0 ↔ decide (c.parentAuthor ≠ rootPostParent) = false
      rw [decide_eq_false_iff_not, not_not]
      constructor
      · intro hzero
        rw [hzero] at hp
        exact hparent.resolve_right fun hne => hne hp
      · intro hroot
        unfold parentId at hp
        rw [if_pos hroot] at hp
        cases hp
        rfl
    · exact keys_modify (addStats_tag _) hs.statsTags
    · exact nodup_upsert rfl (fun _ => rfl) hs.pairs
    · exact numbersOf_modify (addStats_tag _) (addStats_numbers _)
    · exact postsOf_new _ _
  · refine ⟨[(s.nextTag, c.id, .ofString 32 tag)], ?_, ?_⟩
    · unfold labels
      rw [List.map_append]
      rfl
    · intro x hx
      rw [List.mem_singleton.1 hx]

/-! ### The tags of a comment -/

theorem mem_tagsOf {t : Tag} {comment : Nat} :
    t ∈ s.tagsOf comment ↔ t ∈ s.tags ∧ t.comment = comment := by
  unfold tagsOf
  rw [List.mem_filter, decide_eq_true_iff]

/-- What is renewed depends on the names alone. -/
theorem renewable_iff : s.Renewable d c ↔ ∀ x ∈ s.labels, x.2.1 = c.id → renews d c x.2.2 := by
  unfold Renewable
  rw [List.all_eq_true]
  constructor
  · intro h x hx hc
    obtain ⟨t, ht, rfl⟩ := List.mem_map.1 hx
    exact h t (mem_tagsOf.2 ⟨ht, hc⟩)
  · intro h t ht
    obtain ⟨hmem, hc⟩ := mem_tagsOf.1 ht
    exact h t.label (List.mem_map_of_mem hmem) hc

/-- The tags that have the id of a tag of the comment, in a later state. -/
theorem renews_later {t u : Tag} (hs' : s'.Kept) (hsub : s.labels ⊆ s'.labels)
    (hr : s.Renewable d c) (ht : t ∈ s.tagsOf c.id) (hu : u ∈ s'.tags) (hid : u.id = t.id) :
    renews d c u.tag := by
  obtain ⟨hmem, hc⟩ := mem_tagsOf.1 ht
  have hlabel : t.label ∈ s.labels := List.mem_map_of_mem hmem
  have hsame : u.label = t.label :=
    label_of_id hs'.ids (List.mem_map_of_mem hu) (hsub hlabel) hid
  have htag : u.tag = t.tag := congrArg (fun x => x.2.2) hsame
  rw [htag]
  exact renewable_iff.1 hr t.label hlabel hc

theorem updateOwn_keeps (hs : s.Kept) (hr : s.Renewable d c) :
    Attempt.Keeps (fun s' => s'.Kept ∧ s'.labels = s.labels) (s.updateOwn lib d c) := by
  unfold updateOwn
  refine .foldlM ⟨hs, rfl⟩ fun i hi s' hs' => ?_
  obtain ⟨t, ht, rfl⟩ := List.mem_map.1 hi
  have hok : ∀ u ∈ s'.tags, u.id = t.id → renews d c u.tag := fun u hu hid =>
    renews_later hs'.1 (fun x hx => hs'.2.symm ▸ hx) hr ht hu hid
  exact (updateTag_keeps hs'.1 hok).mono fun s'' h => ⟨h.1, h.2.trans hs'.2⟩

theorem updateTags_keeps {n : Nat} (hs : s.Kept) (hr : ∀ a ∈ line d n c, s.Renewable d a) :
    Attempt.Keeps (fun s' => s'.Kept ∧ s'.labels = s.labels) (updateTags lib d n s c) := by
  induction n generalizing s c with
  | zero => exact nofun
  | succ n ih =>
    unfold updateTags
    refine (updateOwn_keeps hs (hr c (List.mem_cons_self ..))).bind (fun _ h => h) fun s' hs' => ?_
    split
    · exact .ok hs'
    · next hparent =>
      refine .lookup hs' fun p hp => ?_
      refine (ih hs'.1 fun a ha => ?_).mono fun s'' h => ⟨h.1, h.2.trans hs'.2⟩
      have hmem : a ∈ line d (n + 1) c := by
        unfold line
        rw [if_neg hparent, hp]
        exact List.mem_cons_of_mem c ha
      rw [renewable_iff, hs'.2, ← renewable_iff]
      exact hr a hmem

/- What the parse of a comment may change. -/
structure Parsed (s s' : Tags) (comment : Nat) : Prop where
  kept : s'.Kept
  old : s.labels ⊆ s'.labels
  new : ∀ x ∈ s'.labels, x.2.1 = comment ∨ x ∈ s.labels

theorem putTag_keeps {tag : Bytes} (hs' : s.Parsed s' c.id) (hr : s.Renewable d c)
    (hparent : (∃ t ∈ s.tagsOf c.id, t.tag.toString = tag) ∨ c.parentAuthor = rootPostParent ∨
      parentId d c ≠ .ok 0) :
    Attempt.Keeps (fun s'' => s.Parsed s'' c.id)
      (s'.putTag lib d c (s.tagsOf c.id) tag) := by
  unfold putTag
  cases hfind : (s.tagsOf c.id).reverse.find? fun t => decide (t.tag.toString = tag) with
  | none =>
    have hnew : ¬ ∃ t ∈ s.tagsOf c.id, t.tag.toString = tag := by
      rintro ⟨t, ht, hname⟩
      exact List.find?_eq_none.1 hfind t (List.mem_reverse.2 ht) (decide_eq_true hname)
    refine (createTag_keeps hs'.kept (hparent.resolve_left hnew)).mono ?_
    rintro s'' ⟨hkept, new, hlabels, hcomment⟩
    refine ⟨hkept, fun x hx => ?_, fun x hx => ?_⟩
    · rw [hlabels]
      exact List.mem_append_left new (hs'.old hx)
    · rw [hlabels] at hx
      exact (List.mem_append.1 hx).elim (hs'.new x) fun h => .inl (hcomment x h)
  | some t =>
    have ht : t ∈ s.tagsOf c.id := List.mem_reverse.1 (List.mem_of_find?_eq_some hfind)
    have hok : ∀ u ∈ s'.tags, u.id = t.id → renews d c u.tag := fun u hu hid =>
      renews_later hs'.kept hs'.old hr ht hu hid
    refine (updateTag_keeps hs'.kept hok).mono ?_
    rintro s'' ⟨hkept, hlabels⟩
    exact ⟨hkept, hlabels ▸ hs'.old, hlabels ▸ hs'.new⟩

theorem parseOwn_keeps {json : List Bytes} (hs : s.Kept) (hr : s.Renewable d c)
    (hready : s.ParseReady lib d json c) :
    Attempt.Keeps (fun s' => s.Parsed s' c.id) (s.parseOwn lib d json c) := by
  unfold ParseReady at hready
  simp only [Bool.and_eq_true, Bool.or_eq_true, List.all_eq_true, List.any_eq_true,
    decide_eq_true_eq] at hready
  obtain ⟨⟨hdrops, hparent⟩, -⟩ := hready
  have hqueue : (s.tagsOf c.id).filter (fun t => decide (t.tag.toString ∉ filterTags lib json c)) =
      [] := by
    rw [List.filter_eq_nil_iff]
    intro t ht
    simpa using hdrops t ht
  unfold parseOwn
  dsimp only
  rw [hqueue]
  refine (Attempt.Keeps.foldlM (P := fun s' => s.Parsed s' c.id)
    ⟨hs, List.Subset.refl _, fun _ => .inr⟩ fun tag htag s' hs' => ?_).bind (fun _ h => h)
      fun s' hs' => .ok hs'
  exact putTag_keeps hs' hr ((or_assoc.1 hparent).imp_left fun hall => hall tag htag)

theorem parseTags_keeps {json : List Bytes} (hs : s.Kept) (hline : s.LineReady d c)
    (hready : s.ParseReady lib d json c) :
    Attempt.Keeps Kept (s.parseTags lib d json c) := by
  have hall := List.all_eq_true.1 hline
  have hapart : ∀ p ∈ (line d (d.comments.rows.length + 1) c).tail, p.id ≠ c.id := by
    unfold ParseReady at hready
    simp only [Bool.and_eq_true, List.all_eq_true, decide_eq_true_eq] at hready
    exact hready.2
  unfold parseTags
  refine (parseOwn_keeps hs (hall c (List.mem_cons_self ..)) hready).bind (fun _ h => h.kept)
    fun s' hs' => ?_
  split
  · exact .ok hs'.kept
  · next hparent =>
    refine .lookup hs'.kept fun p hp => ?_
    have htail : (line d (d.comments.rows.length + 1) c).tail =
        line d d.comments.rows.length p := by
      rw [line, List.tail_cons, if_neg hparent, hp]
    refine (updateTags_keeps hs'.kept fun a ha => ?_).mono fun _ h => h.1
    rw [renewable_iff]
    intro x hx hxa
    have ha' : a ∈ (line d (d.comments.rows.length + 1) c).tail := htail ▸ ha
    have hold : x ∈ s.labels :=
      (hs'.new x hx).resolve_left fun h => hapart a ha' (hxa.symm.trans h)
    exact renewable_iff.1 (hall a (List.mem_of_mem_tail ha')) x hold hxa

/-! ### Runs -/

theorem refresh_keeps {author : Name} {permlink : Bytes} (hs : s.Kept)
    (hready : Ready.refreshReady s d author permlink) :
    Attempt.Keeps Kept (s.refresh lib d author permlink) := by
  unfold refresh
  refine .lookup hs fun c hc => ?_
  unfold Ready.refreshReady at hready
  rw [hc] at hready
  exact (updateTags_keeps hs (List.all_eq_true.1 hready)).mono fun _ h => h.1

/- Objects that change in other fields alone. -/
theorem Kept.stats_same {stats : List TagStats} (hs : s.Kept)
    (hstats : (stats.map TagStats.tag).Nodup)
    (hnumbers : ∀ name, numbersOf stats name = numbersOf s.stats name) :
    ({ s with stats := stats } : Tags).Kept :=
  { hs with statsTags := hstats, numbers := fun name => (hnumbers name).trans (hs.numbers name) }

theorem payTag_keeps {payout : Asset} {tag : Bytes} (hs : s.Kept) :
    Attempt.Keeps Kept (s.payTag payout tag) := by
  have hmade : ({ s with stats := modifyStats tag id s.stats } : Tags).Kept := by
    have htag : ∀ t : TagStats, (id t).tag = t.tag := fun _ => rfl
    have hnumbers : ∀ t : TagStats, (id t).numbers = t.numbers + 0 := fun t => (add_zero _).symm
    refine hs.stats_same (keys_modify htag hs.statsTags) fun name => ?_
    rw [numbersOf_modify htag hnumbers, ite_self, add_zero]
  unfold payTag
  refine .lookup hmade fun total _ => .ok ?_
  have htag : ∀ t : TagStats, ({ t with totalPayout := total } : TagStats).tag = t.tag :=
    fun _ => rfl
  refine hmade.stats_same ?_ fun name => ?_
  · rw [map_key_change htag]
    exact hmade.statsTags
  · unfold numbersOf
    rw [lookup_change htag]
    split
    · next h =>
      rw [h, Option.map_map]
      rfl
    · rfl

theorem dropTags_eq {author : Nat} (h : ∀ t ∈ s.tags, t.author ≠ author ∨
    (d.comments.find fun c => c.id == t.comment).isSome) : s.dropTags d author = s := by
  have hall : s.tags.filter (fun t => !(decide (t.author = author) &&
      (d.comments.find fun c => c.id == t.comment).isNone)) = s.tags := by
    rw [List.filter_eq_self]
    intro t ht
    rcases h t ht with h | h <;> simp [h]
  unfold dropTags
  rw [hall]

/-- One operation keeps the objects right. -/
theorem apply_keeps {e : TagEvent} (hs : s.Kept) (hready : s.Ready lib e) :
    Attempt.Keeps Kept (s.apply lib e) := by
  cases e with
  | comment d o json =>
    refine .lookup hs fun c hc => ?_
    unfold Ready at hready
    simp only [hc, Bool.and_eq_true] at hready
    exact parseTags_keeps hs hready.1 hready.2
  | vote d o => exact refresh_keeps hs hready
  | delete d o =>
    refine .lookup hs fun author ha => .ok ?_
    unfold Ready at hready
    simp only [ha, List.all_eq_true, Bool.or_eq_true, decide_eq_true_eq] at hready
    rw [dropTags_eq hready]
    exact hs
  | reward d author permlink payout json =>
    refine (refresh_keeps hs hready).bind (fun _ h => h) fun s' hs' => ?_
    exact .lookup hs' fun c _ => .foldlM hs' fun tag _ s'' hs'' => payTag_keeps hs''
  | payoutUpdate d author permlink => exact refresh_keeps hs hready

theorem kept_empty : Kept {} where
  ids := .nil
  fresh := nofun
  roots := nofun
  statsTags := .nil
  pairs := .nil
  numbers _ := rfl
  posts _ := rfl

/- The states that operations lead to, each of them with some property. -/
def Reached (lib : TagsLibrary) (ok : Tags → TagEvent → Bool) : Tags → Prop :=
  Reaches (fun s e => s.step lib e) (fun s e => ok s e) {}

theorem Reached.kept (h : Reached lib (Ready lib) s) : s.Kept :=
  h.invariant kept_empty fun _ _ s' hs hready hstep => apply_keeps hs hready s' hstep

/-! ### The statistics -/

/- The fields of the objects; what has no object has counted nothing. -/
def topPosts (s : Tags) (name : TagName) : BitVec 32 := (numbersOf s.stats name).1

def comments (s : Tags) (name : TagName) : BitVec 32 := (numbersOf s.stats name).2.1

def netVotes (s : Tags) (name : TagName) : BitVec 32 := (numbersOf s.stats name).2.2

def totalPosts (s : Tags) (author : Nat) (name : TagName) : BitVec 32 :=
  postsOf s.authors (author, name)

/- The tags of a name on root posts and on replies, and the sum of their votes. -/
def onPosts (s : Tags) (name : TagName) : Nat :=
  s.tags.countP fun t => decide (name = t.tag ∧ t.reply = false)

def onReplies (s : Tags) (name : TagName) : Nat :=
  s.tags.countP fun t => decide (name = t.tag ∧ t.reply = true)

def votes (s : Tags) (name : TagName) : Int :=
  ((s.tags.filter fun t => decide (name = t.tag)).map Tag.netVotes).sum

def byAuthor (s : Tags) (author : Nat) (name : TagName) : Nat :=
  s.tags.countP fun t => decide (t.author = author ∧ name = t.tag)

/-- There is one object for a tag, and one for an author and a tag; their fields are the numbers,
as far as they have room for these. -/
structure Counted (s : Tags) : Prop where
  tags : (s.stats.map TagStats.tag).Nodup
  pairs : (s.authors.map AuthorTagStats.pair).Nodup
  topPosts : ∀ name, (s.topPosts name).toNat = s.onPosts name ↔ s.onPosts name < 2 ^ 32
  comments : ∀ name, (s.comments name).toNat = s.onReplies name ↔ s.onReplies name < 2 ^ 32
  netVotes : ∀ name, (s.netVotes name).toInt = s.votes name ↔
    -2 ^ 31 ≤ s.votes name ∧ s.votes name < 2 ^ 31
  totalPosts : ∀ author name, (s.totalPosts author name).toNat = s.byAuthor author name ↔
    s.byAuthor author name < 2 ^ 32

theorem toNat_natCast_iff (n : Nat) : (n : BitVec 32).toNat = n ↔ n < 2 ^ 32 := by
  rw [BitVec.natCast_eq_ofNat, BitVec.toNat_ofNat]
  exact Nat.mod_eq_iff_lt (by decide)

theorem toInt_ofInt_iff (i : Int) : (BitVec.ofInt 32 i).toInt = i ↔ -2 ^ 31 ≤ i ∧ i < 2 ^ 31 := by
  rw [BitVec.toInt_ofInt]
  unfold Int.bmod
  dsimp only
  split <;> omega

theorem ofInt_sum (l : List Int) : (l.map (BitVec.ofInt 32)).sum = BitVec.ofInt 32 l.sum := by
  induction l with
  | nil => rfl
  | cons i l ih => rw [List.map_cons, List.sum_cons, List.sum_cons, ih, BitVec.ofInt_add]

theorem posts_sum (l : List Numbers) : l.sum.1 = (l.map fun x => x.1).sum :=
  map_list_sum (AddMonoidHom.fst (BitVec 32) (BitVec 32 × BitVec 32)) l

theorem replies_sum (l : List Numbers) : l.sum.2.1 = (l.map fun x => x.2.1).sum :=
  map_list_sum ((AddMonoidHom.fst (BitVec 32) (BitVec 32)).comp
    (AddMonoidHom.snd (BitVec 32) (BitVec 32 × BitVec 32))) l

theorem votes_sum (l : List Numbers) : l.sum.2.2 = (l.map fun x => x.2.2).sum :=
  map_list_sum ((AddMonoidHom.snd (BitVec 32) (BitVec 32)).comp
    (AddMonoidHom.snd (BitVec 32) (BitVec 32 × BitVec 32))) l

theorem Kept.topPosts_eq (hs : s.Kept) (name : TagName) :
    s.topPosts name = (s.onPosts name : BitVec 32) := by
  unfold topPosts onPosts
  rw [hs.numbers, ← sum_boole, posts_sum, List.map_map]
  refine congrArg List.sum (List.map_congr_left fun t ht => ?_)
  have hroot := hs.roots t ht
  show (t.share name).1 = _
  unfold Tag.share Tag.weight
  by_cases hname : name = t.tag
  · by_cases hparent : t.parent = 0
    · simp [hname, hparent, hroot.1 hparent]
    · simp [hname, hparent, ← hroot]
  · simp [hname]

theorem Kept.comments_eq (hs : s.Kept) (name : TagName) :
    s.comments name = (s.onReplies name : BitVec 32) := by
  unfold comments onReplies
  rw [hs.numbers, ← sum_boole, replies_sum, List.map_map]
  refine congrArg List.sum (List.map_congr_left fun t ht => ?_)
  have hroot := hs.roots t ht
  show (t.share name).2.1 = _
  unfold Tag.share Tag.weight
  by_cases hname : name = t.tag
  · by_cases hparent : t.parent = 0
    · simp [hname, hparent, hroot.1 hparent]
    · have hreply : t.reply = true :=
        Bool.eq_true_of_not_eq_false fun h => hparent (hroot.2 h)
      simp [hname, hparent, hreply]
  · simp [hname]

theorem Kept.netVotes_eq (hs : s.Kept) (name : TagName) :
    s.netVotes name = BitVec.ofInt 32 (s.votes name) := by
  have hshare : ∀ t : Tag, (t.share name).2.2 =
      if name = t.tag then BitVec.ofInt 32 t.netVotes else 0 := by
    intro t
    unfold Tag.share Tag.weight
    split
    · split <;> rfl
    · rfl
  unfold netVotes votes
  rw [hs.numbers, ← ofInt_sum, votes_sum, List.map_map, List.map_map]
  show (s.tags.map fun t => (t.share name).2.2).sum = _
  simp only [hshare]
  rw [List.sum_map_ite, List.map_const', List.sum_replicate, nsmul_zero, add_zero]
  rfl

theorem Kept.totalPosts_eq (hs : s.Kept) (author : Nat) (name : TagName) :
    s.totalPosts author name = (s.byAuthor author name : BitVec 32) := by
  unfold totalPosts byAuthor
  rw [hs.posts, ← sum_boole]
  refine congrArg List.sum (List.map_congr_left fun t _ => ?_)
  unfold Tag.post
  refine if_congr ?_ rfl rfl
  rw [Prod.mk.injEq, eq_comm]

/-- If no edit drops a tag, no deletion leaves any, comments with tags to update are not paid and
new tags are not on replies to the comment with the default id, the statistics are right. -/
theorem Reached.tags_counted (h : Reached lib (Ready lib) s) : s.Counted where
  tags := h.kept.statsTags
  pairs := h.kept.pairs
  topPosts name := by
    rw [h.kept.topPosts_eq]
    exact toNat_natCast_iff _
  comments name := by
    rw [h.kept.comments_eq]
    exact toNat_natCast_iff _
  netVotes name := by
    rw [h.kept.netVotes_eq]
    exact toInt_ofInt_iff _
  totalPosts author name := by
    rw [h.kept.totalPosts_eq]
    exact toNat_natCast_iff _

/-! ### A post, a reply and a vote -/

/- A score below 10000000 has no part in `calculate_trending`. -/
def demoLibrary : TagsLibrary where
  toLower s := s.map fun b => if 65 ≤ b ∧ b ≤ 90 then b + 32 else b
  trending _ created := created / 480000

/- A post of account 1 and a reply of account 2. -/
def demoThread (votes : Int) : Database where
  accounts := ⟨[1, 2].map fun name => { id := name, name := name }, 3⟩
  comments := ⟨[
    { id := 1, author := 1, permlink := [97], created := 1600000000, cashoutTime := 1600600000,
      netVotes := votes },
    { id := 2, parentAuthor := 1, parentPermlink := [97], author := 2, permlink := [98],
      created := 1600000010, cashoutTime := 1600600010 }], 3⟩
  hardforks := { processedHardforks := List.replicate 20 0 }

def demoPost : CommentOperation :=
  ⟨rootPostParent, [], 1, [97], { size := 1 }, { size := 1 }, { size := 20 }⟩

def demoReply : CommentOperation :=
  ⟨1, [97], 2, [98], { size := 1 }, { size := 1 }, { size := 20 }⟩

/- A post with a tag, a reply with it, a vote, and an edit that adds another tag. -/
def demoEvents : List TagEvent := [
  .comment (demoThread 0) demoPost [[97]],
  .comment (demoThread 0) demoReply [[97]],
  .vote (demoThread 1) ⟨2, 1, [97], 10000⟩,
  .comment (demoThread 1) demoPost [[66], [97]]]

theorem tags_counted_demo : ∃ s : Tags, s.Counted ∧
    (s.onPosts (.ofString 32 [97]), s.onReplies (.ofString 32 [97]), s.votes (.ofString 32 [97]),
      s.byAuthor 1 (.ofString 32 [98])) = (1, 1, 1, 1) := by
  have h : (demoEvents.foldlM (fun (s : Tags) e => if s.Ready demoLibrary e then
      s.step demoLibrary e else none) {}).map (fun s =>
        (s.onPosts (.ofString 32 [97]), s.onReplies (.ofString 32 [97]),
          s.votes (.ofString 32 [97]), s.byAuthor 1 (.ofString 32 [98]))) = some (1, 1, 1, 1) := by
    decide +kernel
  obtain ⟨s, hrun, hnumbers⟩ := Option.map_eq_some_iff.1 h
  exact ⟨s, Reached.tags_counted (.of_run hrun), hnumbers⟩

/- The post without a reply, and its deletion. -/
def demoDeletion : List TagEvent := [
  .comment (demoThread 0) demoPost [[97]],
  .delete { demoThread 0 with comments := ⟨[], 3⟩ } ⟨1, [97]⟩]

/-- A post that is deleted stays counted. -/
theorem deleted_post_counted : ∃ s : Tags, Reached demoLibrary (fun _ _ => true) s ∧
    s.onPosts (.ofString 32 [97]) = 0 ∧ s.topPosts (.ofString 32 [97]) = 1 := by
  have h : (demoDeletion.foldlM (fun (s : Tags) e =>
      if (fun _ _ => true : Tags → TagEvent → Bool) s e then s.step demoLibrary e else none) {}).map
        (fun s => (s.onPosts (.ofString 32 [97]), s.topPosts (.ofString 32 [97]))) =
      some (0, 1) := by
    decide
  obtain ⟨s, hrun, hs⟩ := Option.map_eq_some_iff.1 h
  obtain ⟨hposts, htop⟩ := Prod.mk.inj hs
  exact ⟨s, .of_run hrun, hposts, htop⟩

end Tags

end WeNode.Plugins
