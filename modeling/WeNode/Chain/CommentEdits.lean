import WeNode.Chain.Block
import WeNode.Lib.Runs

/-!
# Edits of a comment

The edit case of `comment_evaluator` (libraries/chain/node_evaluator.cpp:619-680).  `strcmp_equal`
takes permlinks of one length to be equal, so that an edit may name another parent.
-/

namespace WeNode.Chain

open WeNode.Lib

variable {d d' : Database} {o : CommentOperation} {c : Comment} {a b : Bytes}

/- A comment can be edited until it is archived. -/
def checkEditable (d : Database) (c : Comment) : Result Unit := do
  if !d.hasHardfork 17 then
    if d.hasHardfork 14 then
      require ((← d.calculateDiscussionPayoutTime c) ≠ timeMax) "The comment is archived."
    else if d.hasHardfork 10 then
      require (c.lastPayout = 0) "Can only edit during the first 24 hours."

/- The checks an edit passes before it looks at the parent of the stored comment. -/
def CommentOperation.editChecks (o : CommentOperation) (d : Database) (c : Comment) :
    Result Unit := do
  if d.hasHardfork 5 then
    require (o.title.size + o.body.size + o.json.size ≠ 0)
      "Cannot update comment because nothing appears to be changing."
  let a ← d.getAccount o.author
  checkUnchallenged d a
  let _ ← o.findParent d
  if d.hasHardfork 17 ∧ o.json.size ≠ 0 then require o.json.isUtf8 "JSON Metadata must be UTF-8"
  checkEditable d c

/- Permlinks that `strcmp_equal` does not tell apart. -/
def Lookalike (a b : Bytes) : Prop :=
  a ≠ b ∧ (a.length = b.length ∨ Database.cString a = Database.cString b)

theorem permlinkEqual_iff : permlinkEqual a b = true ↔ a = b ∨ Lookalike a b := by
  unfold permlinkEqual Lookalike
  rw [Bool.or_eq_true, beq_iff_eq, beq_iff_eq]
  constructor
  · intro h
    by_cases hab : a = b
    · exact .inl hab
    · exact .inr ⟨hab, h⟩
  · rintro (rfl | ⟨-, h⟩)
    · exact .inl rfl
    · exact h

namespace CommentOperation

/- What an edit makes of the stored comment. -/
def editRow (o : CommentOperation) (d : Database) (c : Comment) : Result Comment := do
  require (c.parentAuthor = o.parentAuthor) "The parent of a comment cannot change."
  require (permlinkEqual c.parentPermlink o.parentPermlink)
    "The permlink of a comment cannot change."
  return { c with lastUpdate := d.headBlockTime, active := d.headBlockTime }

theorem edit_eq : o.edit d c =
    (checkEditable d c >>= fun _ => d.modifyComment c.id (o.editRow d)) := by
  unfold CommentOperation.edit checkEditable
  cases d.hasHardfork 17 with
  | true => rfl
  | false =>
    cases d.hasHardfork 14 with
    | true =>
      simp only [Bool.not_false, ↓reduceIte, bind_assoc]
      rfl
    | false => cases d.hasHardfork 10 <;> rfl

theorem apply_edit (hc : d.findComment o.author o.permlink = some c) :
    o.apply d = (o.editChecks d c >>= fun _ => d.modifyComment c.id (o.editRow d)) := by
  unfold CommentOperation.apply editChecks
  rw [hc]
  simp only [edit_eq]
  by_cases hjson : d.hasHardfork 17 = true ∧ o.json.size ≠ 0
  · simp only [if_pos hjson]
    by_cases h5 : d.hasHardfork 5 = true <;>
      simp only [h5, Bool.false_eq_true, ↓reduceIte, bind_assoc]
  · simp only [if_neg hjson]
    by_cases h5 : d.hasHardfork 5 = true <;>
      simp only [h5, Bool.false_eq_true, ↓reduceIte, bind_assoc]

theorem editRow_ok {x y : Comment} :
    o.editRow d x = .ok y ↔ x.parentAuthor = o.parentAuthor ∧
      permlinkEqual x.parentPermlink o.parentPermlink = true ∧
      y = { x with lastUpdate := d.headBlockTime, active := d.headBlockTime } := by
  unfold editRow
  constructor
  · intro h
    obtain ⟨_, hauthor, h⟩ := bind_ok.1 h
    obtain ⟨_, hpermlink, h⟩ := bind_ok.1 h
    cases h
    exact ⟨require_ok hauthor, require_ok hpermlink, rfl⟩
  · rintro ⟨hauthor, hpermlink, rfl⟩
    rw [(require_eq_ok (u := ())).2 hauthor, (require_eq_ok (u := ())).2 hpermlink]
    rfl

/-- An edit is accepted when its checks pass, the parent author is the stored one and the parent
permlink is one `strcmp_equal` takes for the stored one. -/
theorem apply_edit_ok (hids : (d.comments.rows.map (·.id)).Nodup)
    (hc : d.findComment o.author o.permlink = some c) :
    (∃ d', o.apply d = .ok d') ↔ o.editChecks d c = .ok () ∧ c.parentAuthor = o.parentAuthor ∧
      permlinkEqual c.parentPermlink o.parentPermlink = true := by
  have hrow : d.comments.row (·.id) c.id = some c :=
    Table.row_of_nodup hids (List.mem_of_find?_eq_some hc) rfl
  rw [apply_edit hc]
  constructor
  · rintro ⟨d', h⟩
    obtain ⟨_, hchecks, h⟩ := bind_ok.1 h
    obtain ⟨t, ht, -⟩ := bind_ok.1 h
    obtain ⟨x, y, hxy, hrep, -⟩ := Table.modify_ok ht
    have hx : x = c := Option.some.inj (hrep.find_eq.symm.trans hrow)
    subst hx
    obtain ⟨hauthor, hpermlink, -⟩ := editRow_ok.1 hxy
    exact ⟨hchecks, hauthor, hpermlink⟩
  · rintro ⟨hchecks, hauthor, hpermlink⟩
    obtain ⟨t, ht⟩ : ∃ t, d.comments.modify _ _ _ = .ok t :=
      Table.modify_of_find hrow (editRow_ok.2 ⟨hauthor, hpermlink, rfl⟩)
    refine ⟨{ d with comments := t }, bind_ok.2 ⟨(), hchecks, ?_⟩⟩
    exact bind_ok.2 ⟨t, ht, rfl⟩

/-- An edit keeps the parent if and only if it is refused for another reason, or its parent permlink
is not a different one that `strcmp_equal` takes for the stored one. -/
theorem edit_keeps_parent_iff (hids : (d.comments.rows.map (·.id)).Nodup)
    (hc : d.findComment o.author o.permlink = some c) :
    (∀ d', o.apply d = .ok d' →
      o.parentAuthor = c.parentAuthor ∧ o.parentPermlink = c.parentPermlink) ↔
    ¬ (o.editChecks d c = .ok () ∧ c.parentAuthor = o.parentAuthor ∧
      Lookalike c.parentPermlink o.parentPermlink) := by
  constructor
  · rintro hkeeps ⟨hchecks, hauthor, hlook⟩
    obtain ⟨d', hd'⟩ := (apply_edit_ok hids hc).2
      ⟨hchecks, hauthor, permlinkEqual_iff.2 (.inr hlook)⟩
    exact hlook.1 (hkeeps d' hd').2.symm
  · intro hclear d' hd'
    obtain ⟨hchecks, hauthor, hpermlink⟩ := (apply_edit_ok hids hc).1 ⟨d', hd'⟩
    rcases permlinkEqual_iff.1 hpermlink with hsame | hlook
    · exact ⟨hauthor.symm, hsame.symm⟩
    · exact absurd ⟨hchecks, hauthor, hlook⟩ hclear

end CommentOperation

/- A root post under the tag `a`, and an edit of it under the tag `b`. -/
def newPost : CommentOperation where
  parentAuthor := rootPostParent
  parentPermlink := [97]
  author := Database.genesisAccountName 1
  permlink := [112, 111, 115, 116]
  title := { size := 5 }
  body := { size := 5 }
  json := { size := 0 }

def movedPost : CommentOperation := { newPost with parentPermlink := [98] }

/- The genesis state after the post. -/
def posted : Database :=
  (newPost.apply (Database.initGenesis initSupply)).toOption.getD (Database.initGenesis initSupply)

theorem posted_findComment :
    ∃ c, posted.findComment movedPost.author movedPost.permlink = some c ∧
      c.parentAuthor = movedPost.parentAuthor ∧ c.parentPermlink = [97] := by
  have hfound : (posted.findComment movedPost.author movedPost.permlink).any
      (fun c => c.parentAuthor == movedPost.parentAuthor && c.parentPermlink == [97]) = true := by
    decide
  obtain ⟨c, hc, hparent⟩ := (Option.any_eq_true _ _).1 hfound
  exact ⟨c, hc, by simpa using hparent⟩

/-- The edit is accepted though it names another parent. -/
theorem edit_moves_parent :
    (newPost.apply (Database.initGenesis initSupply)).isOk = true ∧
    ∃ c d', posted.findComment movedPost.author movedPost.permlink = some c ∧
      movedPost.apply posted = .ok d' ∧ movedPost.parentPermlink ≠ c.parentPermlink := by
  obtain ⟨c, hc, -, hparent⟩ := posted_findComment
  have hok : (movedPost.apply posted).isOk = true := by decide
  refine ⟨by decide, c, ?_⟩
  cases happly : movedPost.apply posted with
  | error e =>
    rw [happly] at hok
    cases hok
  | ok d' => exact ⟨d', hc, rfl, by rw [hparent]; decide⟩

theorem edit_keeps_parent_iff_posted :
    ∃ c, (posted.comments.rows.map (·.id)).Nodup ∧
      posted.findComment newPost.author newPost.permlink = some c ∧
      ((∀ d', newPost.apply posted = .ok d' →
        newPost.parentAuthor = c.parentAuthor ∧ newPost.parentPermlink = c.parentPermlink) ↔
      ¬ (newPost.editChecks posted c = .ok () ∧ c.parentAuthor = newPost.parentAuthor ∧
        Lookalike c.parentPermlink newPost.parentPermlink)) := by
  obtain ⟨c, hc, -⟩ := posted_findComment
  have hids : (posted.comments.rows.map (·.id)).Nodup := by decide
  exact ⟨c, hids, hc, CommentOperation.edit_keeps_parent_iff hids hc⟩

end WeNode.Chain
