import WeNode.Chain.AuthorityCheck
import WeNode.Lib.Pruning

/-!
# The signatures a transaction requires

`get_required_signatures` and `minimize_required_signatures` of libraries/protocol/transaction.cpp.
The authorities are gone through in an order of its own, and without those that `verify_authority`
falls back to; what is left out of the keys found is tried with `verify_authority`.
-/

namespace WeNode.Chain

open WeNode.Lib

/-- `get_signature_keys`, of the keys that the signatures recover to -/
def getSignatureKeys (signers : List PublicKey) : Result (List PublicKey) :=
  if signers.Nodup then .ok signers else .error .duplicateSig

/- A check made for the keys it uses. -/
def goThrough (check : SignState → Result (Bool × SignState)) (s : SignState) : Result SignState := do
  let (_, s) ← check s
  return s

/- `remove_unused_signatures`, and of the rest those that are available, in the order of a `set` -/
def SignState.requiredKeys (s : SignState) : List PublicKey :=
  flatSet (s.signatures.filter fun k => k ∈ s.used ∧ k ∈ s.availableKeys)

/-- `get_required_signatures` -/
def getRequiredSignatures (r : Required) (signers availableKeys : List PublicKey)
    (getActive getOwner getPosting : AuthorityGetter)
    (maxRecursionDepth : Nat := maxSigCheckDepth) : Result (List PublicKey) := do
  if r.posting ≠ [] then
    let signatures ← getSignatureKeys signers
    require (r.owner = []) "!required_owner.size()"
    require (r.active = []) "!required_active.size()"
    let s ← (flatSet r.posting).foldlM (fun s posting =>
      goThrough (checkAccountAuthority getPosting maxRecursionDepth posting) s)
      { signatures, availableKeys }
    return s.requiredKeys
  else
    let signatures ← getSignatureKeys signers
    let s ← r.other.foldlM (fun s auth =>
      goThrough (checkAuthority getActive maxRecursionDepth auth) s) { signatures, availableKeys }
    let s ← (flatSet r.owner).foldlM (fun s owner => do
      goThrough (checkAuthority getActive maxRecursionDepth (← getOwner owner)) s) s
    let s ← (flatSet r.active).foldlM (fun s active =>
      goThrough (checkAccountAuthority getActive maxRecursionDepth active) s) s
    return s.requiredKeys

/- The exceptions that `minimize_required_signatures` catches. -/
def Exception.isMissingAuth : Exception → Bool
  | .missingOwnerAuth | .missingActiveAuth | .missingPostingAuth | .missingOtherAuth => true
  | _ => false

/- The loop of `minimize_required_signatures`: a key stays erased when the others suffice, and is
inserted again when an authority is missing. -/
def minimizeLoop (verify : List PublicKey → Result Unit) :
    List PublicKey → List PublicKey → Result (List PublicKey)
  | [], result => .ok result
  | k :: rest, result =>
    match verify (result.erase k) with
    | .ok () => minimizeLoop verify rest (result.erase k)
    | .error e => if e.isMissingAuth then minimizeLoop verify rest result else .error e

/-- `minimize_required_signatures` -/
def minimizeRequiredSignatures (r : Required) (signers availableKeys : List PublicKey)
    (getActive getOwner getPosting : AuthorityGetter) (maxRecursion : Nat := maxSigCheckDepth) :
    Result (List PublicKey) := do
  let s ← getRequiredSignatures r signers availableKeys getActive getOwner getPosting maxRecursion
  minimizeLoop (fun result => verifyAuthority r result getActive getOwner getPosting maxRecursion) s s

/- Where nothing but missing authorities is thrown, the loop tries each key in turn. -/
theorem minimizeLoop_eq_prune {verify : List PublicKey → Result Unit} {s result : List PublicKey}
    (h : ∀ l : List PublicKey, l.Sublist result →
      verify l = .ok () ∨ ∃ e, verify l = .error e ∧ e.isMissingAuth = true) :
    minimizeLoop verify s result = .ok (prune (fun l => verify l = .ok ()) s result) := by
  induction s generalizing result with
  | nil => rfl
  | cons k rest ih =>
    rw [minimizeLoop, prune]
    rcases h _ (List.erase_sublist (a := k)) with hok | ⟨e, herror, hmissing⟩
    · rw [hok, if_pos (by simp)]
      exact ih fun l hl => h l (hl.trans List.erase_sublist)
    · rw [herror, if_neg (by simp)]
      simp only [hmissing, if_true]
      exact ih h

end WeNode.Chain
