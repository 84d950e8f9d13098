import Mathlib.Algebra.Group.Nat.Defs
import Mathlib.Data.List.AList

/-!
# `Server.AccessControl` — who may do what with a document

`AccessControl`: one table of rights, keyed by the 64-bit word that packs a document id and a user id. Each
method holds the table's lock for its whole body, so it is one atomic step. All that callers see of the
table is `getRole`; the section at the end says what each change does to it.
-/

namespace CollabEditor

/-- `collab::Role`. -/
inductive Role where
  | owner
  | editor
  | viewer
  deriving DecidableEq, Repr

/-- `collab::AccessControl`. -/
structure AccessControl where
  rights : AList (fun _ : UInt64 => Role) := ∅

namespace AccessControl

/-- `make_key`. -/
def makeKey (docId userId : UInt32) : UInt64 := (docId.toUInt64 <<< 32) ||| userId.toUInt64

/-- `get_role`. -/
def getRole (a : AccessControl) (docId userId : UInt32) : Option Role :=
  a.rights.lookup (makeKey docId userId)

/-- `grant`. -/
def grant (a : AccessControl) (docId userId : UInt32) (role : Role) : AccessControl :=
  { rights := a.rights.insert (makeKey docId userId) role }

/-- `revoke`. -/
def revoke (a : AccessControl) (docId userId : UInt32) : AccessControl :=
  { rights := a.rights.erase (makeKey docId userId) }

/-- The document id in a key. -/
def keyDocId (key : UInt64) : UInt32 := (key >>> 32).toUInt32

/-- `revoke_all_for_document`. -/
def revokeAllForDocument (a : AccessControl) (docId : UInt32) : AccessControl :=
  { rights := ⟨a.rights.entries.filter fun e => keyDocId e.1 ≠ docId,
      a.rights.nodupKeys.sublist List.filter_sublist⟩ }

/-- `can_read`. -/
def canRead (a : AccessControl) (docId userId : UInt32) : Bool := (a.getRole docId userId).isSome

/-- `can_edit`. -/
def canEdit (a : AccessControl) (docId userId : UInt32) : Bool :=
  a.getRole docId userId == some .owner || a.getRole docId userId == some .editor

/-- `can_share`. -/
def canShare (a : AccessControl) (docId userId : UInt32) : Bool := a.getRole docId userId == some .owner

/-- `can_delete`. -/
def canDelete (a : AccessControl) (docId userId : UInt32) : Bool := a.getRole docId userId == some .owner

/-- `list_documents_for_user`. -/
def listDocumentsForUser (a : AccessControl) (userId : UInt32) : List UInt32 :=
  a.rights.entries.filterMap fun e => if e.1.toUInt32 = userId then some (keyDocId e.1) else none

/-! ## The packed keys -/

theorem toNat_makeKey (docId userId : UInt32) :
    (makeKey docId userId).toNat = docId.toNat * 2 ^ 32 + userId.toNat := by
  have hd := docId.toNat_lt
  have hu := userId.toNat_lt
  unfold makeKey
  rw [UInt64.toNat_or, UInt64.toNat_shiftLeft]
  simp only [UInt32.toNat_toUInt64]
  rw [show ((32 : UInt64).toNat % 64) = 32 by rfl, Nat.mod_eq_of_lt (by rw [Nat.shiftLeft_eq]; omega),
    ← Nat.shiftLeft_add_eq_or_of_lt hu, Nat.shiftLeft_eq]

@[simp] theorem keyDocId_makeKey (docId userId : UInt32) : keyDocId (makeKey docId userId) = docId := by
  apply UInt32.toNat_inj.mp
  have hd := docId.toNat_lt
  have hu := userId.toNat_lt
  unfold keyDocId
  rw [UInt64.toNat_toUInt32, UInt64.toNat_shiftRight, toNat_makeKey,
    show ((32 : UInt64).toNat % 64) = 32 by rfl, Nat.shiftRight_eq_div_pow]
  omega

@[simp] theorem userId_makeKey (docId userId : UInt32) : (makeKey docId userId).toUInt32 = userId := by
  apply UInt32.toNat_inj.mp
  have hu := userId.toNat_lt
  rw [UInt64.toNat_toUInt32, toNat_makeKey]
  omega

/-- **Different pairs have different keys.** -/
theorem makeKey_inj {d d' u u' : UInt32} : makeKey d u = makeKey d' u' ↔ d = d' ∧ u = u' := by
  constructor
  · intro h
    have hd := congrArg keyDocId h
    have hu := congrArg UInt64.toUInt32 h
    rw [keyDocId_makeKey, keyDocId_makeKey] at hd
    rw [userId_makeKey, userId_makeKey] at hu
    exact ⟨hd, hu⟩
  · rintro ⟨rfl, rfl⟩
    rfl

/-- Every key is that of a document and a user. -/
theorem makeKey_parts (key : UInt64) : makeKey (keyDocId key) key.toUInt32 = key := by
  apply UInt64.toNat_inj.mp
  have hkey := key.toNat_lt
  rw [toNat_makeKey]
  unfold keyDocId
  rw [UInt64.toNat_toUInt32, UInt64.toNat_toUInt32, UInt64.toNat_shiftRight,
    show ((32 : UInt64).toNat % 64) = 32 by rfl, Nat.shiftRight_eq_div_pow]
  omega

/-- The documents of a user's list are those that the user has a right on. -/
theorem canRead_of_listed {a : AccessControl} {d u : UInt32} (h : d ∈ a.listDocumentsForUser u) :
    a.canRead d u = true := by
  unfold listDocumentsForUser at h
  obtain ⟨e, he, hd⟩ := List.mem_filterMap.mp h
  split_ifs at hd with hu
  cases hd
  unfold canRead getRole
  rw [← hu, makeKey_parts]
  exact Option.isSome_iff_exists.mpr ⟨e.2, AList.mem_lookup_iff.mpr he⟩

/-! ## What each change does to the roles -/

section Roles

variable (a : AccessControl) (d d' u u' : UInt32)

theorem getRole_grant (role : Role) :
    (a.grant d u role).getRole d' u' = if d' = d ∧ u' = u then some role else a.getRole d' u' := by
  unfold getRole grant
  by_cases h : d' = d ∧ u' = u
  · obtain ⟨rfl, rfl⟩ := h
    rw [if_pos ⟨rfl, rfl⟩, AList.lookup_insert]
  · rw [if_neg h, AList.lookup_insert_ne fun hkey => h (makeKey_inj.mp hkey)]

theorem getRole_revoke :
    (a.revoke d u).getRole d' u' = if d' = d ∧ u' = u then none else a.getRole d' u' := by
  unfold getRole revoke
  by_cases h : d' = d ∧ u' = u
  · obtain ⟨rfl, rfl⟩ := h
    rw [if_pos ⟨rfl, rfl⟩, AList.lookup_erase]
  · rw [if_neg h, AList.lookup_erase_ne fun hkey => h (makeKey_inj.mp hkey)]

theorem getRole_revokeAllForDocument :
    (a.revokeAllForDocument d).getRole d' u' = if d' = d then none else a.getRole d' u' := by
  unfold getRole revokeAllForDocument
  apply Option.ext
  intro role
  rw [← Option.mem_def, AList.mem_lookup_iff, List.mem_filter]
  by_cases h : d' = d
  · simp [h]
  · rw [if_neg h, ← Option.mem_def, AList.mem_lookup_iff]
    simp [h]

end Roles

end AccessControl

end CollabEditor
