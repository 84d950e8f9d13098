import Mathlib.Data.List.AList

/-!
# `Server.AuthManager` — accounts

`collab::AuthManager`. The hash function and the random salts come from outside the program: they are
parameters here.
-/

namespace CollabEditor

/-- `collab::AuthResult`. -/
structure AuthResult where
  success : Bool
  userId  : UInt32 := 0
  error   : String := ""
  deriving DecidableEq, Repr

/-- `AuthManager::UserRecord`. -/
structure UserRecord where
  id           : UInt32
  username     : String
  passwordHash : String
  salt         : String
  deriving DecidableEq, Repr

/-- `collab::AuthManager`. -/
structure AuthManager where
  users  : AList (fun _ : String => UserRecord) := ∅
  nextId : UInt32 := 1

namespace AuthManager

/-- `hash_password`. -/
def hashPassword (sha256Hex : String → String) (password salt : String) : String :=
  sha256Hex (salt ++ password)

/-- `register_user`; `salt` is what `generate_salt` returns. -/
def registerUser (a : AuthManager) (sha256Hex : String → String) (salt username password : String) :
    AuthManager × AuthResult :=
  if username = "" then (a, { success := false, error := "empty_username" })
  else if password = "" then (a, { success := false, error := "empty_password" })
  else match a.users.lookup username with
    | some _ => (a, { success := false, error := "duplicate_username" })
    | none   =>
        let record : UserRecord :=
          { id := a.nextId, username := username, passwordHash := hashPassword sha256Hex password salt,
            salt := salt }
        ({ users := a.users.insert username record, nextId := a.nextId + 1 },
          { success := true, userId := a.nextId })

/-- `login`. -/
def login (a : AuthManager) (sha256Hex : String → String) (username password : String) : AuthResult :=
  match a.users.lookup username with
  | none        => { success := false, error := "invalid_credentials" }
  | some record =>
      if hashPassword sha256Hex password record.salt = record.passwordHash then
        { success := true, userId := record.id }
      else { success := false, error := "invalid_credentials" }

/-- `find_user_id`. -/
def findUserId (a : AuthManager) (username : String) : Option UInt32 :=
  (a.users.lookup username).map UserRecord.id

/-- A refused registration leaves the accounts alone. -/
theorem registerUser_refused {a : AuthManager} {sha256Hex : String → String}
    {salt username password : String}
    (h : (a.registerUser sha256Hex salt username password).2.success = false) :
    (a.registerUser sha256Hex salt username password).1 = a := by
  unfold registerUser at h ⊢
  split_ifs at h ⊢ with hname hpassword
  · rfl
  · rfl
  · cases hl : a.users.lookup username with
    | some record => rfl
    | none => rw [hl] at h; cases h

/-- A registration that succeeds gives the next id. -/
theorem registerUser_success {a : AuthManager} {sha256Hex : String → String}
    {salt username password : String}
    (h : (a.registerUser sha256Hex salt username password).2.success = true) :
    (a.registerUser sha256Hex salt username password).2 = { success := true, userId := a.nextId } := by
  unfold registerUser at h ⊢
  by_cases hname : username = ""
  · rw [if_pos hname] at h
    cases h
  by_cases hpassword : password = ""
  · rw [if_neg hname, if_pos hpassword] at h
    cases h
  rw [if_neg hname, if_neg hpassword] at h ⊢
  cases hl : a.users.lookup username with
  | some record => rw [hl] at h; cases h
  | none => rfl

theorem login_success {a : AuthManager} {sha256Hex : String → String} {username password : String}
    (h : (a.login sha256Hex username password).success = true) :
    ∃ userId, a.login sha256Hex username password = { success := true, userId := userId } := by
  unfold login at h ⊢
  cases hl : a.users.lookup username with
  | none => rw [hl] at h; cases h
  | some record =>
      rw [hl] at h
      dsimp only at h ⊢
      by_cases hhash : hashPassword sha256Hex password record.salt = record.passwordHash
      · exact ⟨record.id, if_pos hhash⟩
      · rw [if_neg hhash] at h
        cases h

end AuthManager

end CollabEditor
