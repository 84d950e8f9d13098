import CollabEditor.Server.AccessControl
import CollabEditor.Server.DocumentSession

/-!
# `Server.Requests` — what `MessageHandler` decides about a request

The checks and the effects of `handle_operation` and `handle_doc_share`, as functions of what the handler
reads: the session's current document, the requester's rights, whether the document has a session. The
order of the checks is the order of the source.
-/

namespace CollabEditor

variable {α σ : Type}

/-- The refusals of `MessageHandler::handle_operation`. -/
def operationRefusal (currentDocId : UInt32) (canEdit active : Bool) (msg : OperationMsg α) :
    Option ErrorMsg :=
  if currentDocId ≠ msg.docId then
    some { code := "not_in_document", message := "Not in this document" }
  else if ¬ canEdit then
    some { code := "access_denied", message := "No edit permission" }
  else if 1000 < msg.ops.length then
    some { code := "invalid_message", message := "Too many operations (max 1000)" }
  else if ¬ active then
    some { code := "doc_not_found", message := "Document not active" }
  else none

/-- The commands that `MessageHandler::handle_operation` enqueues, one for each entry. -/
def operationCommands (userId : UInt32) (username : String) (msg : OperationMsg α) :
    List (DocCommand α σ) :=
  msg.ops.map fun entry =>
    { type := .operation, operation := fromEntry entry userId msg.revision, userId := userId,
      username := username }

/-- The refusals of `handle_doc_share`; a role string is looked at only after the target. -/
def shareRefusal (canShare : Bool) (target : Option UInt32) (userId : UInt32) (role : String) :
    Option ErrorMsg :=
  if ¬ canShare then
    some { code := "access_denied", message := "Only owner can manage access" }
  else match target with
    | none => some { code := "user_not_found", message := "Target user not found" }
    | some targetId =>
        if targetId = userId then
          some { code := "cannot_modify_own_role", message := "Cannot modify own role" }
        else if role = "none" ∨ role = "editor" ∨ role = "viewer" then none
        else some { code := "invalid_message", message := "Invalid role" }

/-- The change of rights that `handle_doc_share` makes for a valid role string. -/
def AccessControl.setRole (a : AccessControl) (docId targetId : UInt32) (role : String) : AccessControl :=
  if role = "none" then a.revoke docId targetId
  else if role = "editor" then a.grant docId targetId .editor
  else a.grant docId targetId .viewer

/-- The right that a valid role string stands for. -/
def sharedRole (role : String) : Option Role :=
  if role = "none" then none else if role = "editor" then some .editor else some .viewer

/-- Nobody becomes an owner by sharing. -/
theorem sharedRole_ne_owner (role : String) : sharedRole role ≠ some .owner := by
  unfold sharedRole
  split_ifs
  · exact nofun
  · exact nofun
  · exact nofun

theorem AccessControl.getRole_setRole (a : AccessControl) (d d' u u' : UInt32) (role : String) :
    (a.setRole d u role).getRole d' u' =
      if d' = d ∧ u' = u then sharedRole role else a.getRole d' u' := by
  unfold setRole sharedRole
  split_ifs with hnone hkey heditor
  · rw [getRole_revoke, if_pos hkey]
  · rw [getRole_revoke, if_neg hkey]
  · rw [getRole_grant, if_pos ‹_›]
  · rw [getRole_grant, if_neg ‹_›]
  · rw [getRole_grant, if_pos ‹_›]
  · rw [getRole_grant, if_neg ‹_›]

end CollabEditor
