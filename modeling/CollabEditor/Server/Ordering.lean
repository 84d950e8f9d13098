import CollabEditor.Server.Rooms
import CollabEditor.Server.Workers

/-!
# `Server.Ordering` — the order in which messages take effect

The tasks of one connection are started in the order in which its messages came, and then run side by side.
Messages take effect in their order if no task is started before the others have ended, and always on a pool
of one worker.

## Contents
- **The result.** `effects_in_order`.
- **Overlap.** `overlappingRun`, a Join that ends after the Leave behind it.
-/

namespace CollabEditor

namespace Workers

open Server

/-- **Messages take effect in the order in which they were received** if each task is started while no other
    one runs, and always if the pool has one worker: at the end the server is as after handling the messages
    one after another. -/
theorem effects_in_order {s s' : Workers} {es : List (Pool.Event Job)} (hidle : s.Idle)
    (hr : Machine.run step s es = some s') (hend : s'.Idle)
    (halone : s.size = 1 ∨ Machine.Along step Pool.StartsAlone s es) :
    s'.world = (Pool.jobs es).foldl (fun t job => t.handle job.1 job.2) s.world := by
  have hstarts : Machine.Along step Pool.StartsAlone s es :=
    halone.elim (fun hsize => Pool.along_single hsize hr) id
  exact Pool.alone_outcome hidle hr hstarts hend

/-- An account and a document. -/
def joinedSetup : List (Pool.Event Job) :=
  Pool.alone 0 (1, some (AuthRequestMsg.toJson { action := "register", username := "a", password := "p" })) 4 ++
    Pool.alone 0 (1, some (docCreateRequest "t")) 8

/-- The requests to join the document and to leave it. -/
def joinJob : Job := (1, some (docIdRequest "doc_join_request" 1))

def leaveJob : Job := (1, some (docIdRequest "doc_leave_request" 1))

/-- One worker executes both. -/
def orderedRun : List (Pool.Event Job) :=
  joinedSetup ++ Pool.alone 0 joinJob 17 ++ Pool.alone 0 leaveJob 7

theorem orderedRun_effects :
    ∃ s, Machine.run step (start plainEnvironment {} [1] 1) orderedRun = some s ∧ s.Idle ∧
      s.world = (Pool.jobs orderedRun).foldl (fun t job => t.handle job.1 job.2)
        (start plainEnvironment {} [1] 1).world := by
  have hrun : (Machine.run step (start plainEnvironment {} [1] 1) orderedRun).isSome := by decide +kernel
  have hidle := idle_of_size (Option.some_get hrun).symm (by decide +kernel +revert)
  have htasks : ((Machine.run step (start plainEnvironment {} [1] 1) orderedRun).get hrun).tasks.isEmpty := by
    clear hidle
    decide +kernel +revert
  have hend : ((Machine.run step (start plainEnvironment {} [1] 1) orderedRun).get hrun).Idle :=
    ⟨List.isEmpty_iff.mp htasks, hidle⟩
  exact ⟨_, (Option.some_get hrun).symm, hend,
    effects_in_order ⟨rfl, fun _ => rfl⟩ (Option.some_get hrun).symm hend (.inl rfl)⟩

/-- Another worker executes the Leave while the Join is about to set the current document. -/
def overlappingRun : List (Pool.Event Job) :=
  joinedSetup ++ [.submit joinJob, .submit leaveJob, .start 0, .start 1] ++ List.replicate 10 (.call 0) ++
    List.replicate 7 (.call 1) ++ [.finish 1] ++ List.replicate 7 (.call 0) ++ [.finish 0]

/-- The commands on a document's queue, with the current document of session 1. -/
def joinAndLeave (s : Server) : UInt32 × List CommandType :=
  ((s.clients 1).currentDocId, (s.sessionOf 0).commandQueue.map DocCommand.type)

/-- **Overlapping tasks change places**: all the messages are session 1's, the Join came before the Leave, and
    in the end the Join counts. -/
theorem overlapping_disorder :
    ∃ s, Machine.run step (start plainEnvironment {} [1] 2) overlappingRun = some s ∧ s.Idle ∧
      (Pool.jobs overlappingRun).map Prod.fst = [1, 1, 1, 1] ∧ joinAndLeave s.world = (1, [.leave, .join]) ∧
      joinAndLeave ((Pool.jobs overlappingRun).foldl (fun t job => t.handle job.1 job.2)
        (start plainEnvironment {} [1] 2).world) = (0, [.join, .leave]) := by
  have hrun : (Machine.run step (start plainEnvironment {} [1] 2) overlappingRun).isSome := by decide +kernel
  have hidle := idle_of_size (Option.some_get hrun).symm (by decide +kernel +revert)
  have htasks : ((Machine.run step (start plainEnvironment {} [1] 2) overlappingRun).get hrun).tasks.isEmpty := by
    clear hidle
    decide +kernel +revert
  refine ⟨_, (Option.some_get hrun).symm, ⟨List.isEmpty_iff.mp htasks, hidle⟩, rfl, ?_, ?_⟩
  all_goals
    clear htasks hidle
    decide +kernel +revert

end Workers

end CollabEditor
