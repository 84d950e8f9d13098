import CollabEditor.Lib.Machine
import CollabEditor.Lib.Progress
import CollabEditor.Lib.Atomic
import CollabEditor.Lib.Prog
import CollabEditor.Lib.Schedules
import CollabEditor.Lib.Utf8
import CollabEditor.Lib.Framing
import CollabEditor.Lib.Word
import CollabEditor.Lib.Edit
import CollabEditor.Lib.EditCuts
import CollabEditor.Lib.EditFollow
import CollabEditor.Lib.EditOrders
import CollabEditor.Lib.Diamond
import CollabEditor.Lib.Star
import CollabEditor.Core.Operation
import CollabEditor.Core.Transform
import CollabEditor.Core.TransformSpec
import CollabEditor.Core.Document
import CollabEditor.Core.Window
import CollabEditor.Core.CodePoints
import CollabEditor.Core.Closure
import CollabEditor.Core.DeletedRange
import CollabEditor.Core.ServerOrder
import CollabEditor.Core.ThreadPool
import CollabEditor.Core.TokenBucket
import CollabEditor.Core.HazardSlots
import CollabEditor.Core.MPSCInvariant
import CollabEditor.Core.MPSCQueue
import CollabEditor.Core.MPSCRuns
import CollabEditor.Core.MPSCAtomic
import CollabEditor.Core.MPSCMemory
import CollabEditor.Protocol.Messages
import CollabEditor.Protocol.Wire
import CollabEditor.Protocol.Json
import CollabEditor.Protocol.Codec
import CollabEditor.Protocol.Dump
import CollabEditor.Protocol.Frame
import CollabEditor.Client.OTController
import CollabEditor.Client.Broadcast
import CollabEditor.Client.DocumentListWindow
import CollabEditor.Client.EditorWidget
import CollabEditor.Client.CursorTranslator
import CollabEditor.Client.Dispatch
import CollabEditor.Client.EditorWindow
import CollabEditor.Client.NetworkManager
import CollabEditor.Server.DocumentSession
import CollabEditor.Server.Notification
import CollabEditor.Server.AccessControl
import CollabEditor.Server.Admission
import CollabEditor.Server.AuthManager
import CollabEditor.Server.DocumentManager
import CollabEditor.Server.Calls
import CollabEditor.Server.Requests
import CollabEditor.Server.MessageHandler
import CollabEditor.Server.Batches
import CollabEditor.Server.Saving
import CollabEditor.Server.Publishing
import CollabEditor.Server.Shutdown
import CollabEditor.Server.Snapshots
import CollabEditor.Server.Joinable
import CollabEditor.Server.Joining
import CollabEditor.Server.Informed
import CollabEditor.Server.Handling
import CollabEditor.Server.Running
import CollabEditor.Server.Refusal
import CollabEditor.Server.Rooms
import CollabEditor.Server.Deletion
import CollabEditor.Server.Departure
import CollabEditor.Server.Cursors
import CollabEditor.Server.Ownership
import CollabEditor.Server.Discipline
import CollabEditor.Server.Sending
import CollabEditor.Server.Revocation
import CollabEditor.Server.Provenance
import CollabEditor.Server.Workers
import CollabEditor.Server.Completion
import CollabEditor.Server.WriteQueue
import CollabEditor.Server.Ordering
import CollabEditor.Server.Orphans
import CollabEditor.Server.Reloading
import CollabEditor.Server.Restarts
import CollabEditor.Server.ClientSession
import CollabEditor.System.Collaboration
import CollabEditor.System.Mirror
import CollabEditor.System.Refinement
import CollabEditor.System.Acknowledgement
import CollabEditor.System.Convergence
import CollabEditor.System.Settled
import CollabEditor.System.Streams
import CollabEditor.System.Transport
import CollabEditor.System.AsyncLogger
import CollabEditor.System.Joins
import CollabEditor.System.Wholeness
import CollabEditor.System.Screens
import CollabEditor.System.Quiescence
import CollabEditor.System.Openings
