import Patchli.Agent.Fallback
import Patchli.Agent.Identity
import Patchli.Agent.Recovery
import Patchli.Agent.Rotation
import Patchli.Agent.TokenFile
import Patchli.Api.Enrollment
import Patchli.Api.Grants
import Patchli.Api.Reuse
import Patchli.Api.TokenPurpose
import Patchli.Db.AuditLogs
import Patchli.Fleet.Details
import Patchli.Fleet.Pruning
import Patchli.Orchestration.Channels
import Patchli.Orchestration.Deployment
import Patchli.Orchestration.Notifications
import Patchli.Orchestration.Progress
import Patchli.Setup.Handler
import Patchli.Updater.Rpm
import Patchli.Updater.SelfDestruct
import Patchli.Watchdog.Run
import Patchli.Websocket.Heartbeats
import Patchli.Websocket.Replacement
import Patchli.Websocket.Stats
import Patchli.Websocket.Status
