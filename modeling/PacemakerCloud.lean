import PacemakerCloud.RecoverWindow
import PacemakerCloud.RecoverThresholds
import PacemakerCloud.RecoverSingle
import PacemakerCloud.Daemon.Recovery
import PacemakerCloud.Daemon.Completion
import PacemakerCloud.Daemon.Refcount
import PacemakerCloud.Daemon.Monitor
import PacemakerCloud.Daemon.Lookup
import PacemakerCloud.Daemon.Instances
import PacemakerCloud.Daemon.Status
import PacemakerCloud.Daemon.Processing
import PacemakerCloud.Daemon.Serial
import PacemakerCloud.Daemon.Disconnect
import PacemakerCloud.Daemon.LastWrite
import PacemakerCloud.Daemon.Digests
import PacemakerCloud.Daemon.TransitionKey
import PacemakerCloud.Daemon.OcfCommand
import PacemakerCloud.Daemon.Handshake
import PacemakerCloud.Daemon.Lifecycle
import PacemakerCloud.Daemon.Blocked
import PacemakerCloud.Daemon.Drain
import PacemakerCloud.Daemon.Survival
import PacemakerCloud.Daemon.Isolation
import PacemakerCloud.Daemon.Document
import PacemakerCloud.Capeadmin
import PacemakerCloud.Openstackv1
import PacemakerCloud.CpeHttpd
import PacemakerCloud.CpeAgentRegister
import PacemakerCloud.CpeAgent
import PacemakerCloud.Qmf.Agents
import PacemakerCloud.Qmf.Answers
import PacemakerCloud.Matahari.Heartbeat
import PacemakerCloud.Cim.Daemon
import PacemakerCloud.Config.Agreement
import PacemakerCloud.Config.Names
import PacemakerCloud.Config.KeyFields
import PacemakerCloud.Config.Ids
import PacemakerCloud.Config.References
import PacemakerCloud.Config.Shell
import PacemakerCloud.Pcloudsh.Cache
import PacemakerCloud.Pcloudsh.Membership
import PacemakerCloud.Pcloudsh.Failures
import PacemakerCloud.Pcloudsh.Placement
