import Wrenn.Host.Continuity
import Wrenn.Preload.Gate
import Wrenn.Preload.Status
import Wrenn.Sandbox.RestoreSlots
import Wrenn.Sandbox.ZeroPages
import Wrenn.Sandbox.TemplateFiles
import Wrenn.Sandbox.Launch
import Wrenn.Sandbox.Debounce
import Wrenn.Object.Punch
import Wrenn.Create.Handshake
import Wrenn.Object.Templates
import Wrenn.ControlPlane.Finality
import Wrenn.ControlPlane.Stale
import Wrenn.ControlPlane.Agreement
import Wrenn.Volumes.Pinning
import Wrenn.Volumes.Reservation
import Wrenn.Fleet.TeamDeletion
import Wrenn.Fleet.HostDeletion
import Wrenn.Fleet.Scheduler
import Wrenn.Events.Consumers
import Wrenn.Events.Relay
import Wrenn.Builds.Finality
import Wrenn.Sessions.Revocation
import Wrenn.Sessions.Expiry
import Wrenn.Sessions.Removal
import Wrenn.Credentials.Agent
import Wrenn.Processes.Exec
import Wrenn.Processes.PtyInput
import Wrenn.Processes.Coalesce
import Wrenn.Processes.Registry
import Wrenn.Ports.Forwarding
import Wrenn.PostInit.Ordering
import Wrenn.Proxy.Drain
import Wrenn.Proxy.ForceClose
import Wrenn.Proxy.Hops
import Wrenn.Builds.Order
import Wrenn.Files.Signing
import Wrenn.Channels.DialGuard
import Wrenn.Audit.Pages
import Wrenn.Usage.Rollup
import Wrenn.Accounts.Admins
import Wrenn.Accounts.Logins
import Wrenn.Accounts.Owners
import Wrenn.Accounts.Search
import Wrenn.Teams.Slugs
import Wrenn.Ids.Base36
import Wrenn.Builds.SandboxEnv
import Wrenn.Builds.Healthcheck
import Wrenn.Preload.Walk
import Wrenn.Recipe.Expand
import Wrenn.Sandbox.ImageSizes
