import Wara.Interleave.Pool
import Wara.Store.Table
import Wara.Docker.Quoting
import Wara.Db
import Wara.Auth.LastAdmin
import Wara.Auth.AcceptInvite
import Wara.Auth.Tokens
import Wara.Auth.Credentials
import Wara.Auth.RefreshOnce
import Wara.Config
import Wara.Auth.Rotation
import Wara.Service.Rules
import Wara.Auth.Disabled
import Wara.Auth.Kinds
import Wara.Auth.Revocation
import Wara.Auth.Identity
import Wara.Auth.KeyStore
import Wara.Auth.Users
import Wara.Service.Quiet
import Wara.Service.Loops
import Wara.Auth.Sequential
import Wara.Auth.DeadEnd
import Wara.Auth.AdminGuards
import Wara.Cipher.Repeating
import Wara.Rust.Utf8
import Wara.Crypto
import Wara.Api.Routes
import Wara.Store.References
import Wara.Platform.Coherent
import Wara.Platform.Linked
import Wara.Api.Jobs
import Wara.Api.Composed
import Wara.Api.Coherence
import Wara.Api.Grants
import Wara.Api.Escalation
import Wara.Interleave.Lockstep
import Wara.Store.Alike
import Wara.Service.Twins
import Wara.Auth.Accounts
import Wara.Api.Compared
import Wara.Api.Secrecy
import Wara.Api.Tenants
import Wara.Api.Isolation
import Wara.Interleave.Solo
import Wara.Service.Solo
import Wara.Auth.Failures
import Wara.Store.Insert
import Wara.Platform.Templates
import Wara.Platform.EnvVars
import Wara.Docker.Resources
import Wara.Api.Deployable
import Wara.Proxy.Nginx
import Wara.Proxy.Yaml
import Wara.Api.ProxyConfig
import Wara.Platform.Transcript
import Wara.Auth.Startup
import Wara.Docker.Options
import Wara.Docker.Paths
import Wara.Api.Normalize
import Wara.Docker.Identifiers
import Wara.Platform.Listing
import Wara.Auth.Lifetimes
import Wara.Platform.Checks
import Wara.Platform.Sweep
import Wara.Api.Bounds
import Wara.Config.Settings
import Wara.Config.Honoured
import Wara.Api.Scopes
import Wara.Rust.Replacements
import Wara.Platform.Redaction
import Wara.Chrono.Calendar
import Wara.Chrono.Rfc3339
import Wara.Auth.Timestamps
import Wara.Api.Timestamps
import Wara.Interleave.Movers
import Wara.Platform.Movers
import Wara.Platform.AtOnce
import Wara.Api.Owned
import Wara.Api.AtOnce
import Wara.Api.Stored
import Wara.Api.Failsafe
import Wara.Api.History
import Wara.Api.Router
import Wara.Api.Honoured
import Wara.Api.Recorded
import Wara.Api.Rights
import Wara.Migrations
import Wara.Auth.Generated
