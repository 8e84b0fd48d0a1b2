import RemoteHub.Browser.Proof.Proxy
import RemoteHub.Browser.Proof.Session
import RemoteHub.Connector.Proof.Access
import RemoteHub.Connector.Proof.Agent
import RemoteHub.Connector.Proof.Grants
import RemoteHub.Connector.Proof.Networks
import RemoteHub.Connector.Proof.Requests
import RemoteHub.Connector.Proof.SignIns
import RemoteHub.Connector.Proof.Streams
import RemoteHub.Connector.Proof.Targets
import RemoteHub.Connector.Proof.Texts
import RemoteHub.Connector.Proof.Writers
import RemoteHub.Directory.Proof.Laps
import RemoteHub.Directory.Proof.Refresh
import RemoteHub.Directory.Proof.Sid
import RemoteHub.Gateway.Guacamole
import RemoteHub.Gateway.Proof.Exact
import RemoteHub.Gateway.Proof.Framing
import RemoteHub.Gateway.Proof.Limits
import RemoteHub.Gateway.Proof.Scan
import RemoteHub.Lib.Acceptance
import RemoteHub.Lib.Admission
import RemoteHub.Lib.Answer
import RemoteHub.Lib.Chain
import RemoteHub.Lib.Digits
import RemoteHub.Lib.Framing
import RemoteHub.Lib.HashChain
import RemoteHub.Lib.HashMap
import RemoteHub.Lib.Interleave
import RemoteHub.Lib.JsonText
import RemoteHub.Lib.Run
import RemoteHub.Lib.Sampling
import RemoteHub.Model.Catalog
import RemoteHub.Model.Proof.EffectiveRole
import RemoteHub.Model.Proof.TwoRuns
import RemoteHub.Model.Proof.Visible
import RemoteHub.Server.AccessRequests
import RemoteHub.Server.Audit
import RemoteHub.Server.Codes
import RemoteHub.Server.Confirmations
import RemoteHub.Server.Credentials
import RemoteHub.Server.Db
import RemoteHub.Server.Devices
import RemoteHub.Server.Load
import RemoteHub.Server.Moves
import RemoteHub.Server.OwnSecrets
import RemoteHub.Server.Pinning
import RemoteHub.Server.Problem
import RemoteHub.Server.Profiles
import RemoteHub.Server.Proof.AccessRequests
import RemoteHub.Server.Proof.Audit
import RemoteHub.Server.Proof.BreakGlass
import RemoteHub.Server.Proof.Caddy
import RemoteHub.Server.Proof.Codes
import RemoteHub.Server.Proof.Confirmations
import RemoteHub.Server.Proof.Connections
import RemoteHub.Server.Proof.Cose
import RemoteHub.Server.Proof.Credentials
import RemoteHub.Server.Proof.CustomerAnswers
import RemoteHub.Server.Proof.Ends
import RemoteHub.Server.Proof.Entries
import RemoteHub.Server.Proof.Extension
import RemoteHub.Server.Proof.Grants
import RemoteHub.Server.Proof.Hub
import RemoteHub.Server.Proof.Idle
import RemoteHub.Server.Proof.Load
import RemoteHub.Server.Proof.Moves
import RemoteHub.Server.Proof.OwnSecrets
import RemoteHub.Server.Proof.Pinning
import RemoteHub.Server.Proof.Proxy
import RemoteHub.Server.Proof.Queries
import RemoteHub.Server.Proof.Reach
import RemoteHub.Server.Proof.Recovery
import RemoteHub.Server.Proof.Refresh
import RemoteHub.Server.Proof.Relay
import RemoteHub.Server.Proof.Reports
import RemoteHub.Server.Proof.Requests
import RemoteHub.Server.Proof.Retarget
import RemoteHub.Server.Proof.Roles
import RemoteHub.Server.Proof.SecurityKeys
import RemoteHub.Server.Proof.Sessions
import RemoteHub.Server.Proof.SignInLimiter
import RemoteHub.Server.Proof.Updates
import RemoteHub.Server.Proof.Versions
import RemoteHub.Server.Proof.Windows
import RemoteHub.Server.Relay
import RemoteHub.Server.Roles
import RemoteHub.Server.SecurityKeys
import RemoteHub.Totp.Params
import RemoteHub.Totp.Proof.Codes
import RemoteHub.Vault.Keyring
import RemoteHub.Vault.Proof.Binding
import RemoteHub.Vault.Proof.Printed
import RemoteHub.Vault.Proof.Rotation
import RemoteHub.Vault.Seal
import RemoteHub.Web.Proof.Counts
import RemoteHub.Web.Proof.Entries
import RemoteHub.Web.Proof.Generate
import RemoteHub.Web.Proof.History
import RemoteHub.Web.Proof.Import
import RemoteHub.Web.Proof.Outline
import RemoteHub.Web.Proof.Site
import RemoteHub.Web.Proof.Secrecy
import RemoteHub.Web.Proof.Served
import RemoteHub.Web.Proof.Takes
import RemoteHub.Web.Proof.Links
import RemoteHub.Web.Proof.Totp
