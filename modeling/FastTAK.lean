import FastTAK.Base.Effect
import FastTAK.Base.Text
import FastTAK.Base.Latin1
import FastTAK.Base.Ledger
import FastTAK.Base.SnapshotStore
import FastTAK.Base.Program
import FastTAK.Base.Pool
import FastTAK.Api.Exn
import FastTAK.Certs.Naming
import FastTAK.Certs.Pki
import FastTAK.Certs.Revocation
import FastTAK.Certs.RevocationSpec
import FastTAK.Certs.Ownership
import FastTAK.Certs.RetryConvergence
import FastTAK.Certs.Generation
import FastTAK.Proxy.Tokens
import FastTAK.Proxy.GroupHeader
import FastTAK.Proxy.TokenLifecycle
import FastTAK.Proxy.RateLimit
import FastTAK.Proxy.Bind
import FastTAK.Proxy.ConnAuth
import FastTAK.Proxy.Verify
import FastTAK.Identity.Attributes
import FastTAK.Identity.Lldap
import FastTAK.Identity.Client
import FastTAK.Identity.ClientSpec
import FastTAK.Identity.LostResponse
import FastTAK.Identity.Sequential
import FastTAK.Identity.LostUpdate
import FastTAK.Identity.Recreation
import FastTAK.Identity.UserTypes
import FastTAK.Identity.Grants
import FastTAK.Api.World
import FastTAK.Api.Users
import FastTAK.Api.ServiceAccounts
import FastTAK.Api.Sequential
import FastTAK.Api.TemporaryUsers
import FastTAK.Api.HiddenAccounts
import FastTAK.Api.ExistingNames
import FastTAK.Api.Deeds
import FastTAK.Api.Renewals
import FastTAK.Api.GroupRule
import FastTAK.Api.AdminRole
import FastTAK.Base.Keyed
import FastTAK.Base.Loop
import FastTAK.Base.Calendar
import FastTAK.Monitor.Alerts
import FastTAK.Monitor.AlertHistory
import FastTAK.Monitor.Evaluator
import FastTAK.Monitor.EvaluatorSpec
import FastTAK.Monitor.Probes
import FastTAK.Monitor.Poll
import FastTAK.Monitor.SilentOutage
import FastTAK.Monitor.ProbeErrors
import FastTAK.Base.Newest
import FastTAK.Base.Cleanup
import FastTAK.Base.Endings
import FastTAK.Backup.Names
import FastTAK.Backup.World
import FastTAK.Backup.State
import FastTAK.Backup.Retention
import FastTAK.Backup.Runner
import FastTAK.Backup.Requests
import FastTAK.Backup.Retained
import FastTAK.Backup.Refusals
import FastTAK.Backup.Deeds
import FastTAK.Backup.Guarantee
import FastTAK.Backup.Processes
import FastTAK.Backup.Exclusion
import FastTAK.Backup.StateUpdates
import FastTAK.Backup.ListedArchives
import FastTAK.Backup.Returns
import FastTAK.Backup.Story
import FastTAK.Backup.Listing
import FastTAK.Api.Validity
import FastTAK.Env.Secrets
import FastTAK.Env.Rewriters
import FastTAK.Api.GroupNames
import FastTAK.NodeRed.Js
import FastTAK.NodeRed.Noaa
import FastTAK.Base.Fields
import FastTAK.NodeRed.DroneSense
import FastTAK.NodeRed.Reconcile
import FastTAK.NodeRed.WantedStreams
import FastTAK.Base.PyJson
import FastTAK.Monitor.Audit
import FastTAK.Proxy.InFlight
import FastTAK.Proxy.TokenApi
import FastTAK.Proxy.IssuedTokens
import FastTAK.Certs.NameAgreement
import FastTAK.Monitor.CertCategories
import FastTAK.Base.Lowering
import FastTAK.Identity.HiddenPrefixes
import FastTAK.Identity.Searches
import FastTAK.Api.ServiceListing
import FastTAK.Base.OuterJoin
import FastTAK.Certs.Inventory
import FastTAK.Identity.Memberships
import FastTAK.Base.Independent
import FastTAK.Identity.Fates
import FastTAK.Identity.AttributeMerge
import FastTAK.Api.ExpiryTicks
import FastTAK.Api.ExpiryRefinement
import FastTAK.Api.ServiceDeletion
import FastTAK.Certs.TrueAnswers
import FastTAK.Api.Revocations
import FastTAK.Api.Enrollment
import FastTAK.Api.Cutoff
import FastTAK.Api.Overwrites
import FastTAK.Env.RoundTrip
import FastTAK.Backup.Pruned
import FastTAK.Monitor.ListEvaluation
import FastTAK.Monitor.Redaction
import FastTAK.Monitor.Overrides
import FastTAK.Monitor.Direction
import FastTAK.Monitor.TlsEndpoints
import FastTAK.Base.JsonErrors
import FastTAK.Backup.StateContent
import FastTAK.Backup.Versions
import FastTAK.Backup.Sidecars
import FastTAK.Base.Arrivals
import FastTAK.Api.Retries
import FastTAK.Certs.Reconfig
import FastTAK.Base.MarkedBlock
import FastTAK.Stack.Tuning
import FastTAK.Base.Substitute
import FastTAK.Stack.Sed
import FastTAK.Stack.CoreConfig
import FastTAK.Stack.Credentials
import FastTAK.Stack.Incidents
import FastTAK.NodeRed.GeoJson
import FastTAK.NodeRed.Batches
import FastTAK.NodeRed.Positions
import FastTAK.Base.Xml
import FastTAK.NodeRed.CotXml
import FastTAK.NodeRed.CotMessages
import FastTAK.Identity.Bootstrap
import FastTAK.Identity.Restarts
import FastTAK.Identity.Settled
import FastTAK.Base.Firsts
import FastTAK.Stack.Extensions
import FastTAK.Base.Csv
import FastTAK.Monitor.Events
import FastTAK.Base.Latest
import FastTAK.Monitor.Contacts
import FastTAK.Monitor.Summary
import FastTAK.Base.Like
import FastTAK.Base.Comm
import FastTAK.Env.Preflight
import FastTAK.Env.Drift
import FastTAK.Proxy.TokenGate
import FastTAK.Backup.AgeIdentity
import FastTAK.Base.Redo
import FastTAK.Backup.Restore
import FastTAK.NodeRed.Adsb
import FastTAK.Env.Ready
import FastTAK.Stack.Setup
import FastTAK.Base.Triples
import FastTAK.Monitor.Containers
import FastTAK.Base.Yields
import FastTAK.Monitor.QuietContainers
