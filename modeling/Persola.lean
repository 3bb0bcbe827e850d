import Persola.Lib.Quotation
import Persola.Team.Memory
import Persola.Team.Recall
import Persola.Team.Timing
import Persola.Tools.Normalisers
import Persola.Tools.Batch
import Persola.Tools.Parallel
import Persola.City.CallOrder
import Persola.Persona.Writes
import Persola.City.Jobs
import Persola.Workqueue.Rows
import Persola.Chat.Isolation
import Persola.Chat.Counting
import Persola.Persona.Coherence
import Persola.Persona.Seeding
import Persola.Persona.Caching
import Persola.Workqueue.Clients
import Persola.Workqueue.Skipping
import Persola.City.HeadOfLine
import Persola.City.Stranding
import Persola.City.Authority
import Persola.City.Delivery
import Persola.City.Succession
import Persola.City.Durability
import Persola.City.Siblings
import Persola.City.Participation
import Persola.City.Chronicle
import Persola.Chat.Voice
import Persola.City.Wedge
import Persola.City.Ageing
import Persola.City.RunEvents
import Persola.City.Versioning
import Persola.Persona.Cyrex
import Persola.Chat.Configs
import Persola.Workqueue.Forced
import Persola.Chat.Exits
import Persola.City.Listing
import Persola.City.Paths
import Persola.City.Timeline
import Persola.City.Export
import Persola.RateLimit.InMemory
import Persola.RateLimit.Expiry
import Persola.Persona.Blend
import Persola.City.Drift
import Persola.Workflow.Records
import Persola.Analysis.Extraction
import Persola.City.Gate
import Persola.City.Thinking
import Persola.City.Lifespan
import Persola.City.Attachment
import Persola.City.Generated
import Persola.City.Personalities
import Persola.Workqueue.OrgChart
import Persola.Integrations.Durable
import Persola.Tools.Invocations
import Persola.Tools.Returning
import Persola.Tools.Flattening
import Persola.City.Samples
import Persola.Workqueue.OrgHistory
import Persola.Workqueue.Daemon
import Persola.RateLimit.Retry
import Persola.City.Census
import Persola.Integrations.Providers
import Persola.Integrations.Secrecy
import Persola.Team.AuditLog
import Persola.City.CyrexSync
import Persola.Persona.Bands
import Persola.Team.Pages
import Persola.Analysis.Provenance
