import Apim.Shared.BundleIntegrity
import Apim.ControlPlane.FleetQuota
import Apim.ControlPlane.DenyRules
import Apim.ControlPlane.KafkaKeys
import Apim.ControlPlane.TrustAnchors
import Apim.ControlPlane.SessionKept
import Apim.ControlPlane.GlobalTier
import Apim.ControlPlane.Withdrawal
import Apim.ControlPlane.Rollback
import Apim.ControlPlane.Configure
import Apim.ControlPlane.Promote
import Apim.ControlPlane.PollTelemetry
import Apim.DataPlane.Rotation
import Apim.DataPlane.Slots
import Apim.DataPlane.Failover
import Apim.DataPlane.Tokens
import Apim.Shared.OperationMatch
import Apim.ControlPlane.Backfill
import Apim.ControlPlane.OperationIds
import Apim.DataPlane.Credentials
import Apim.DataPlane.WarningMode
import Apim.ControlPlane.Addresses
import Apim.ControlPlane.IfMatch
import Apim.DataPlane.OpenStreams
import Apim.ControlPlane.OperationRules
import Apim.DataPlane.TrustStore
import Apim.DataPlane.RateLimit
import Apim.DataPlane.BackendTokens
import Apim.DataPlane.CacheKeys
import Apim.DataPlane.ResponseHeaders
import Apim.DataPlane.Sse
import Apim.Shared.XmlReferences
import Apim.Shared.XmlEnvelope
import Apim.DataPlane.SoapRoundTrip
import Apim.ControlPlane.Approvals
import Apim.ControlPlane.TopicEdits
import Apim.ControlPlane.Retries
import Apim.ControlPlane.ProductNames
import Apim.Shared.PatternLint
import Apim.Shared.XsdPatternRead
import Apim.Shared.XsdSimpleDerivation
import Apim.Shared.CidrMatch
import Apim.Shared.ClientAddress
import Apim.DataPlane.JsonExact
import Apim.DataPlane.JsonMeaning
import Apim.DataPlane.KafkaEnvelope
import Apim.Shared.Canonical
import Apim.DataPlane.ValidationPool
import Apim.ControlPlane.Lockout
import Apim.DataPlane.Introspection
import Apim.ControlPlane.Accounts
import Apim.ControlPlane.Playground
import Apim.Shared.DistinguishedNames
import Apim.DataPlane.RouteTable
import Apim.ControlPlane.SearchQuery
