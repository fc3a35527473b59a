import PathForge.ByteReader
import PathForge.Addresses
import PathForge.PathAttributes
import PathForge.AttributeFraming
import PathForge.AttributeValues
import PathForge.AttributeRoundTrip
import PathForge.AttributePassThrough
import PathForge.ChunkedInput
import PathForge.MessageFraming
import PathForge.NlriPrefixes
import PathForge.UpdateMessages
import PathForge.SessionMessages
import PathForge.MessageRoundTrip
import PathForge.Dampening
import PathForge.RouteOrigin
import PathForge.StableSelection
import PathForge.RoutingBase
import PathForge.DecisionProcess
import PathForge.LocRibInvariant
import PathForge.Capabilities
import PathForge.PeerSession
import PathForge.SessionSteps
import PathForge.SessionRuns
import PathForge.MessageOrder
import PathForge.DampeningEntries
import PathForge.KeyedRuns
import PathForge.PeerViews
import PathForge.PeerIndependence
import PathForge.RouteProvenance
import PathForge.RunHistory
import PathForge.StaleSweep
import PathForge.PrefixIdentity
import PathForge.NegotiatedTerms
import PathForge.HandshakeHistory
import PathForge.PeerAsNumbers
import PathForge.RouteReflection
import PathForge.DampeningAutomaton
import PathForge.UpdateOutcomes
import PathForge.DampenedRoutes
import PathForge.OriginVerdicts
import PathForge.CapabilityRoundTrip
import PathForge.SharedEffects
import PathForge.DaemonRuns
import PathForge.DaemonGauges
import PathForge.PrefixLists
import PathForge.PrefixContainment
import PathForge.OriginValidation
import PathForge.PolicyDecisions
import PathForge.AttributeAcceptance
import PathForge.EndOfRib
import PathForge.CapabilityParameters
import PathForge.StaleFlags
import PathForge.SpuriousWithdrawals
import PathForge.RepeatedAnnouncements
import PathForge.MultiProtocolNlri
import PathForge.ParserSafety
import PathForge.CommunityLists
import PathForge.SessionStream
import PathForge.OutgoingMessages
import PathForge.SpeakerPair
import PathForge.MetricCounters
import PathForge.DaemonSessions
import PathForge.DaemonTables
import PathForge.ScheduleIndependence
import PathForge.SessionTimers
import PathForge.AttributeOrder
import PathForge.DisplayTexts
import PathForge.SortedTables
import PathForge.DaemonAnswers
import PathForge.Configuration
