import DecryptorNode.Chain.ContractReader
import DecryptorNode.Decimal.Shortest
import DecryptorNode.Keys.Epoch
import DecryptorNode.Keys.Signature
import DecryptorNode.Main
import DecryptorNode.Network.FixedHandler
import DecryptorNode.Network.KeyHandler
import DecryptorNode.Node.Console
import DecryptorNode.Node.Shutdown
import DecryptorNode.Node.Start
import DecryptorNode.Proofs.Chain.BatchOutcome
import DecryptorNode.Proofs.Chain.EventDecoding
import DecryptorNode.Proofs.Chain.RangePlanning
import DecryptorNode.Proofs.Config.EnvironmentNames
import DecryptorNode.Proofs.Config.LayeredLoading
import DecryptorNode.Proofs.Config.LiteralTexts
import DecryptorNode.Proofs.Config.PasswordVariable
import DecryptorNode.Proofs.Config.PathChanges
import DecryptorNode.Proofs.Config.RecordParts
import DecryptorNode.Proofs.Config.SettingsParts
import DecryptorNode.Proofs.Keys.CanonicalEncodings
import DecryptorNode.Proofs.Keys.HashedPoints
import DecryptorNode.Proofs.Keys.KeyChecks
import DecryptorNode.Proofs.Network.KeyAuthenticity
import DecryptorNode.Proofs.Network.KeyConvergence
import DecryptorNode.Proofs.Network.LookupVerdicts
import DecryptorNode.Proofs.Network.MessageGrammar
import DecryptorNode.Proofs.Network.WireRoundTrip
import DecryptorNode.Proofs.Node.KeyHistory
import DecryptorNode.Proofs.Sync.ConfigurationHistory
import DecryptorNode.Proofs.Sync.FollowingRuns
import DecryptorNode.Proofs.Sync.OrderIndependence
import DecryptorNode.Proofs.Sync.PipelineRuns
import DecryptorNode.Proofs.Sync.Reconciliation
import DecryptorNode.Proofs.Sync.RunnableSettings
import DecryptorNode.Proofs.Sync.StoredSets
import DecryptorNode.Store.Dump
import DecryptorNode.Store.Fault
import DecryptorNode.Sync.Feed
import DecryptorNode.Sync.Following
import DecryptorNode.Telemetry.Report
