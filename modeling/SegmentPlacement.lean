import SegmentPlacement.Assignment
import SegmentPlacement.Clock
import SegmentPlacement.Cluster.Script
import SegmentPlacement.Cluster.Snapshot
import SegmentPlacement.Cluster.Store
import SegmentPlacement.Codec.Cluster
import SegmentPlacement.Codec.Rebalance
import SegmentPlacement.Codec.Routing
import SegmentPlacement.Codec.Snapshot
import SegmentPlacement.Codec.Table
import SegmentPlacement.CommandLine
import SegmentPlacement.Convergence
import SegmentPlacement.Decimal.Exact
import SegmentPlacement.Decimal.Reader
import SegmentPlacement.Decimal.Shortest
import SegmentPlacement.Decimal.Signed
import SegmentPlacement.Error
import SegmentPlacement.Json.Decoder
import SegmentPlacement.Json.Number
import SegmentPlacement.Json.Printer
import SegmentPlacement.Json.Reader
import SegmentPlacement.Json.Value
import SegmentPlacement.Layout.Basic
import SegmentPlacement.Layout.Computed
import SegmentPlacement.Load
import SegmentPlacement.Main
import SegmentPlacement.Metrics
import SegmentPlacement.Move
import SegmentPlacement.OrderedMap
import SegmentPlacement.Period
import SegmentPlacement.Placement.Aligned
import SegmentPlacement.Placement.Balanced
import SegmentPlacement.Placement.Share
import SegmentPlacement.Placement.Target
import SegmentPlacement.Program
import SegmentPlacement.Proofs.ApplyWrites
import SegmentPlacement.Proofs.AvailabilityFloor
import SegmentPlacement.Proofs.BalancedPlacement
import SegmentPlacement.Proofs.Chains
import SegmentPlacement.Proofs.ComputedLayout
import SegmentPlacement.Proofs.LayoutSlots
import SegmentPlacement.Proofs.LayoutStability
import SegmentPlacement.Proofs.Loads
import SegmentPlacement.Proofs.MoveStep
import SegmentPlacement.Proofs.OrderedMap
import SegmentPlacement.Proofs.ProgramLogic
import SegmentPlacement.Proofs.RebalanceWrites
import SegmentPlacement.Proofs.SharedTable
import SegmentPlacement.Proofs.SteadyGroups
import SegmentPlacement.Proofs.SteadySlots
import SegmentPlacement.Rebalance.Apply
import SegmentPlacement.Rebalance.Consuming
import SegmentPlacement.Rebalance.Options
import SegmentPlacement.Rebalance.Plan
import SegmentPlacement.Rebalance.PreCheck
import SegmentPlacement.Rebalance.Result
import SegmentPlacement.Rebalance.Run
import SegmentPlacement.Rebalance.Summary
import SegmentPlacement.Retry
import SegmentPlacement.Routing.Candidate
import SegmentPlacement.Routing.Selector
import SegmentPlacement.Routing.Table
import SegmentPlacement.Segment
import SegmentPlacement.Server
import SegmentPlacement.Service
import SegmentPlacement.StateUpdate
import SegmentPlacement.Table
import SegmentPlacement.Text.Blank
import SegmentPlacement.Text.Numeral
import SegmentPlacement.Tier
import SegmentPlacement.Toml.Document
import SegmentPlacement.Toml.Number
import SegmentPlacement.Toml.Quoted
import SegmentPlacement.Word
import SegmentPlacement.Proofs.ApplyLoop
import SegmentPlacement.Proofs.MoveProgress
import SegmentPlacement.Proofs.ApplyProgress
import SegmentPlacement.Proofs.ApplyWaits
import SegmentPlacement.Proofs.LayoutMirrors
import SegmentPlacement.Proofs.MirroredPlacement
import SegmentPlacement.Proofs.FairShares
import SegmentPlacement.Proofs.SettledBalance
import SegmentPlacement.Proofs.SettledPlacement
import SegmentPlacement.Proofs.SettledTarget
import SegmentPlacement.Proofs.SettledPlan
import SegmentPlacement.Proofs.SettledRebalance
import SegmentPlacement.Proofs.SummaryAccount
import SegmentPlacement.Proofs.MoveHistory
import SegmentPlacement.Proofs.PlacedTarget
import SegmentPlacement.Proofs.StrictPlacement
import SegmentPlacement.Proofs.UnmovedTarget
import SegmentPlacement.Proofs.UploadedSegments
import SegmentPlacement.Proofs.StoreOperations
import SegmentPlacement.Proofs.StoreVersions
import SegmentPlacement.Proofs.TieredTarget
import SegmentPlacement.Proofs.UnwrittenRebalance
import SegmentPlacement.Proofs.Convergence
import SegmentPlacement.Proofs.FilledLayout
import SegmentPlacement.Proofs.StoreContents
import SegmentPlacement.Proofs.StoreWrites
import SegmentPlacement.Proofs.SummaryBalance
import SegmentPlacement.Proofs.RoutingCandidates
import SegmentPlacement.Proofs.StepRouting
import SegmentPlacement.Proofs.RoutedSelection
import SegmentPlacement.Proofs.ServingFloor
import SegmentPlacement.Proofs.SegmentPlacers
import SegmentPlacement.Proofs.TaggedServers
import SegmentPlacement.Proofs.RecordedTiers
import SegmentPlacement.Proofs.JsonScalars
import SegmentPlacement.Proofs.JsonRoundTrip
import SegmentPlacement.Proofs.JsonForms
import SegmentPlacement.Proofs.TableForms
import SegmentPlacement.Proofs.ClusterForms
import SegmentPlacement.Proofs.StoredSnapshot
import SegmentPlacement.Proofs.BatchedStep
import SegmentPlacement.Proofs.LightServers
import SegmentPlacement.Proofs.KeptIndices
import SegmentPlacement.Proofs.GroupedLayouts
import SegmentPlacement.Proofs.ServedSegments
import SegmentPlacement.Proofs.LayoutSeats
import SegmentPlacement.Proofs.KeptSeats
import SegmentPlacement.Proofs.SlotShares
import SegmentPlacement.Proofs.UpdateAttempts
import SegmentPlacement.Proofs.ConsumingMoves
import SegmentPlacement.Proofs.TagCounts
import SegmentPlacement.Proofs.CandidateLists
import SegmentPlacement.Proofs.RequestTurns
import SegmentPlacement.Proofs.RankedServers
import SegmentPlacement.Proofs.TierPrecedence
import SegmentPlacement.Proofs.BoundedWaits
import SegmentPlacement.Proofs.TriedFills
import SegmentPlacement.Proofs.WrittenPeriods
