import RoadAudit.Audit.Check
import RoadAudit.Audit.Overrides
import RoadAudit.Audit.Settings
import RoadAudit.Audit.Words
import RoadAudit.Barrier.Index
import RoadAudit.Barrier.Location
import RoadAudit.Batch.Audit
import RoadAudit.Batch.Words
import RoadAudit.CommandLine.Arguments
import RoadAudit.CommandLine.Session
import RoadAudit.Feature.Basic
import RoadAudit.Feature.Collection
import RoadAudit.Feature.File
import RoadAudit.Geo.Angle
import RoadAudit.Geo.Bearing
import RoadAudit.Geo.Plane
import RoadAudit.Geo.Polyline
import RoadAudit.Geo.Text
import RoadAudit.Graph.Basic
import RoadAudit.Graph.Nearest
import RoadAudit.Graph.Route
import RoadAudit.IdTable.Basic
import RoadAudit.IdTable.File
import RoadAudit.Json.Basic
import RoadAudit.Json.Printer
import RoadAudit.Json.Reader
import RoadAudit.Main
import RoadAudit.Network.Basic
import RoadAudit.Network.Store
import RoadAudit.Numeric.Binary64
import RoadAudit.Numeric.Decimal
import RoadAudit.Numeric.Fixed
import RoadAudit.Numeric.Reading
import RoadAudit.Numeric.Shortest
import RoadAudit.Osm.Assembly
import RoadAudit.Osm.BarrierCourse
import RoadAudit.Osm.Import
import RoadAudit.Osm.NoExit
import RoadAudit.Proofs.Audit.Consistency
import RoadAudit.Proofs.Audit.Duplicates
import RoadAudit.Proofs.Audit.Failures
import RoadAudit.Proofs.Audit.Gaps
import RoadAudit.Proofs.Audit.InBatches
import RoadAudit.Proofs.Audit.InWords
import RoadAudit.Proofs.Audit.Islands
import RoadAudit.Proofs.Audit.LevelFilter
import RoadAudit.Proofs.Audit.Priorities
import RoadAudit.Proofs.Audit.PriorityOrder
import RoadAudit.Proofs.Audit.ShortWays
import RoadAudit.Proofs.Audit.Suppression
import RoadAudit.Proofs.Barrier.Crossing
import RoadAudit.Proofs.Barrier.Places
import RoadAudit.Proofs.Batch.Agreement
import RoadAudit.Proofs.Batch.InWords
import RoadAudit.Proofs.Batch.Ledger
import RoadAudit.Proofs.Batch.Ranges
import RoadAudit.Proofs.Batch.Reports
import RoadAudit.Proofs.Batch.Summary
import RoadAudit.Proofs.Feature.Endings
import RoadAudit.Proofs.Feature.Findings
import RoadAudit.Proofs.Files.Folder
import RoadAudit.Proofs.Geo.Angle
import RoadAudit.Proofs.Geo.Meridian
import RoadAudit.Proofs.Geo.NearestOnSegment
import RoadAudit.Proofs.Geo.Polyline
import RoadAudit.Proofs.Geo.Projection
import RoadAudit.Proofs.Graph.Connected
import RoadAudit.Proofs.Graph.EdgesAtNodes
import RoadAudit.Proofs.Graph.FromEitherEnd
import RoadAudit.Proofs.Graph.IndexOrder
import RoadAudit.Proofs.Graph.Placement
import RoadAudit.Proofs.Graph.RouteStatus
import RoadAudit.Proofs.Graph.RouteToPlace
import RoadAudit.Proofs.Graph.SearchStages
import RoadAudit.Proofs.Graph.SegmentUnder
import RoadAudit.Proofs.Graph.WiderLimits
import RoadAudit.Proofs.IdTable.Format
import RoadAudit.Proofs.IdTable.Journal
import RoadAudit.Proofs.Network.AbortedImports
import RoadAudit.Proofs.Network.Interrupted
import RoadAudit.Proofs.Numeric.BinaryAddition
import RoadAudit.Proofs.Numeric.BinaryProducts
import RoadAudit.Proofs.Numeric.BinaryQuotients
import RoadAudit.Proofs.Numeric.ExactScalar
import RoadAudit.Proofs.Numeric.RealScalar
import RoadAudit.Proofs.Numeric.Truncation
import RoadAudit.Proofs.Osm.Assembled
import RoadAudit.Proofs.Osm.BarrierCourses
import RoadAudit.Proofs.Osm.Legend
import RoadAudit.Proofs.Osm.Numbering
import RoadAudit.Proofs.Osm.Refusals
import RoadAudit.Proofs.Osm.Section
import RoadAudit.Proofs.Osm.SharedNodes
import RoadAudit.Proofs.Osm.Towers
import RoadAudit.Proofs.Osm.WayCourses
import RoadAudit.Proofs.Road.Attributes
import RoadAudit.Proofs.Road.NamedLevels
import RoadAudit.Proofs.Snapshot.Format
import RoadAudit.Proofs.Subnetwork.Flood
import RoadAudit.Proofs.Subnetwork.Plan
import RoadAudit.Proofs.Subnetwork.Remaining
import RoadAudit.Proofs.Subnetwork.Roots
import RoadAudit.Road.Attributes
import RoadAudit.Road.Class
import RoadAudit.Snapshot.Format
import RoadAudit.Subnetwork.Component
import RoadAudit.Subnetwork.Removal
