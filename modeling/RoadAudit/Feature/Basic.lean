import RoadAudit.Audit.Finding
import RoadAudit.Json.Printer

/-! # Features

Findings and islands as GeoJSON features: a point or a line with properties. A missing connection
becomes two points, its open end and the place it should be connected to; they have the same
properties but for their type. Coordinates have the longitude first. -/

namespace RoadAudit

inductive FeatureGeometry where
  | point (p : Point Float)
  | lineString (line : List (Point Float))

/-- A geometry with properties, which are sorted by name. -/
structure Feature where
  geometry : FeatureGeometry
  properties : List (String × Json)

namespace Feature

def position (p : Point Float) : Json := .array [.float p.lon, .float p.lat]

def geometryJson : FeatureGeometry → Json
  | .point p => .object [("type", .text "Point"), ("coordinates", position p)]
  | .lineString line =>
    .object [("type", .text "LineString"), ("coordinates", .array (line.map position))]

def toJson (f : Feature) : Json :=
  .object [("type", .text "Feature"), ("geometry", geometryJson f.geometry),
    ("properties", .object f.properties)]

def render (f : Feature) : String := f.toJson.render

def idJson : Option UInt64 → Json
  | some n => .int n.toNat
  | none => .null

/-- The properties of a missing connection under a given type. -/
def missingProperties (m : MissingConnection Float) (type : String) : List (String × Json) :=
  [("distance", .float m.distance), ("node_id", .int m.nodeId), ("osm_id", .int m.osmId.toNat),
    ("priority", .int m.priority), ("private", .bool m.isPrivate),
    ("road_class", .text m.roadClass.name), ("type", .text type)]

/-- The open end of a missing connection, typed by the match, and its snap point. -/
def ofMissing (m : MissingConnection Float) : List Feature :=
  [⟨.point m.openEnd, missingProperties m m.position.name⟩,
    ⟨.point m.snapPoint, missingProperties m "snap point"⟩]

def ofDuplicate (d : DuplicatedEdge Float) : Feature :=
  ⟨.lineString d.geometry,
    [("rank", .int d.rank), ("type", .text "duplicate"), ("way_id_1", idJson d.firstWay),
      ("way_id_2", idJson d.secondWay)]⟩

def ofIsland (course : List (Point Float)) (way : Option UInt64) : Feature :=
  ⟨.lineString course, [("type", .text "island"), ("way_id", idJson way)]⟩

/-- The features of a finding, in the order in which they are written. -/
def ofFinding : Finding Float → List Feature
  | .missing m => ofMissing m
  | .duplicate d => [ofDuplicate d]

end Feature

/-- Something that takes features one by one and may refuse them. -/
structure FeatureSink (σ : Type) where
  write : σ → Feature → Except String σ

/-- What the sink holds after some features, and why it has refused one, if it has. -/
def FeatureSink.writeAll {σ : Type} (sink : FeatureSink σ) : List Feature → σ → σ × Option String
  | [], held => (held, none)
  | f :: rest, held =>
    match sink.write held f with
    | .ok held => sink.writeAll rest held
    | .error reason => (held, some reason)

end RoadAudit
