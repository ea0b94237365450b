import Mathlib.Data.List.Forall2
import RoadAudit.Proofs.Audit.Pass
import RoadAudit.Proofs.Batch.InOrder
import RoadAudit.Proofs.Feature.Endings
import RoadAudit.Proofs.Json.Text

/-! # Findings in a feature file

A file of findings is a collection of the texts of the features that show them, two features for
each missing connection and one for each duplicated edge, in the order of the findings. The number
of features decides whether a separator goes before the next one, and it is carried from batch to
batch; so how the findings come in batches, empty ones among them, cannot be told from the file. -/

namespace RoadAudit

namespace Feature

variable {f g : Feature}

def geometry? (f : Feature) (key : String) : Option Json :=
  (f.toJson.field? "geometry").bind (Json.field? key)

def property? (f : Feature) (key : String) : Option Json :=
  (f.toJson.field? "properties").bind (Json.field? key)

/-- A point is written as its longitude and its latitude. -/
structure IsPointAt (f : Feature) (p : Point Float) : Prop where
  isFeature : f.toJson.field? "type" = some (.text "Feature")
  type : f.geometry? "type" = some (.text "Point")
  coordinates : f.geometry? "coordinates" = some (.array [.float p.lon, .float p.lat])

/-- A line is written as the list of its points, each with its longitude and its latitude. -/
structure IsLineThrough (f : Feature) (line : List (Point Float)) : Prop where
  isFeature : f.toJson.field? "type" = some (.text "Feature")
  type : f.geometry? "type" = some (.text "LineString")
  coordinates : f.geometry? "coordinates" =
    some (.array (line.map fun p => .array [.float p.lon, .float p.lat]))

/-- Whether two features have equal properties but for their types. -/
def SameButType (f g : Feature) : Prop := ∀ key, key ≠ "type" → f.property? key = g.property? key

structure TellsOf (f : Feature) (m : MissingConnection Float) : Prop where
  distance : f.property? "distance" = some (.float m.distance)
  node : f.property? "node_id" = some (.int m.nodeId)
  osmNode : f.property? "osm_id" = some (.int m.osmId.toNat)
  priority : f.property? "priority" = some (.int m.priority)
  isPrivate : f.property? "private" = some (.bool m.isPrivate)
  roadClass : f.property? "road_class" = some (.text m.roadClass.name)

structure TellsOfCopy (f : Feature) (d : DuplicatedEdge Float) : Prop where
  rank : f.property? "rank" = some (.int d.rank)
  firstWay : f.property? "way_id_1" = some (d.firstWay.elim .null fun id => .int id.toNat)
  secondWay : f.property? "way_id_2" = some (d.secondWay.elim .null fun id => .int id.toNat)

/-- Which features show a finding. -/
inductive Shows : Finding Float → List Feature → Prop where
  /-- A missing connection: its open end, typed by the match, and its snap point. -/
  | missing {m : MissingConnection Float} {openEnd snap : Feature}
      (hopen : openEnd.IsPointAt m.openEnd) (hsnap : snap.IsPointAt m.snapPoint)
      (hopenType : openEnd.property? "type" = some (.text m.position.name))
      (hsnapType : snap.property? "type" = some (.text "snap point"))
      (htells : openEnd.TellsOf m) (hsame : SameButType openEnd snap) :
      Shows (.missing m) [openEnd, snap]
  /-- A duplicated edge: its course. -/
  | duplicate {d : DuplicatedEdge Float} {f : Feature} (hline : f.IsLineThrough d.geometry)
      (htype : f.property? "type" = some (.text "duplicate")) (htells : f.TellsOfCopy d) :
      Shows (.duplicate d) [f]

theorem property?_eq (f : Feature) (key : String) :
    f.property? key = Json.field? key (.object f.properties) := rfl

/-- The type stands last among the properties of a missing connection, and what stands before it
does not depend on it. -/
theorem sameButType_missing (m : MissingConnection Float) (geometry geometry' : FeatureGeometry)
    (type type' : String) :
    SameButType ⟨geometry, missingProperties m type⟩ ⟨geometry', missingProperties m type'⟩ := by
  intro key hkey
  have hother : ("type" == key) = false := beq_false_of_ne hkey.symm
  have hskip : ∀ t, Json.field? key (.object (missingProperties m t)) =
      (((missingProperties m t).dropLast.reverse).find? fun p => p.1 == key).map (·.2) := by
    intro t
    simp only [missingProperties, Json.field?, List.reverse_cons, List.reverse_nil, List.nil_append,
      List.cons_append, List.find?_cons, hother, List.dropLast]
  rw [property?_eq, property?_eq, hskip, hskip]
  rfl

theorem shows_ofFinding (f : Finding Float) : Shows f (ofFinding f) := by
  cases f with
  | missing m =>
    exact .missing ⟨rfl, rfl, rfl⟩ ⟨rfl, rfl, rfl⟩ rfl rfl ⟨rfl, rfl, rfl, rfl, rfl, rfl⟩
      (sameButType_missing m _ _ _ _)
  | duplicate d =>
    have hid : ∀ way : Option UInt64, idJson way = way.elim .null fun id => .int id.toNat := by
      intro way
      cases way <;> rfl
    exact .duplicate ⟨rfl, rfl, rfl⟩ rfl
      ⟨rfl, congrArg some (hid d.firstWay), congrArg some (hid d.secondWay)⟩

theorem forall₂_shows (fs : List (Finding Float)) : List.Forall₂ Shows fs (fs.map ofFinding) :=
  List.forall₂_map_right_iff.mpr (List.forall₂_same.mpr fun f _ => shows_ofFinding f)

theorem length_flatMap_ofFinding (fs : List (Finding Float)) :
    (fs.flatMap ofFinding).length = 2 * (missingOf fs).length + (duplicatesOf fs).length := by
  induction fs with
  | nil => rfl
  | cons f rest ih =>
    rw [List.flatMap_cons, List.length_append, ih]
    cases f <;> simp [ofFinding, ofMissing] <;> omega

end Feature

namespace FeatureFile

variable {before : Folder String} {name : String} {file : FeatureFile}

theorem writeAll_findingSink (file : FeatureFile) (batches : List (List (Finding Float))) :
    findingSink.writeAll file batches = .ok (file.writeAll [.findings batches.flatten]) := by
  induction batches generalizing file with
  | nil => rfl
  | cons fs rest ih =>
    have hstep : findingSink.writeAll file (fs :: rest)
        = findingSink.writeAll (file.addFindings fs) rest := rfl
    rw [hstep, ih]
    have hjoin : (file.addFindings fs).writeAll [.findings rest.flatten] =
        file.writeAll [.findings (fs ++ rest.flatten)] :=
      congrArg (fun c => ({ file with collection := c } : FeatureFile))
        (Collection.addFindings_append file.collection fs rest.flatten).symm
    rw [hjoin, List.flatten_cons]

theorem collection_writeAll_findings (h : create before name = .ok file)
    (fs : List (Finding Float)) : (file.writeAll [.findings fs]).collection =
      (fs.flatMap Feature.ofFinding).foldl Collection.add Collection.start := by
  obtain ⟨-, -, rfl⟩ := create_eq_ok_iff.mp h
  rfl

/-- Batches of findings written to a new file, which takes them all, make a collection of the
features that show the findings in their order: the header, the JSON texts of the features with one
separator between any two neighbours, and the footer. That is what the file holds once it has been
finished, unless a folder is in its place. There are two features for each missing connection and
one for each duplicated edge, and other batches of the same findings make the same file. -/
theorem findings_written (h : create before name = .ok file)
    (batches : List (List (Finding Float))) :
    ∃ last parts texts, findingSink.writeAll file batches = .ok last ∧
      List.Forall₂ Feature.Shows batches.flatten parts ∧
      List.Forall₂ Json.Writes (parts.flatten.map Feature.toJson) texts ∧
      last.collection.close = "\x7b\"type\":\"FeatureCollection\",\"features\":[\n" ++
        ",\n".intercalate texts ++ "\n]\x7d\n" ∧
      (before.isFolder name = false → last.finish.2 = true ∧
        last.finish.1.read? name = some last.collection.close) ∧
      last.collection.written =
        2 * (missingOf batches.flatten).length + (duplicatesOf batches.flatten).length ∧
      ∀ others : List (List (Finding Float)), others.flatten = batches.flatten →
        findingSink.writeAll file others = .ok last := by
  have hholds : (file.writeAll [.findings batches.flatten]).Holds before name
      (batches.flatten.map Feature.ofFinding).flatten := by
    rw [← List.flatMap_def]
    simpa [Portion.features] using holds_writeAll h [.findings batches.flatten]
  refine ⟨_, _, _, writeAll_findingSink file batches, Feature.forall₂_shows batches.flatten,
    Json.writes_items _, ?_, fun hfree => ?_, ?_, fun others hsame => ?_⟩
  · rw [hholds.close_eq, List.map_map]
    rfl
  · rcases hholds.finish_cases with ⟨-, hplaced, hleaves⟩ | ⟨hblocked, -⟩
    · exact ⟨hplaced, by rw [Folder.read?, hleaves.lookup?_name, hholds.close_eq]⟩
    · rw [hfree] at hblocked
      cases hblocked
  · rw [collection_writeAll_findings h, Collection.foldl_add_start,
      Feature.length_flatMap_ofFinding]
  · rw [writeAll_findingSink, hsame]

/-- A driveway that ends a few metres off the middle of a road. -/
def openDriveway : MissingConnection Float where
  openEnd := ⟨50.00008, 8.001⟩
  snapPoint := ⟨50, 8.001⟩
  distance := 8.9
  nodeId := 3
  osmId := 6205074608
  position := .edge
  roadClass := .serviceDriveway
  isPrivate := true
  priority := 5

/-- Between the two batches with a finding there is an empty one, and three features are written. -/
theorem findings_written_openDriveway :
    let d : DuplicatedEdge Float := ⟨[⟨50, 8⟩, ⟨50, 9⟩], some 100, none, 2⟩
    ∃ file, create Folder.empty "unconnected_ways.json" = .ok file ∧
      (Folder.empty : Folder String).isFolder "unconnected_ways.json" = false ∧
      ∃ last parts texts, findingSink.writeAll file [[.missing openDriveway], [], [.duplicate d]] =
          .ok last ∧
        List.Forall₂ Feature.Shows [.missing openDriveway, .duplicate d] parts ∧
        List.Forall₂ Json.Writes (parts.flatten.map Feature.toJson) texts ∧
        last.finish.1.read? "unconnected_ways.json" =
          some ("\x7b\"type\":\"FeatureCollection\",\"features\":[\n" ++
            ",\n".intercalate texts ++ "\n]\x7d\n") ∧
        last.collection.written = 3 := by
  intro d
  have hcreate := create_eq_ok_iff.mpr ⟨show isNested "unconnected_ways.json" = false by decide,
    show Folder.empty.isFolder (temporaryName "unconnected_ways.json") = false from rfl, rfl⟩
  obtain ⟨last, parts, texts, hlast, hshows, htexts, hclose, hplaced, hwritten, -⟩ :=
    findings_written hcreate [[.missing openDriveway], [], [.duplicate d]]
  exact ⟨_, hcreate, rfl, last, parts, texts, hlast, hshows, htexts,
    hclose ▸ (hplaced rfl).2, hwritten⟩

end FeatureFile
end RoadAudit
