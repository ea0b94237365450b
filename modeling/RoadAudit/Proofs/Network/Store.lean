import RoadAudit.Network.Store
import RoadAudit.Proofs.Files.Folder
import RoadAudit.Proofs.IdTable.Format
import RoadAudit.Proofs.Snapshot.Format

/-! # Networks read back

A network that has been stored is loaded from its three files as it was, but for the sign of a
zero in a number field of its graph. So it does not matter whether a network has just been imported
or is found in its folder. -/

namespace RoadAudit

/-! ## Edges at a node -/

def EdgeView.unsigned (v : EdgeView Float) : EdgeView Float := { v with edge := v.edge.unsigned }

namespace RoadGraph

theorem views_unsigned (g : RoadGraph Float) : g.unsigned.views = g.views.map EdgeView.unsigned := by
  rw [views, views, unsigned, Array.toList_map, List.zipIdx_map, List.map_map, List.map_map]
  rfl

theorem viewFrom?_unsigned (n : Nat) (v : EdgeView Float) :
    viewFrom? n v.unsigned = (viewFrom? n v).map EdgeView.unsigned := by
  have hbase : v.unsigned.edge.base = v.edge.base := rfl
  have hadj : v.unsigned.edge.adj = v.edge.adj := rfl
  unfold viewFrom?
  rw [hbase, hadj]
  split
  · rfl
  · split <;> rfl

theorem edgesOf_unsigned (g : RoadGraph Float) (n : Nat) :
    g.unsigned.edgesOf n = (g.edgesOf n).map EdgeView.unsigned := by
  rw [edgesOf, edgesOf, views_unsigned, List.filterMap_map, List.map_filterMap]
  exact List.filterMap_congr fun v _ => viewFrom?_unsigned n v

end RoadGraph

theorem BarrierIndex.ofLines_lines {α : Type} (x : BarrierIndex α) : ofLines x.lines = x := by
  obtain ⟨lines, htwo⟩ := x
  have hall : lines.filter (fun line => 2 ≤ line.length) = lines :=
    List.filter_eq_self.mpr fun line hline => decide_eq_true (htwo line hline)
  simp [ofLines, hall]

namespace RoadNetwork

def unsigned (n : RoadNetwork) : RoadNetwork := { n with graph := n.graph.unsigned }

/-- A network of fewer nodes and edges than 32 bits can count, none of whose lines is longer than
the length of a field of the file can say. -/
structure Storable (n : RoadNetwork) : Prop where
  graph : Snapshot.HasRoom n.graph n.barriers.lines
  nodeIds_lt : n.nodeIds.size < 2 ^ 32
  wayIds_lt : n.wayIds.size < 2 ^ 32

def fileNames : List String := [partialGraphFile, graphFile, nodeIdFile, wayIdFile]

variable {n : RoadNetwork} {f stored : Storage}

theorem exists_store? (n : RoadNetwork) (h : ∀ name ∈ fileNames, f.isFolder name = false) :
    ∃ stored, store? f n = some stored := by
  have hpartial : partialGraphFile ≠ graphFile ∧ partialGraphFile ≠ nodeIdFile ∧
      partialGraphFile ≠ wayIdFile := by decide
  have hgraph : graphFile ≠ nodeIdFile ∧ graphFile ≠ wayIdFile := by decide
  have hnode : nodeIdFile ≠ wayIdFile := by decide
  refine ⟨_, Option.bind_eq_some_iff.mpr ⟨_, Folder.write?_eq_some_iff.mpr ⟨?_, rfl⟩,
    Option.bind_eq_some_iff.mpr ⟨_,
      (Folder.rename?_eq_some_iff Folder.read?_put_self).mpr ⟨?_, rfl⟩,
      Option.bind_eq_some_iff.mpr ⟨_, Folder.write?_eq_some_iff.mpr ⟨?_, rfl⟩,
        Folder.write?_eq_some_iff.mpr ⟨?_, rfl⟩⟩⟩⟩⟩
  · exact h _ (by decide)
  · rw [Folder.isFolder_put_of_ne hpartial.1]
    exact h _ (by decide)
  · rw [Folder.isFolder_put_of_ne hgraph.1, Folder.isFolder_remove_of_ne hpartial.2.1,
      Folder.isFolder_put_of_ne hpartial.2.1]
    exact h _ (by decide)
  · rw [Folder.isFolder_put_of_ne hnode, Folder.isFolder_put_of_ne hgraph.2,
      Folder.isFolder_remove_of_ne hpartial.2.2, Folder.isFolder_put_of_ne hpartial.2.2]
    exact h _ (by decide)

theorem read?_of_store? (h : store? f n = some stored) :
    stored.read? graphFile = some (Snapshot.encode n.graph n.barriers.lines) ∧
      stored.read? nodeIdFile = some n.nodeIds.encode ∧
      stored.read? wayIdFile = some n.wayIds.encode := by
  obtain ⟨f₁, h₁, h⟩ := Option.bind_eq_some_iff.mp h
  obtain ⟨f₂, h₂, h⟩ := Option.bind_eq_some_iff.mp h
  obtain ⟨f₃, h₃, h₄⟩ := Option.bind_eq_some_iff.mp h
  obtain ⟨-, rfl⟩ := Folder.write?_eq_some_iff.mp h₁
  obtain ⟨-, rfl⟩ := (Folder.rename?_eq_some_iff Folder.read?_put_self).mp h₂
  obtain ⟨-, rfl⟩ := Folder.write?_eq_some_iff.mp h₃
  obtain ⟨-, rfl⟩ := Folder.write?_eq_some_iff.mp h₄
  have hgraph : nodeIdFile ≠ graphFile ∧ wayIdFile ≠ graphFile := by decide
  have hnode : wayIdFile ≠ nodeIdFile := by decide
  refine ⟨?_, ?_, Folder.read?_put_self⟩
  · rw [Folder.read?_put_of_ne hgraph.2, Folder.read?_put_of_ne hgraph.1, Folder.read?_put_self]
  · rw [Folder.read?_put_of_ne hnode, Folder.read?_put_self]

theorem isStored_of_store? (h : store? f n = some stored) : isStored stored = true := by
  obtain ⟨hgraph, hnodeIds, hwayIds⟩ := read?_of_store? h
  rw [isStored, Folder.isFile, Folder.isFile, Folder.isFile, hgraph, hnodeIds, hwayIds]
  rfl

theorem load_of_store? (hn : n.Storable) (h : store? f n = some stored) :
    load stored = .ok n.unsigned := by
  obtain ⟨hgraph, hnodeIds, hwayIds⟩ := read?_of_store? h
  have hloadGraph : loadGraph stored = .ok (n.graph.unsigned, n.barriers.lines) := by
    rw [loadGraph, hgraph]
    simp only [Snapshot.decode_encode hn.graph]
    rfl
  have hloadNodeIds : loadTable stored nodeIdFile = .ok n.nodeIds := by
    rw [loadTable, hnodeIds]
    simp only [IdTable.decode_encode hn.nodeIds_lt]
    rfl
  have hloadWayIds : loadTable stored wayIdFile = .ok n.wayIds := by
    rw [loadTable, hwayIds]
    simp only [IdTable.decode_encode hn.wayIds_lt]
    rfl
  rw [load, hloadGraph, hloadNodeIds, hloadWayIds]
  change Except.ok (RoadNetwork.mk n.graph.unsigned n.nodeIds n.wayIds
    (BarrierIndex.ofLines n.barriers.lines)) = _
  rw [BarrierIndex.ofLines_lines]
  rfl

theorem store?_of_obtain {x : Extract} {place after : Place (List UInt8)}
    (hnew : isStored place.contents = false) (h : obtain x place = (after, .ok n)) :
    ∃ f stored, store? f n = some stored ∧ after = .folder stored := by
  unfold obtain at h
  rw [if_neg (by simp [hnew])] at h
  split at h
  case h_1 => cases h
  case h_2 imported himported =>
    split at h
    case h_1 => cases h
    case h_2 f hf =>
      split at h
      case h_1 => cases h
      case h_2 stored hstored =>
        cases h
        exact ⟨f, stored, hstored, rfl⟩

theorem obtain_of_store? (hn : n.Storable) (h : store? f n = some stored) (x : Extract) :
    obtain x (.folder stored) = (.folder stored, .ok n.unsigned) := by
  rw [obtain, Place.contents, if_pos (isStored_of_store? h), load_of_store? hn h]

/-- A network is stored unless a folder is in the way of one of its files, and what is loaded then
is the network as its files keep it: ids and barriers as they were, and of the graph all but the
sign of a zero that is a coordinate of a node or the length of an edge. Each node has the same
edges, walked in the same direction and in the same order. So the network that an import gives is
given again by every later call, whatever the extract is by then. -/
theorem load_stored (n : RoadNetwork) (hn : n.Storable) :
    (∀ f : Storage, (∀ name ∈ fileNames, f.isFolder name = false) →
      ∃ stored, store? f n = some stored) ∧
    (∀ f stored, store? f n = some stored →
      isStored stored = true ∧ load stored = .ok n.unsigned) ∧
    (∀ v, n.unsigned.graph.edgesOf v = (n.graph.edgesOf v).map EdgeView.unsigned) ∧
    (∀ x : Float, x ≠ -0 → RoadAudit.unsigned x = x) ∧
    (∀ x place after, isStored place.contents = false → obtain x place = (after, .ok n) →
      ∀ y, obtain y after = (after, .ok n.unsigned)) ∧
    Wire.fields? Snapshot.groupDepth (Snapshot.encode n.graph n.barriers.lines) =
      some (Snapshot.graphFields n.graph n.barriers.lines) := by
  refine ⟨fun f => exists_store? n, fun f stored h => ⟨isStored_of_store? h, load_of_store? hn h⟩,
    n.graph.edgesOf_unsigned, fun x => unsigned_eq_self, fun x place after hnew h y => ?_,
    Snapshot.fields?_encode hn.graph⟩
  obtain ⟨f, stored, hstored, rfl⟩ := store?_of_obtain hnew h
  exact obtain_of_store? hn hstored y

/-- A road and its way back by another course, one end removed, and a fence. -/
def sample : RoadNetwork where
  graph :=
    { nodes := #[⟨⟨0, 8⟩, false⟩, ⟨⟨50, 9⟩, true⟩]
      edges := #[⟨0, 1, 5, default, []⟩, ⟨1, 0, 6, default, [⟨50, 8⟩, ⟨0, 9⟩]⟩]
      ends := by decide }
  nodeIds := ⟨.nodes, #[10, 11]⟩
  wayIds := ⟨.ways, #[500, IdTable.vacant]⟩
  barriers := ⟨[[⟨0, 0⟩, ⟨1, 1⟩]], by decide⟩

theorem load_stored_sample : sample.Storable ∧
    ∃ stored, store? Folder.empty sample = some stored ∧ load stored = .ok sample.unsigned := by
  have hroom : sample.Storable :=
    ⟨⟨by decide, by decide, by decide, by decide⟩, by decide, by decide⟩
  obtain ⟨hstore, hload, -⟩ := load_stored sample hroom
  obtain ⟨stored, hstored⟩ := hstore Folder.empty (by decide)
  exact ⟨hroom, stored, hstored, (hload _ _ hstored).2⟩

end RoadNetwork
end RoadAudit
