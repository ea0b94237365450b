import RoadAudit.Osm.NoExit
import RoadAudit.Proofs.Osm.Readings

/-! # The records of nodes

The marks of nodes are gathered while an extract is read, and written when the nodes of the graph
are numbered. The table then has a record for just the nodes that stand for nodes of the map. -/

namespace RoadAudit
namespace NodeRecords

variable {marked : Std.HashSet Int64} {ids : List Int64} {r next : NodeRecords} {id : Int64}

/-! ## Reading -/

theorem table_foldl_readNode (nodes : List OsmNode) (r : NodeRecords) :
    (nodes.foldl readNode r).table = r.table := by
  induction nodes generalizing r with
  | nil => rfl
  | cons n nodes ih =>
    rw [List.foldl_cons, ih, readNode]
    split <;> rfl

theorem contains_foldl_readNode (nodes : List OsmNode) (r : NodeRecords) (id : Int64) :
    (nodes.foldl readNode r).marked.contains id = true ↔
      (∃ n ∈ nodes, n.id = id ∧ marksNoExit n.tags = true) ∨ r.marked.contains id = true := by
  induction nodes generalizing r with
  | nil => simp
  | cons n nodes ih =>
    rw [List.foldl_cons, ih, readNode]
    cases hmarks : marksNoExit n.tags <;>
      simp [hmarks, or_assoc, or_left_comm, Std.HashSet.contains_insert]

theorem marksNoExit_iff {tags : Tags} : marksNoExit tags = true ↔
    tags.value? "noexit" = some "yes" ∨ ∃ v, tags.value? "entrance" = some v ∧ v ≠ "no" := by
  unfold marksNoExit
  cases tags.value? "entrance" <;> simp

theorem view_readTwice {σ : Type} {c : Collector σ} {view : σ → NodeRecords}
    (hpart : c.HasPart view collector) (held : σ) (objects : List OsmObject) :
    view (c.readTwice held objects) = (Import.nodesOf objects).foldl readNode (view held) := by
  have hannounced : view ((Import.waysOf objects).foldl c.announceWay held) = view held := by
    rw [hpart.foldl_announceWay]
    exact List.foldl_fixed _
  rw [Collector.readTwice, ← hannounced]
  generalize (Import.waysOf objects).foldl c.announceWay held = told
  clear hannounced
  induction objects using List.reverseRecOn with
  | nil => rfl
  | append_singleton objects o ih =>
    rw [List.foldl_append, Import.nodesOf_snoc, List.foldl_append, ← ih]
    cases o with
    | node n => exact hpart.readNode _ n
    | way w => exact (hpart.readWay _ w).elim id id
    | relation => rfl

theorem table_readTwice {σ : Type} {c : Collector σ} {view : σ → NodeRecords} {held : σ}
    (hpart : c.HasPart view collector) (hstart : view held = empty) (objects : List OsmObject) :
    (view (c.readTwice held objects)).table = IdTable.empty .nodes := by
  rw [view_readTwice hpart, hstart, table_foldl_readNode]
  rfl

/-! ## Recording -/

/-- The table after the nodes with some map ids have been recorded in order: each that stands for a
node of the map has a word, with the mark that has been read for it. -/
structure HasRecorded (marked : Std.HashSet Int64) (ids : List Int64) (r : NodeRecords) : Prop where
  marked_eq : r.marked = marked
  layout_eq : r.table.layout = .nodes
  size_le : r.table.size ≤ ids.length
  inRange : ∀ id ∈ ids, 0 < id → IdTable.InRange .nodes id.toUInt64
  word_eq : ∀ i : Nat, r.table.word i = (ids[i]?).elim IdTable.vacant fun id =>
    if 0 < id then IdTable.encodeRecord .nodes id.toUInt64 (marked.contains id)
    else IdTable.vacant

theorem hasRecorded_nil (htable : r.table = IdTable.empty .nodes) : HasRecorded r.marked [] r where
  marked_eq := rfl
  layout_eq := by rw [htable, IdTable.empty]
  size_le := by rw [htable, IdTable.size, IdTable.empty, Array.size_empty, List.length_nil]
  inRange := by simp
  word_eq _ := by rw [htable]; rfl

theorem HasRecorded.skip (h : HasRecorded marked ids r) (hid : id ≤ 0) :
    HasRecorded marked (ids ++ [id]) r where
  marked_eq := h.marked_eq
  layout_eq := h.layout_eq
  size_le := by
    rw [List.length_append]
    exact h.size_le.trans (Nat.le_add_right _ _)
  inRange := by
    intro id' hid' hpos
    rcases List.mem_append.mp hid' with hid' | hid'
    · exact h.inRange id' hid' hpos
    · rw [List.mem_singleton.mp hid'] at hpos
      exact absurd hid (Int64.not_le.mpr hpos)
  word_eq i := by
    rw [h.word_eq, getElem?_snoc]
    split
    case isTrue hi => simp [hi, Int64.not_lt.mpr hid]
    case isFalse => rfl

theorem HasRecorded.add (h : HasRecorded marked ids r) {table : IdTable} (hid : 0 < id)
    (hadd : r.table.add ids.length id.toUInt64 (marked.contains id) = .ok table) :
    HasRecorded marked (ids ++ [id]) { r with table := table } := by
  have hsize := IdTable.size_of_add hadd
  obtain ⟨hrange, rfl⟩ := IdTable.of_add hadd
  constructor
  case marked_eq => exact h.marked_eq
  case layout_eq => exact h.layout_eq
  case size_le =>
    rw [hsize, List.length_append, List.length_singleton]
    exact max_le (h.size_le.trans (Nat.le_succ _)) le_rfl
  case inRange =>
    intro id' hid' hpos
    rcases List.mem_append.mp hid' with hid' | hid'
    · exact h.inRange id' hid' hpos
    · rw [List.mem_singleton.mp hid', ← h.layout_eq]
      exact hrange
  case word_eq =>
    intro i
    rw [IdTable.word, IdTable.word_writeWord, getElem?_snoc, h.layout_eq]
    split
    case isTrue => simp [hid]
    case isFalse => exact h.word_eq i

theorem HasRecorded.record (h : HasRecorded marked ids r)
    (hnext : record r id ids.length = .ok next) : HasRecorded marked (ids ++ [id]) next := by
  unfold NodeRecords.record at hnext
  split at hnext
  case isTrue hid =>
    cases hnext
    exact h.skip hid
  case isFalse hid =>
    obtain ⟨table, hadd, hnext⟩ := bind_eq_ok_iff.mp hnext
    cases hnext
    rw [h.marked_eq] at hadd
    exact h.add (Int64.not_le.mp hid) hadd

theorem hasRecorded_of_recordAll (htable : r.table = IdTable.empty .nodes)
    (h : collector.recordAll r ids = .ok next) : HasRecorded r.marked ids next := by
  induction ids using List.reverseRecOn generalizing next with
  | nil =>
    cases h
    exact hasRecorded_nil htable
  | append_singleton ids id ih =>
    obtain ⟨last, hlast, hid⟩ := (Collector.recordAll_snoc_eq_ok_iff _).mp h
    exact (ih hlast).record hid

/-- No node is refused if the ids of the map nodes fit into the table. -/
theorem accepts_collector (htable : r.table = IdTable.empty .nodes) :
    collector.Accepts r fun id => 0 < id → IdTable.InRange .nodes id.toUInt64 := by
  intro ids r id h hrange
  have hrecorded := hasRecorded_of_recordAll htable h
  change ∃ told, record r id ids.length = .ok told
  unfold record
  split
  case isTrue => exact ⟨r, rfl⟩
  case isFalse hid =>
    have hfits := (IdTable.fits_iff_inRange _ _).mpr (hrange (Int64.not_le.mp hid))
    rw [← hrecorded.layout_eq] at hfits
    have horder : ¬ ids.length + 1 < r.table.size := by
      have := hrecorded.size_le
      omega
    rw [IdTable.add, if_neg horder, if_pos hfits]
    exact ⟨_, rfl⟩

theorem HasRecorded.osmId?_eq (h : HasRecorded marked ids r) (i : Nat) :
    r.table.osmId? i = (ids[i]?).bind fun id => if 0 < id then some id.toUInt64 else none := by
  rw [IdTable.osmId?, h.layout_eq, h.word_eq]
  cases hid : ids[i]? with
  | none => exact IdTable.idOf?_vacant _
  | some id =>
    dsimp only [Option.elim_some, Option.bind_some]
    split
    case isTrue hpos =>
      exact IdTable.idOf?_encodeRecord (h.inRange id (List.mem_of_getElem? hid) hpos) _
    case isFalse => exact IdTable.idOf?_vacant _

theorem HasRecorded.noExit_eq (h : HasRecorded marked ids r) (i : Nat) :
    r.table.noExit i = (ids[i]?).any fun id => 0 < id && marked.contains id := by
  rw [IdTable.noExit, h.layout_eq, h.word_eq]
  cases hid : ids[i]? with
  | none => exact IdTable.noExitOf_vacant _
  | some id =>
    dsimp only [Option.elim_some, Option.any_some]
    split
    case isTrue hpos =>
      rw [IdTable.noExitOf_encodeRecord (h.inRange id (List.mem_of_getElem? hid) hpos)]
      simp [hpos]
    case isFalse hpos => simp [IdTable.noExitOf_vacant, hpos]

end NodeRecords

namespace Import

open NodeRecords

variable {σ α : Type} [Scalar α]

/-- Whether some node with an id is marked as one where a dead end is to be expected. -/
def IsMarked (objects : List OsmObject) (id : Int64) : Prop :=
  ∃ n, .node n ∈ objects ∧ n.id = id ∧
    (n.tags.value? "noexit" = some "yes" ∨ ∃ v, n.tags.value? "entrance" = some v ∧ v ≠ "no")

theorem contains_marked_iff (objects : List OsmObject) (id : Int64) :
    ((nodesOf objects).foldl readNode NodeRecords.empty).marked.contains id = true ↔
      IsMarked objects id := by
  rw [contains_foldl_readNode]
  simp [NodeRecords.empty, mem_nodesOf, marksNoExit_iff, IsMarked]

theorem toNat_toUInt64 {id : Int64} (h : 0 < id) : (id.toUInt64.toNat : ℤ) = id.toInt := by
  have hpos : 0 < id.toInt := Int64.lt_iff_toInt_lt.mp h
  have hint : id.toInt = id.toBitVec.toInt := rfl
  have hnat : id.toUInt64.toNat = id.toBitVec.toNat := rfl
  have hlt := id.toBitVec.isLt
  rw [hint, BitVec.toInt_eq_toNat_cond] at hpos ⊢
  rw [hnat]
  split at hpos <;> omega

/-- The only id of a way without room is the one whose word is all ones. -/
theorem inRange_ways_iff {id : Int64} : IdTable.InRange .ways id.toUInt64 ↔ id ≠ -1 := by
  have hones : 2 ^ 64 - 1 = (-1 : Int64).toBitVec.toNat := by decide
  change ¬ id.toBitVec.toNat = 2 ^ 64 - 1 ↔ id ≠ -1
  rw [hones, BitVec.toNat_inj, Int64.toBitVec_inj]

/-- The map nodes without room are those with an id of more than 56 bits; nodes that are not in the
map need none. -/
theorem inRange_nodes_iff {id : Int64} :
    (0 < id → IdTable.InRange .nodes id.toUInt64) ↔ id.toInt < 2 ^ 56 := by
  by_cases hpos : 0 < id
  · have hnat := toNat_toUInt64 hpos
    rw [IdTable.InRange, imp_iff_right hpos]
    omega
  · have hle : id.toInt ≤ 0 := Int64.le_iff_toInt_le.mp (Int64.not_lt.mp hpos)
    exact iff_of_true (fun h => absurd h hpos) (hle.trans_lt (by norm_num))

theorem hasRecorded_of_import {c : Collector σ} {view : σ → NodeRecords} {held last : σ}
    {objects : List OsmObject} {ids : List Int64} (hpart : c.HasPart view NodeRecords.collector)
    (hstart : view held = NodeRecords.empty)
    (h : c.recordAll (c.readTwice held objects) ids = .ok last) :
    HasRecorded ((nodesOf objects).foldl readNode NodeRecords.empty).marked ids (view last) := by
  have hrecorded :=
    hasRecorded_of_recordAll (table_readTwice hpart hstart objects) (hpart.recordAll h)
  rwa [view_readTwice hpart, hstart] at hrecorded

/-- The nodes of an imported graph stand for nodes of the map, each for one of its own, and the
table of node ids agrees with that: of a node that stands for one with a positive id it has this
id, and the mark if any node object with the id is marked; of all others it has neither. -/
theorem nodes_recorded {c : Collector σ} {view : σ → NodeRecords} {held : σ}
    {objects : List OsmObject} {a : Assembly σ α}
    (hpart : c.HasPart view NodeRecords.collector) (hstart : view held = NodeRecords.empty)
    (h : run c held (.objects objects) = .ok a) :
    ∃ ids : List Int64, ids.length = a.graph.nodeCount ∧
      (∀ (i : Nat) id, a.nodeOf[id]? = some i ↔ ids[i]? = some id) ∧
      (∀ (i : Nat) id, ids[i]? = some id →
        ∃ n, .node n ∈ objects ∧ n.id = id ∧ a.graph.point? i = some n.point) ∧
      (∀ (i : Nat) id, ids[i]? = some id → 0 < id →
        (∃ osmId, (view a.held).table.osmId? i = some osmId ∧ (osmId.toNat : ℤ) = id.toInt) ∧
          ((view a.held).table.noExit i = true ↔ IsMarked objects id)) ∧
      (∀ (i : Nat) id, ids[i]? = some id → id ≤ 0 →
        (view a.held).table.osmId? i = none ∧ (view a.held).table.noExit i = false) ∧
      ∀ i, a.graph.nodeCount ≤ i →
        (view a.held).table.osmId? i = none ∧ (view a.held).table.noExit i = false := by
  obtain ⟨ids, hcount, hnodeOf, hplace, htold⟩ := exists_numbering h
  have hrecorded := hasRecorded_of_import hpart hstart htold
  refine ⟨ids, hcount, hnodeOf, fun i id hid => ?_, fun i id hid hpos => ?_,
    fun i id hid hle => ?_, fun i hi => ?_⟩
  · obtain ⟨p, hp, hpoint⟩ := hplace i id hid
    obtain ⟨n, hn, hnid, rfl⟩ := exists_node_of_lastPlace hp
    exact ⟨n, hn, hnid, hpoint⟩
  · rw [hrecorded.osmId?_eq, hrecorded.noExit_eq, hid, ← contains_marked_iff]
    exact ⟨⟨id.toUInt64, if_pos hpos, toNat_toUInt64 hpos⟩, by simp [hpos]⟩
  · have hnot := Int64.not_lt.mpr hle
    rw [hrecorded.osmId?_eq, hrecorded.noExit_eq, hid]
    exact ⟨if_neg hnot, by simp [hnot]⟩
  · rw [hrecorded.osmId?_eq, hrecorded.noExit_eq, List.getElem?_eq_none (hcount.trans_le hi)]
    exact ⟨rfl, rfl⟩

def lane : List OsmObject :=
  [.node ⟨1, 0, 0, ⟨[("entrance", "main")]⟩⟩, .node ⟨2, 1000, 0, ⟨[]⟩⟩,
    .node ⟨-3, 2000, 0, ⟨[("noexit", "yes")]⟩⟩,
    .way ⟨7, [1, 2, -3], ⟨[("highway", "residential")]⟩⟩]

theorem freeRoads_lane : freeRoads (fun _ => true) lane =
    [⟨7, [1, 2, -3], .pack .residential false .ground false⟩] := by
  decide

/-- The entrance has its id and its mark, the other end of the lane has no record. -/
theorem nodes_recorded_lane :
    ∃ (a : Assembly NodeRecords Float) (i j : Nat),
      run NodeRecords.collector NodeRecords.empty (.objects lane) = .ok a ∧
      a.nodeOf[(1 : Int64)]? = some i ∧ a.held.table.noExit i = true ∧
      a.nodeOf[(-3 : Int64)]? = some j ∧ a.held.table.osmId? j = none := by
  have hfree : ∀ held w, (NodeRecords.collector.readWay held w).2 = true := fun _ _ => rfl
  have htable : (NodeRecords.collector.readTwice NodeRecords.empty lane).table =
      IdTable.empty .nodes := table_readTwice (.self _) rfl lane
  obtain ⟨a, ha⟩ : ∃ a : Assembly NodeRecords Float,
      run NodeRecords.collector NodeRecords.empty (.objects lane) = .ok a := by
    refine exists_run hfree (accepts_collector htable) ?_ ?_ ?_ <;> rw [freeRoads_lane]
    · rw [List.forall_mem_singleton, List.forall_mem_cons, List.forall_mem_cons,
        List.forall_mem_singleton]
      decide
    · rw [List.forall_mem_singleton]
      decide
    · exact ⟨_, List.mem_singleton_self _, by decide⟩
  have hassembled := assembled_of_run hfree ha
  obtain ⟨i, hi⟩ := (hassembled.numbered.mem_iff 1).mp (by decide)
  obtain ⟨j, hj⟩ := (hassembled.numbered.mem_iff (-3)).mp (by decide)
  obtain ⟨ids, -, hnodeOf, -, hmap, hnew, -⟩ := nodes_recorded (.self _) rfl ha
  have hentrance : IsMarked lane 1 :=
    ⟨⟨1, 0, 0, ⟨[("entrance", "main")]⟩⟩, by simp [lane], rfl, .inr ⟨"main", rfl, by decide⟩⟩
  exact ⟨a, i, j, ha, hi, (hmap i 1 ((hnodeOf i 1).mp hi) (by decide)).2.mpr hentrance, hj,
    (hnew j (-3) ((hnodeOf j (-3)).mp hj) (by decide)).1⟩

end Import
end RoadAudit
