import Mathlib
import RoadAudit.Proofs.Numeric.BinaryOrder
import RoadAudit.Proofs.Wire.Field
import RoadAudit.Snapshot.Format

/-! # Snapshots read back

A snapshot gives the graph and the barriers back as they were, but for the sign of a zero: a number
field that is zero is left out, and what is left out is read as the zero without a sign. Packed
coordinates keep all their bits. -/

namespace RoadAudit

/-! ## What is stored -/

def unsigned (x : Float) : Float := if Scalar.same x 0 then 0 else x

theorem eq_zero_of_same {x : Float} (h : Scalar.same x 0 = true) : x = 0 ∨ x = -0 := by
  rw [Scalar.same, Bool.and_eq_true, decide_eq_true_iff, decide_eq_true_iff,
    Binary64.float_le_iff, Binary64.float_le_iff] at h
  obtain ⟨⟨k, hk, l, hl, hkl⟩, l', hl', k', hk', hlk⟩ := h
  obtain rfl := Option.some.inj (hl.symm.trans hl')
  obtain rfl := Option.some.inj (hk.symm.trans hk')
  obtain rfl := le_antisymm hkl hlk
  have hx : Binary64.key x.toModel.unpack = some k := hk
  have hzero : Binary64.key (0 : Float).toModel.unpack = some k := hl
  -- numbers with one key compare as equal, and only the zeros do so without being the same
  have hcompare : x.toModel.unpack.compare (0 : Float).toModel.unpack = some .eq := by
    rw [Binary64.compare_eq_key, hx, hzero, Option.map₂_some_some, compare_eq_iff_eq.mpr rfl]
  have hbeq : (x == 0) = true := by
    change (x.toModel.unpack.compare (0 : Float).toModel.unpack == some .eq) = true
    rw [hcompare]
    rfl
  rcases (Float.beq_iff_ne_nan_and_eq.mp hbeq).2.2 with rfl | ⟨rfl, -⟩ | ⟨rfl, -⟩
  · exact .inl rfl
  · exact .inl rfl
  · exact .inr rfl

theorem unsigned_eq_self {x : Float} (h : x ≠ -0) : unsigned x = x := by
  unfold unsigned
  split
  case isTrue hsame => exact ((eq_zero_of_same hsame).resolve_right h).symm
  case isFalse => rfl

def Node.unsigned (n : Node Float) : Node Float :=
  { n with point := ⟨RoadAudit.unsigned n.point.lat, RoadAudit.unsigned n.point.lon⟩ }

def Edge.unsigned (e : Edge Float) : Edge Float := { e with length := RoadAudit.unsigned e.length }

def RoadGraph.unsigned (g : RoadGraph Float) : RoadGraph Float where
  nodes := g.nodes.map Node.unsigned
  edges := g.edges.map Edge.unsigned
  ends := by
    intro f hf
    obtain ⟨e, he, rfl⟩ := Array.mem_map.mp hf
    simpa [Edge.unsigned] using g.ends e he

namespace Snapshot

open Wire

theorem doubleOfBits_doubleBits (x : Float) : doubleOfBits (doubleBits x) = x := by
  rw [doubleOfBits, doubleBits, UInt64.ofNat_toNat, Float.ofBits_toBits]

theorem doubleBits_lt (x : Float) : doubleBits x < 2 ^ 64 := x.toBits.toNat_lt

/-! ## Fields that may be left out -/

section Fields

variable {β : Type} (merge : β → WireField → Option β) {b : β} {number : Nat}

theorem foldlM_doubleField (set : Float → β)
    (hmerge : ∀ w, merge b (number, .fixed64 w) = some (set (doubleOfBits w))) (hzero : set 0 = b)
    (x : Float) : (doubleField number x).foldlM merge b = some (set (unsigned x)) := by
  unfold doubleField unsigned
  split
  · rw [hzero]
    rfl
  · rw [List.foldlM_cons, hmerge, doubleOfBits_doubleBits]
    rfl

theorem foldlM_natField (set : Nat → β) {n : Nat} (hn : n < Word.size32)
    (hmerge : merge b (number, .varint n) = some (set n)) (hzero : set 0 = b) :
    (natField number n).foldlM merge b = some (set n) := by
  rw [natField, Nat.mod_eq_of_lt hn]
  split
  case isTrue h =>
    rw [h, hzero]
    rfl
  case isFalse =>
    rw [List.foldlM_cons, hmerge]
    rfl

theorem foldlM_boolField (set : Bool → β) (hmerge : merge b (number, .varint 1) = some (set true))
    (hfalse : set false = b) (x : Bool) : (boolField number x).foldlM merge b = some (set x) := by
  cases x with
  | false =>
    rw [hfalse]
    rfl
  | true =>
    rw [boolField, if_pos rfl, List.foldlM_cons, hmerge]
    rfl

end Fields

section Bounds

variable {number : Nat} (hpos : 1 ≤ number) (hlt : number < 16)
include hpos hlt

theorem bounded_doubleField (x : Float) : Bounded (doubleField number x) 11 := by
  unfold doubleField
  split
  · exact bounded_nil 11
  · exact bounded_singleton hpos hlt (doubleBits_lt x)

theorem bounded_natField (n : Nat) : Bounded (natField number n) 11 := by
  unfold natField
  split
  · exact bounded_nil 11
  · have hn : n % Word.size32 < 2 ^ 64 := (Nat.mod_lt n (by decide)).trans (by decide)
    exact bounded_singleton hpos hlt hn

theorem bounded_boolField (x : Bool) : Bounded (boolField number x) 11 := by
  cases x with
  | false => exact bounded_nil 11
  | true =>
    have hone : 1 < 2 ^ 64 := by decide
    exact bounded_singleton hpos hlt hone

end Bounds

/-! ## Nodes and edges -/

theorem bounded_nodeFields (n : Node Float) : Bounded (nodeFields n) 33 :=
  ((bounded_doubleField (by decide) (by decide) _).append
    (bounded_doubleField (by decide) (by decide) _)).append
    (bounded_boolField (by decide) (by decide) _)

theorem foldlM_nodeFields (n : Node Float) :
    (nodeFields n).foldlM mergeNode ⟨⟨0, 0⟩, false⟩ = some n.unsigned := by
  have hlat : (doubleField 1 n.point.lat).foldlM mergeNode ⟨⟨0, 0⟩, false⟩ =
      some ⟨⟨unsigned n.point.lat, 0⟩, false⟩ :=
    foldlM_doubleField mergeNode (fun x => ⟨⟨x, 0⟩, false⟩) (fun _ => rfl) rfl _
  have hlon : (doubleField 2 n.point.lon).foldlM mergeNode ⟨⟨unsigned n.point.lat, 0⟩, false⟩ =
      some ⟨⟨unsigned n.point.lat, unsigned n.point.lon⟩, false⟩ :=
    foldlM_doubleField mergeNode (fun x => ⟨⟨unsigned n.point.lat, x⟩, false⟩) (fun _ => rfl) rfl _
  have hremoved : (boolField 3 n.removed).foldlM mergeNode
      ⟨⟨unsigned n.point.lat, unsigned n.point.lon⟩, false⟩ = some n.unsigned :=
    foldlM_boolField mergeNode (fun x => ⟨⟨unsigned n.point.lat, unsigned n.point.lon⟩, x⟩) rfl rfl _
  simp only [nodeFields, List.foldlM_append, hlat, hlon, hremoved, Option.bind_eq_bind,
    Option.bind_some]

theorem bounded_edgeFields (e : Edge Float) (course : Nat) :
    Bounded (edgeFields e course) 55 :=
  ((((bounded_natField (by decide) (by decide) _).append
    (bounded_natField (by decide) (by decide) _)).append
    (bounded_doubleField (by decide) (by decide) _)).append
    (bounded_natField (by decide) (by decide) _)).append
    (bounded_natField (by decide) (by decide) _)

theorem foldlM_edgeFields {e : Edge Float} {course : Nat} (hbase : e.base < Word.size32)
    (hadj : e.adj < Word.size32) (hcourse : course < Word.size32) :
    (edgeFields e course).foldlM mergeEdge ⟨⟨0, 0, 0, ⟨0⟩, []⟩, 0⟩ =
      some ⟨{ e.unsigned with pillars := [] }, course⟩ := by
  have h1 : (natField 1 e.base).foldlM mergeEdge ⟨⟨0, 0, 0, ⟨0⟩, []⟩, 0⟩ =
      some ⟨⟨e.base, 0, 0, ⟨0⟩, []⟩, 0⟩ :=
    foldlM_natField mergeEdge (fun n => ⟨⟨n, 0, 0, ⟨0⟩, []⟩, 0⟩) hbase
      (by simp only [mergeEdge, Nat.mod_eq_of_lt hbase]) rfl
  have h2 : (natField 2 e.adj).foldlM mergeEdge ⟨⟨e.base, 0, 0, ⟨0⟩, []⟩, 0⟩ =
      some ⟨⟨e.base, e.adj, 0, ⟨0⟩, []⟩, 0⟩ :=
    foldlM_natField mergeEdge (fun n => ⟨⟨e.base, n, 0, ⟨0⟩, []⟩, 0⟩) hadj
      (by simp only [mergeEdge, Nat.mod_eq_of_lt hadj]) rfl
  have h3 : (doubleField 3 e.length).foldlM mergeEdge ⟨⟨e.base, e.adj, 0, ⟨0⟩, []⟩, 0⟩ =
      some ⟨⟨e.base, e.adj, unsigned e.length, ⟨0⟩, []⟩, 0⟩ :=
    foldlM_doubleField mergeEdge (fun x => ⟨⟨e.base, e.adj, x, ⟨0⟩, []⟩, 0⟩) (fun _ => rfl) rfl _
  have h4 : (natField 4 e.flags.bits.toNat).foldlM mergeEdge
      ⟨⟨e.base, e.adj, unsigned e.length, ⟨0⟩, []⟩, 0⟩ =
      some ⟨⟨e.base, e.adj, unsigned e.length, e.flags, []⟩, 0⟩ :=
    (foldlM_natField mergeEdge
      (fun n => ⟨⟨e.base, e.adj, unsigned e.length, ⟨UInt32.ofNat n⟩, []⟩, 0⟩)
      e.flags.bits.toNat_lt rfl rfl).trans (by rw [UInt32.ofNat_toNat])
  have h5 : (natField 5 course).foldlM mergeEdge
      ⟨⟨e.base, e.adj, unsigned e.length, e.flags, []⟩, 0⟩ =
      some ⟨⟨e.base, e.adj, unsigned e.length, e.flags, []⟩, course⟩ :=
    foldlM_natField mergeEdge (fun n => ⟨⟨e.base, e.adj, unsigned e.length, e.flags, []⟩, n⟩)
      hcourse (by simp only [mergeEdge, Nat.mod_eq_of_lt hcourse]) rfl
  simp only [edgeFields, List.foldlM_append, h1, h2, h3, h4, h5, Option.bind_eq_bind,
    Option.bind_some]
  rfl

/-! ## Lines -/

def coordinates (line : List (Point Float)) : List Float := line.flatMap fun p => [p.lat, p.lon]

theorem pointsOf_coordinates (line : List (Point Float)) : pointsOf (coordinates line) = line := by
  induction line with
  | nil => rfl
  | cons p line ih =>
    change p :: pointsOf (coordinates line) = p :: line
    rw [ih]

def putDoubles (xs : List Float) : List UInt8 := xs.flatMap fun x => putFixed 8 (doubleBits x)

theorem length_putDoubles (xs : List Float) : (putDoubles xs).length = 8 * xs.length := by
  induction xs with
  | nil => rfl
  | cons x xs ih =>
    rw [putDoubles, List.flatMap_cons, List.length_append, List.length_cons]
    have hx : (putFixed 8 (doubleBits x)).length = 8 := by simp [putFixed]
    rw [putDoubles] at ih
    omega

theorem doubles?_putDoubles (xs : List Float) {fuel : Nat} (h : xs.length ≤ fuel) :
    doubles? fuel (putDoubles xs) = some xs := by
  induction xs generalizing fuel with
  | nil => cases fuel <;> rfl
  | cons x xs ih =>
    cases fuel with
    | zero => simp at h
    | succ fuel =>
      have hrest := ih (Nat.le_of_succ_le_succ h)
      have hne : (putFixed 8 (doubleBits x) ++ putDoubles xs).isEmpty = false := by
        simp [putFixed, bigEndian]
      have hsplit : putDoubles (x :: xs) = putFixed 8 (doubleBits x) ++ putDoubles xs :=
        List.flatMap_cons
      rw [hsplit, doubles?, hne,
        fixed?_putFixed (lt_of_lt_of_eq (doubleBits_lt x) (by norm_num))]
      change (doubles? fuel (putDoubles xs)).map (doubleOfBits (doubleBits x) :: ·) = _
      rw [hrest, doubleOfBits_doubleBits]
      rfl

theorem lineFields_eq (line : List (Point Float)) :
    lineFields line =
      if line.isEmpty then [] else [(1, .delimited (putDoubles (coordinates line)))] := by
  simp [lineFields, putDoubles, coordinates, List.flatMap_assoc]

theorem length_coordinates (line : List (Point Float)) :
    (coordinates line).length = 2 * line.length := by
  simp [coordinates, Nat.mul_comm]

theorem bounded_lineFields {line : List (Point Float)} (h : line.length < 2 ^ 60) :
    Bounded (lineFields line) (16 * line.length + 11) := by
  have hlength : (putDoubles (coordinates line)).length = 16 * line.length := by
    rw [length_putDoubles, length_coordinates]
    omega
  rw [lineFields_eq]
  split
  · exact bounded_nil _
  · have hroom : (putDoubles (coordinates line)).length < 2 ^ 64 := by omega
    rw [← hlength]
    exact bounded_singleton (by decide) (by decide) hroom

theorem foldlM_lineFields (line : List (Point Float)) :
    (lineFields line).foldlM mergeLine [] = some (coordinates line) := by
  rw [lineFields_eq]
  split
  case isTrue h =>
    rw [List.isEmpty_iff.mp h]
    rfl
  case isFalse =>
    have hfuel : (coordinates line).length ≤ (putDoubles (coordinates line)).length := by
      rw [length_putDoubles]
      omega
    rw [List.foldlM_cons, mergeLine, doubles?_putDoubles _ hfuel]
    rfl

/-! ## The whole message -/

theorem part?_putFields {β : Type} (merge : β → WireField → Option β) (start : β)
    {fields : List WireField} {bound : Nat} (h : Bounded fields bound) :
    part? merge start (putFields fields) = fields.foldlM merge start := by
  rw [part?, fields?_putFields _ h.fits]
  rfl

theorem fits_messageField {number : Nat} {fields : List WireField} {bound : Nat}
    (hpos : 1 ≤ number) (hlt : number < 2 ^ 29) (h : Bounded fields bound)
    (hbound : bound < 2 ^ 64) : (messageField number fields).Fits :=
  ⟨hpos, hlt, h.length_le.trans_lt hbound⟩

/-- A graph and lines for which the numbers and lengths of a snapshot have room. -/
structure HasRoom (g : RoadGraph Float) (lines : List (List (Point Float))) : Prop where
  nodes_le : g.nodeCount ≤ 2 ^ 32
  edges_le : g.edgeCount ≤ 2 ^ 32
  pillars_lt : ∀ e ∈ g.edges, e.pillars.length < 2 ^ 60
  lines_lt : ∀ line ∈ lines, line.length < 2 ^ 60

variable {g : RoadGraph Float} {lines : List (List (Point Float))}

theorem fits_of_mem_graphFields (h : HasRoom g lines) {f : WireField}
    (hf : f ∈ graphFields g lines) : f.Fits := by
  rcases List.mem_append.mp hf with hf | hf
  · rcases List.mem_append.mp hf with hf | hf
    · rcases List.mem_append.mp hf with hf | hf
      · obtain ⟨n, -, rfl⟩ := List.mem_map.mp hf
        exact fits_messageField (by decide) (by decide) (bounded_nodeFields n) (by decide)
      · obtain ⟨⟨e, i⟩, -, rfl⟩ := List.mem_map.mp hf
        exact fits_messageField (by decide) (by decide) (bounded_edgeFields e i) (by decide)
    · obtain ⟨e, he, rfl⟩ := List.mem_map.mp hf
      have he := h.pillars_lt e (Array.mem_toList_iff.mp he)
      exact fits_messageField (by decide) (by decide) (bounded_lineFields he) (by omega)
  · obtain ⟨line, hline, rfl⟩ := List.mem_map.mp hf
    have hline := h.lines_lt line hline
    exact fits_messageField (by decide) (by decide) (bounded_lineFields hline) (by omega)

theorem foldlM_map_cons {β γ μ : Type} (merge : μ → WireField → Option μ) (set : List γ → μ)
    {put : β → WireField} {read : β → γ} {l : List β}
    (hmerge : ∀ b ∈ l, ∀ done, merge (set done) (put b) = some (set (read b :: done)))
    (done : List γ) :
    (l.map put).foldlM merge (set done) = some (set ((l.map read).reverse ++ done)) := by
  induction l generalizing done with
  | nil => rfl
  | cons b l ih =>
    have hb := hmerge b List.mem_cons_self done
    have hrest := ih (fun c hc => hmerge c (List.mem_cons_of_mem b hc)) (read b :: done)
    rw [List.map_cons, List.foldlM_cons, hb]
    refine hrest.trans ?_
    simp

/-- The parts of a snapshot. -/
def storedMessage (g : RoadGraph Float) (lines : List (List (Point Float))) : Message where
  nodes := g.nodes.toList.map Node.unsigned
  edges := g.edges.toList.zipIdx.map fun (e, i) => ⟨{ e.unsigned with pillars := [] }, i⟩
  courses := g.edges.toList.map fun e => coordinates e.pillars
  barriers := lines.map coordinates

theorem part?_line {line : List (Point Float)} (h : line.length < 2 ^ 60) :
    part? mergeLine [] (putFields (lineFields line)) = some (coordinates line) :=
  (part?_putFields _ _ (bounded_lineFields h)).trans (foldlM_lineFields line)

theorem foldlM_nodeMessages (nodes : List (Node Float)) :
    (nodes.map fun n => messageField 1 (nodeFields n)).foldlM mergeMessage ⟨[], [], [], []⟩ =
      some ⟨(nodes.map Node.unsigned).reverse ++ [], [], [], []⟩ := by
  refine foldlM_map_cons mergeMessage (fun done => ⟨done, [], [], []⟩) (fun n _ done => ?_) []
  have hpart : part? mergeNode ⟨⟨0, 0⟩, false⟩ (putFields (nodeFields n)) = some n.unsigned :=
    (part?_putFields _ _ (bounded_nodeFields n)).trans (foldlM_nodeFields n)
  rw [messageField, mergeMessage, hpart]
  rfl

theorem foldlM_edgeMessages (h : HasRoom g lines) (nodes : List (Node Float)) :
    (g.edges.toList.zipIdx.map fun (e, i) => messageField 2 (edgeFields e i)).foldlM mergeMessage
        ⟨nodes, [], [], []⟩ =
      some ⟨nodes, (storedMessage g lines).edges.reverse ++ [], [], []⟩ := by
  refine foldlM_map_cons mergeMessage (fun done => ⟨nodes, done, [], []⟩) (fun p hp done => ?_) []
  obtain ⟨e, i⟩ := p
  have hi := List.mem_zipIdx_iff_getElem?.mp hp
  rw [Array.getElem?_toList] at hi
  have hends := g.ends e (Array.mem_of_getElem? hi)
  have hlt : i < g.edges.size := (Array.getElem?_eq_some_iff.mp hi).1
  have hnodes : g.nodes.size ≤ Word.size32 := h.nodes_le
  have hedges : g.edges.size ≤ Word.size32 := h.edges_le
  have hpart : part? mergeEdge ⟨⟨0, 0, 0, ⟨0⟩, []⟩, 0⟩ (putFields (edgeFields e i)) =
      some ⟨{ e.unsigned with pillars := [] }, i⟩ :=
    (part?_putFields _ _ (bounded_edgeFields e i)).trans
      (foldlM_edgeFields (by omega) (by omega) (by omega))
  dsimp only
  rw [messageField, mergeMessage, hpart]
  rfl

theorem foldlM_courseMessages (h : HasRoom g lines) (nodes : List (Node Float))
    (edges : List EdgeRecord) :
    (g.edges.toList.map fun e => messageField 3 (lineFields e.pillars)).foldlM mergeMessage
        ⟨nodes, edges, [], []⟩ =
      some ⟨nodes, edges, (storedMessage g lines).courses.reverse ++ [], []⟩ := by
  refine foldlM_map_cons mergeMessage (fun done => ⟨nodes, edges, done, []⟩)
    (fun e he done => ?_) []
  rw [messageField, mergeMessage, part?_line (h.pillars_lt e (Array.mem_toList_iff.mp he))]
  rfl

theorem foldlM_barrierMessages (h : HasRoom g lines) (nodes : List (Node Float))
    (edges : List EdgeRecord) (courses : List (List Float)) :
    (lines.map fun line => messageField 4 (lineFields line)).foldlM mergeMessage
        ⟨nodes, edges, courses, []⟩ =
      some ⟨nodes, edges, courses, (storedMessage g lines).barriers.reverse ++ []⟩ := by
  refine foldlM_map_cons mergeMessage (fun done => ⟨nodes, edges, courses, done⟩)
    (fun line hline done => ?_) []
  rw [messageField, mergeMessage, part?_line (h.lines_lt line hline)]
  rfl

/-- The bytes of a snapshot are a message with its fields. -/
theorem fields?_encode (h : HasRoom g lines) :
    fields? groupDepth (encode g lines) = some (graphFields g lines) :=
  fields?_putFields groupDepth fun _ => fits_of_mem_graphFields h

theorem message?_encode (h : HasRoom g lines) :
    message? (encode g lines) = some (storedMessage g lines) := by
  rw [message?, fields?_encode h]
  simp only [graphFields, List.foldlM_append, foldlM_nodeMessages, foldlM_edgeMessages h,
    foldlM_courseMessages h, foldlM_barrierMessages h, Option.bind_eq_bind, Option.bind_some]
  simp [storedMessage]

theorem courses_storedMessage (g : RoadGraph Float) (lines : List (List (Point Float))) :
    ((storedMessage g lines).courses.map pointsOf).toArray = g.edges.map Edge.pillars := by
  apply Array.toList_inj.mp
  simp [storedMessage, pointsOf_coordinates, Function.comp_def]

theorem edges_storedMessage (g : RoadGraph Float) (lines : List (List (Point Float))) :
    ((storedMessage g lines).edges.map fun r =>
      { r.edge with pillars := ((g.edges.map Edge.pillars)[r.course]?).getD [] }).toArray =
      g.unsigned.edges := by
  have heach : ∀ p ∈ g.edges.toList.zipIdx,
      { p.1.unsigned with pillars := ((g.edges.map Edge.pillars)[p.2]?).getD [] } =
        p.1.unsigned := by
    intro p hp
    have hi := List.mem_zipIdx_iff_getElem?.mp hp
    rw [Array.getElem?_toList] at hi
    rw [Array.getElem?_map, hi]
    rfl
  have hids : g.edges.toList.zipIdx.map (fun p => p.1.unsigned) =
      g.edges.toList.map Edge.unsigned := by
    conv_rhs => rw [← List.zipIdx_map_fst 0 g.edges.toList, List.map_map]
    rfl
  apply Array.toList_inj.mp
  rw [storedMessage, List.map_map, RoadGraph.unsigned, Array.toList_map, ← hids]
  exact List.map_congr_left heach

theorem graph?_storedMessage (g : RoadGraph Float) (lines : List (List (Point Float))) :
    (storedMessage g lines).graph? = some g.unsigned := by
  have hnodes : (storedMessage g lines).nodes.toArray = g.unsigned.nodes := by
    apply Array.toList_inj.mp
    simp [storedMessage, RoadGraph.unsigned]
  simp only [Message.graph?, courses_storedMessage, edges_storedMessage, hnodes]
  rw [RoadGraph.ofParts?, dif_pos g.unsigned.ends]

theorem decode_encode (h : HasRoom g lines) :
    decode (encode g lines) = .ok (g.unsigned, lines) := by
  have hlines : (lines.map coordinates).map pointsOf = lines := by
    rw [List.map_map]
    exact List.map_id'' pointsOf_coordinates lines
  rw [decode, message?_encode h]
  simp only [graph?_storedMessage]
  rw [storedMessage, hlines]

end Snapshot
end RoadAudit
