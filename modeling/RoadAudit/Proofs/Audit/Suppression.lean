import Mathlib.Tactic
import RoadAudit.Proofs.Audit.Duplicates
import RoadAudit.Proofs.Audit.Failures

/-! # Suppression only suppresses

More barriers, more nodes marked as having no exit, and the comparison of routes can only take
missing connections away. They are no part of the search for the match of a dead end: that stays the
same, and what is still reported of it is the same but for the priority number, which grows by one
at most, and only where routes begin to be compared. -/

namespace RoadAudit

open scoped Scalar

variable {α : Type} [Scalar α]

theorem BarrierIndex.crosses_mono {x x' : BarrierIndex α} (h : ∀ line ∈ x.lines, line ∈ x'.lines)
    {p q : Point α} (hcrosses : x.crosses p q = true) : x'.crosses p q = true := by
  rw [crosses, List.any_eq_true] at *
  obtain ⟨line, hline, hmeets⟩ := hcrosses
  exact ⟨line, h line hline, hmeets⟩

namespace AuditContext

/-- Whether a context adds to what another suppresses: it has the barriers of the other and maybe
more, marks the nodes that the other marks as having no exit and maybe more, compares routes if the
other does, and is the same in everything else. -/
structure AddsSuppression (ctx ctx' : AuditContext α) : Prop where
  graph : ctx'.graph = ctx.graph
  wayIds : ctx'.wayIds = ctx.wayIds
  settings : ctx'.settings = { ctx.settings with doRouting := ctx'.settings.doRouting }
  osmId : ∀ n, ctx'.nodeIds.osmId? n = ctx.nodeIds.osmId? n
  barriers : ∀ line ∈ ctx.barriers.lines, line ∈ ctx'.barriers.lines
  noExit : ∀ n, ctx.nodeIds.noExit n = true → ctx'.nodeIds.noExit n = true
  routing : ctx.settings.doRouting = true → ctx'.settings.doRouting = true

variable {ctx ctx' : AuditContext α} {n : Nat} {openEnd : Point α} {e : EdgeView α} {s : Snap α}

/-! ## What stays the same -/

section Same

variable (h : ctx.AddsSuppression ctx')

include h

omit [Scalar α] in
theorem AddsSuppression.isChecked (hchecked : ctx'.IsChecked n) : ctx.IsChecked n where
  kept := by rw [← h.graph, hchecked.kept]
  known := by
    obtain ⟨osmId, hid⟩ := hchecked.known
    exact ⟨osmId, by rw [← h.osmId, hid]⟩
  unmarked := by
    refine Bool.not_eq_true _ ▸ fun hmarked => ?_
    cases (h.noExit n hmarked).symm.trans hchecked.unmarked

theorem AddsSuppression.isUnconnected_iff :
    ctx'.IsUnconnected openEnd e s ↔ ctx.IsUnconnected openEnd e s := by
  have hradius : ctx'.settings.radius = ctx.settings.radius := by rw [h.settings]
  constructor
  · rintro ⟨hfound, hedge, hfar, hneighbour, hlevel, hapart⟩
    rw [h.graph, hradius] at hfound
    rw [h.graph] at hneighbour
    exact ⟨hfound, hedge, hfar, hneighbour, hlevel, hapart⟩
  · rintro ⟨hfound, hedge, hfar, hneighbour, hlevel, hapart⟩
    rw [← h.graph, ← hradius] at hfound
    rw [← h.graph] at hneighbour
    exact ⟨hfound, hedge, hfar, hneighbour, hlevel, hapart⟩

theorem AddsSuppression.faces_iff :
    ctx'.Faces n openEnd e s ↔ ctx'.IsChecked n ∧ ctx.Faces n openEnd e s := by
  have hsame : ctx'.IsUnconnected openEnd e = ctx.IsUnconnected openEnd e :=
    funext fun t => propext h.isUnconnected_iff
  constructor
  · rintro ⟨hchecked, hplace, hdead, hnearest⟩
    rw [h.graph] at hplace hdead
    exact ⟨hchecked, h.isChecked hchecked, hplace, hdead, hsame ▸ hnearest⟩
  · rintro ⟨hchecked, -, hplace, hdead, hnearest⟩
    rw [← h.graph] at hplace hdead
    exact ⟨hchecked, hplace, hdead, hsame ▸ hnearest⟩

theorem AddsSuppression.basePriority_eq : ctx'.basePriority e s = ctx.basePriority e s := by
  unfold basePriority
  rw [h.settings]

theorem AddsSuppression.besideDriveway_eq :
    ctx'.besideDriveway openEnd e s = ctx.besideDriveway openEnd e s := by
  unfold besideDriveway openHeading matchedAngle
  rw [h.graph]

theorem AddsSuppression.wayRound_eq : ctx'.wayRound n s = ctx.wayRound n s := by
  have hlimits : ctx'.searchLimits = ctx.searchLimits := by
    unfold searchLimits
    rw [h.settings]
    rfl
  unfold wayRound
  rw [h.graph, hlimits]

end Same

/-! ## What is added to a priority -/

theorem shortcut_cases (r : Route α) (gap : α) :
    shortcut r gap = 0 ∨ shortcut r gap = 1 ∨ shortcut r gap = suppression := by
  unfold shortcut
  dsimp only
  split
  · split
    · exact .inr (.inr rfl)
    · split
      · exact .inr (.inl rfl)
      · exact .inl rfl
  · exact .inl rfl

theorem AddsSuppression.decrement_cases (h : ctx.AddsSuppression ctx') {added added' : Int}
    (hadded : ctx.decrement n openEnd e s = .ok added)
    (hadded' : ctx'.decrement n openEnd e s = .ok added') :
    added' = added ∨ ctx.settings.doRouting = false ∧ ctx'.settings.doRouting = true ∧
      added = 0 ∧ (added' = 0 ∨ added' = 1 ∨ added' = suppression) := by
  unfold decrement at hadded hadded'
  dsimp only at hadded hadded'
  rw [h.besideDriveway_eq, h.wayRound_eq] at hadded'
  by_cases hdriveway : e.edge.flags.roadClass.isDrivewayLike = true
  · rw [if_pos hdriveway] at hadded hadded'
    exact .inl (Except.ok.inj (hadded'.symm.trans hadded))
  rw [if_neg hdriveway] at hadded hadded'
  cases hbefore : ctx.settings.doRouting with
  | true =>
    rw [hbefore] at hadded
    rw [h.routing hbefore] at hadded'
    exact .inl (Except.ok.inj (hadded'.symm.trans hadded))
  | false =>
    rw [hbefore, Bool.and_false, if_neg (by decide)] at hadded
    obtain rfl := Except.ok.inj hadded
    cases hafter : ctx'.settings.doRouting with
    | false =>
      rw [hafter, Bool.and_false, if_neg (by decide)] at hadded'
      exact .inl (Except.ok.inj hadded').symm
    | true =>
      rw [hafter, Bool.and_true] at hadded'
      split at hadded'
      · cases hway : ctx.wayRound n s with
        | error cause =>
          rw [hway] at hadded'
          cases hadded'
        | ok r =>
          rw [hway] at hadded'
          obtain rfl := Except.ok.inj hadded'
          exact .inr ⟨rfl, rfl, rfl, shortcut_cases r s.distance⟩
      · exact .inl (Except.ok.inj hadded').symm

/-! ## Missing connections -/

/-- Whether a missing connection is another with its priority number, which may be greater by one if
routes begin to be compared. -/
structure IsSuppressedOf (ctx ctx' : AuditContext α) (m m' : MissingConnection α) : Prop where
  same : m' = { m with priority := m'.priority }
  priority : m'.priority = m.priority ∨ ctx.settings.doRouting = false ∧
    ctx'.settings.doRouting = true ∧ m'.priority = m.priority + 1

theorem AddsSuppression.exists_isGap (h : ctx.AddsSuppression ctx') {m' : MissingConnection α}
    (hgap' : ctx'.IsGap m' e s) {added : Int}
    (hadded : ctx.decrement m'.nodeId m'.openEnd e s = .ok added) :
    ∃ m, ctx.IsGap m e s ∧ ctx.IsSuppressedOf ctx' m m' := by
  obtain ⟨hfaces, hknown, hsnapPoint, hdistance, hposition, hroadClass, hisPrivate, hopen, hbase,
    ⟨added', hadded', hpriority⟩, hone, hsix⟩ := hgap'
  rw [h.basePriority_eq] at hbase hpriority
  rw [h.osmId] at hknown
  have hopen' : ctx.barriers.crosses m'.openEnd m'.snapPoint = false := by
    refine Bool.not_eq_true _ ▸ fun hcrosses => ?_
    rw [BarrierIndex.crosses_mono h.barriers hcrosses] at hopen
    cases hopen
  have hreported : 1 ≤ ctx.basePriority e s + added ∧ ctx.basePriority e s + added ≤ 6 ∧
      (m'.priority = ctx.basePriority e s + added ∨ ctx.settings.doRouting = false ∧
        ctx'.settings.doRouting = true ∧ m'.priority = ctx.basePriority e s + added + 1) := by
    rcases h.decrement_cases hadded hadded' with rfl | ⟨hbefore, hafter, rfl, hcases⟩
    · exact ⟨by omega, by omega, .inl hpriority⟩
    · rcases hcases with rfl | rfl | rfl
      · exact ⟨by omega, by omega, .inl hpriority⟩
      · exact ⟨by omega, by omega, .inr ⟨hbefore, hafter, by omega⟩⟩
      · rw [suppression] at hpriority
        omega
  obtain ⟨hone', hsix', hchange⟩ := hreported
  refine ⟨{ m' with priority := ctx.basePriority e s + added }, ?_, rfl, hchange⟩
  exact ⟨(h.faces_iff.mp hfaces).2, hknown, hsnapPoint, hdistance, hposition, hroadClass,
    hisPrivate, hopen', hbase, ⟨added, hadded, rfl⟩, hone', hsix'⟩

variable [Scalar.LawfulOrder α]

theorem Faces.exists_decrement {fs : List (Finding α)} (hfaces : ctx.Faces n openEnd e s)
    (hnode : ctx.checkNode n = .ok fs) (hopen : ctx.barriers.crosses openEnd s.snapped = false)
    (hbase : 0 < ctx.basePriority e s) : ∃ added, ctx.decrement n openEnd e s = .ok added := by
  cases hadded : ctx.decrement n openEnd e s with
  | ok added => exact ⟨added, rfl⟩
  | error cause =>
    obtain ⟨hlost, hcause⟩ :=
      (decrement_eq_error_iff hfaces.edge_mem hfaces.fitsCourse).mp hadded
    have herror : ctx.checkNode n = .error cause :=
      checkNode_eq_error_iff.mpr ⟨openEnd, e, s, hfaces, hopen, hbase, hlost, hcause⟩
    cases hnode.symm.trans herror

theorem AddsSuppression.missing (h : ctx.AddsSuppression ctx') {start stop : Nat}
    {fs fs' : List (Finding α)} (hrun : ctx.checkRange start stop = .ok fs)
    (hrun' : ctx'.checkRange start stop = .ok fs') :
    ∀ m' ∈ missingOf fs', ∃ m ∈ missingOf fs, ctx.IsSuppressedOf ctx' m m' := by
  intro m' hm'
  obtain ⟨hstart, hstop, e, s, hgap'⟩ := (mem_missingOf_iff hrun').mp hm'
  have hopen : ctx.barriers.crosses m'.openEnd s.snapped = false := by
    refine Bool.not_eq_true _ ▸ fun hcrosses => ?_
    have hcrosses' := BarrierIndex.crosses_mono h.barriers hcrosses
    rw [← hgap'.snapPoint, hgap'.unbarred] at hcrosses'
    cases hcrosses'
  have hbase : 0 < ctx.basePriority e s := h.basePriority_eq ▸ hgap'.base_pos
  obtain ⟨added, hadded⟩ := (h.faces_iff.mp hgap'.faces).2.exists_decrement
    ((checkRange_eq_ok_iff.mp hrun).1 m'.nodeId hstart hstop) hopen hbase
  obtain ⟨m, hgap, hsuppressed⟩ := h.exists_isGap hgap' hadded
  have hid : m.nodeId = m'.nodeId := (congrArg MissingConnection.nodeId hsuppressed.same).symm
  exact ⟨m, (mem_missingOf_iff hrun).mpr ⟨by omega, by omega, e, s, hgap⟩, hsuppressed⟩

omit [Scalar.LawfulOrder α]

/-! ## Duplicated edges -/

theorem duplicatesOf_checkRange {start stop : Nat} {fs : List (Finding α)}
    (h : ctx.checkRange start stop = .ok fs) :
    duplicatesOf fs = (List.range' start (stop - start)).flatMap fun n =>
      (ctx.pairsAt n).map fun p => ctx.duplicatedEdge p.1 p.2 := by
  obtain ⟨hall, rfl⟩ := checkRange_eq_ok_iff.mp h
  rw [duplicatesOf_flatMap]
  apply List.flatMap_congr
  intro n hn
  rw [List.mem_range'_1] at hn
  exact duplicatesOf_findingsAt (hall n hn.1 (by omega))

theorem AddsSuppression.pairsAt_eq (h : ctx.AddsSuppression ctx')
    (hmarks : ∀ n, ctx'.nodeIds.noExit n = ctx.nodeIds.noExit n) (n : Nat) :
    ctx'.pairsAt n = ctx.pairsAt n := by
  have hskipped : ∀ n, ctx'.isSkipped n = ctx.isSkipped n := fun n => by
    unfold isSkipped
    rw [h.graph, h.osmId, hmarks]
  have hreports : ∀ a, ctx'.reportsAt n a = ctx.reportsAt n a := fun a => by
    rw [reportsAt, reportsAt, hskipped]
  have hduplicate : ∀ a, ctx'.isDuplicate a = ctx.isDuplicate a := fun a => by
    unfold isDuplicate
    rw [h.graph]
  have hpairs : ∀ edges, ctx'.pairsAmong n edges = ctx.pairsAmong n edges := by
    intro edges
    induction edges with
    | nil => rfl
    | cons a rest ih => simp only [pairsAmong, hreports, hduplicate, ih]
  rw [pairsAt, pairsAt, hskipped, h.graph, hpairs]

theorem AddsSuppression.duplicates (h : ctx.AddsSuppression ctx')
    (hmarks : ∀ n, ctx'.nodeIds.noExit n = ctx.nodeIds.noExit n) {start stop : Nat}
    {fs fs' : List (Finding α)} (hrun : ctx.checkRange start stop = .ok fs)
    (hrun' : ctx'.checkRange start stop = .ok fs') : duplicatesOf fs' = duplicatesOf fs := by
  have hedge : ∀ a b, ctx'.duplicatedEdge a b = ctx.duplicatedEdge a b := fun a b => by
    unfold duplicatedEdge
    rw [h.graph, h.wayIds]
  rw [duplicatesOf_checkRange hrun, duplicatesOf_checkRange hrun']
  simp only [h.pairsAt_eq hmarks, hedge]

/-! ## A fence far off -/

/-- The broken road with a fence far off, with its first node marked as having no exit and with
routes compared. -/
noncomputable def fencedRoad : AuditContext ℝ :=
  { brokenRoad with
    barriers := .ofLines [[⟨5, 5⟩, ⟨6, 5⟩]]
    nodeIds := ⟨.nodes, #[IdTable.encodeRecord .nodes 10 true, 11, 12, 13]⟩
    settings := { brokenRoad.settings with doRouting := true } }

theorem addsSuppression_fencedRoad : brokenRoad.AddsSuppression fencedRoad where
  graph := rfl
  wayIds := rfl
  settings := rfl
  osmId
    | 0 => rfl
    | 1 => rfl
    | 2 => rfl
    | 3 => rfl
    | _ + 4 => rfl
  barriers := by
    intro line hline
    cases hline
  noExit
    | 0 => fun h => nomatch h
    | 1 => fun h => h
    | 2 => fun h => h
    | 3 => fun h => h
    | _ + 4 => fun h => h
  routing := fun h => nomatch h

theorem snapped_brokenRoad {s : Snap ℝ} (h : brokenRoad.IsUnconnected ⟨0, 0⟩ brokenEnd s) :
    s.snapped = ⟨1 / 12500, 0⟩ := by
  have hedge : s.edge.edge = brokenRest.edge := by
    have hstored := RoadGraph.edge_of_mem_nearest h.found
    rw [edge_id_brokenRoad h] at hstored
    exact (Option.some.inj hstored).symm
  have hcourse : brokenRoad.graph.course s.edge.edge = [⟨1 / 12500, 0⟩, ⟨1, 0⟩] := by
    rw [hedge]
    rfl
  exact (RoadGraph.of_mem_nearest_meridian h.found (by norm_num) (by norm_num) (by norm_num)
    hcourse).2.2.1

theorem crosses_fencedRoad : fencedRoad.barriers.crosses ⟨0, 0⟩ ⟨1 / 12500, 0⟩ = false := by
  have hbox : (Box.ofLine ([⟨5, 5⟩, ⟨6, 5⟩] : List (Point ℝ))).any
      (fun box => box.meets (Box.ofSegment ⟨0, 0⟩ ⟨1 / 12500, 0⟩)) = false := by
    simp [Box.ofLine, Box.meets, Box.ofSegment, Scalar.lesser_real, Scalar.greater_real]
  have hlines : fencedRoad.barriers.lines = [[⟨5, 5⟩, ⟨6, 5⟩]] := rfl
  rw [BarrierIndex.crosses, hlines, List.any_cons, hbox]
  rfl

theorem checkRange_fencedRoad :
    ∃ fs m, fencedRoad.checkRange 1 2 = .ok fs ∧ m ∈ missingOf fs := by
  obtain ⟨s, hfaces, hdistance⟩ := exists_faces_brokenRoad
  have hfaces' : fencedRoad.Faces 1 ⟨0, 0⟩ brokenEnd s :=
    addsSuppression_fencedRoad.faces_iff.mpr ⟨⟨rfl, ⟨11, rfl⟩, rfl⟩, hfaces⟩
  have hopen : fencedRoad.barriers.crosses ⟨0, 0⟩ s.snapped = false := by
    rw [snapped_brokenRoad hfaces.nearest.holds, crosses_fencedRoad]
  have hbase : fencedRoad.basePriority brokenEnd s = 3 := by
    rw [addsSuppression_fencedRoad.basePriority_eq, basePriority_brokenRoad hdistance]
  have hmissing : fencedRoad.missingAt 1 11 =
      .ok (some (connection 1 11 ⟨0, 0⟩ brokenEnd s 3)) := by
    rw [hfaces'.missingAt, gapAt_eq_some_iff, hbase]
    exact ⟨hopen, by decide, 0, rfl, rfl, rfl⟩
  exact ⟨[.missing _], _, checkRange_eq_singleton rfl rfl rfl hmissing, List.mem_singleton_self _⟩

/-! ## Two passes -/

/-- Of two passes over the same nodes that succeed, the second with suppression added, the missing
connections of the second are some of the first, with a priority number that is greater by one at
most, and only if routes begin to be compared. If no node is marked as having no exit that was not,
both have the same duplicated edges. -/
theorem suppression_only_suppresses [Scalar.LawfulOrder α] {ctx ctx' : AuditContext α}
    (h : ctx.AddsSuppression ctx') {start stop : Nat} {fs fs' : List (Finding α)}
    (hrun : ctx.checkRange start stop = .ok fs) (hrun' : ctx'.checkRange start stop = .ok fs') :
    (∀ m' ∈ missingOf fs', ∃ m ∈ missingOf fs, ctx.IsSuppressedOf ctx' m m') ∧
    ((∀ n, ctx'.nodeIds.noExit n = ctx.nodeIds.noExit n) → duplicatesOf fs' = duplicatesOf fs) :=
  ⟨h.missing hrun hrun', fun hmarks => h.duplicates hmarks hrun hrun'⟩

/-- With a fence far off, the end of the broken road is still reported as it was. -/
theorem suppression_only_suppresses_fencedRoad :
    brokenRoad.AddsSuppression fencedRoad ∧
      ∃ fs fs' m m', brokenRoad.checkRange 1 2 = .ok fs ∧ fencedRoad.checkRange 1 2 = .ok fs' ∧
        m' ∈ missingOf fs' ∧ m ∈ missingOf fs ∧ brokenRoad.IsSuppressedOf fencedRoad m m' := by
  obtain ⟨fs, -, hrun, -⟩ := checkRange_brokenRoad
  obtain ⟨fs', m', hrun', hm'⟩ := checkRange_fencedRoad
  obtain ⟨hmissing, -⟩ := suppression_only_suppresses addsSuppression_fencedRoad hrun hrun'
  obtain ⟨m, hm, hsuppressed⟩ := hmissing m' hm'
  exact ⟨addsSuppression_fencedRoad, fs, fs', m, m', hrun, hrun', hm', hm, hsuppressed⟩

end AuditContext
end RoadAudit
