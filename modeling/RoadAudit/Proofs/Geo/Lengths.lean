import RoadAudit.Geo.Polyline
import RoadAudit.Proofs.Geo.Meridian

/-! # Lengths along a polyline

Where no distance is negative, no length along a polyline is. In exact arithmetic this is so for
both metrics. -/

namespace RoadAudit
namespace Metric

open scoped Scalar

variable {α : Type} [Scalar α]

/-- Whether no distance of a metric is negative; one that is no number is let be. -/
def HasDistances (m : Metric) (α : Type) [Scalar α] : Prop :=
  ∀ p q : Point α, Scalar.IsNumber (m.distance p q) → 0 ≤ m.distance p q

section Laws

variable [Scalar.LawfulSum α] {m : Metric}

theorem foldl_add_nonneg (legs : List α) (hlegs : ∀ a ∈ legs, Scalar.IsNumber a → 0 ≤ a) (acc : α)
    (hacc : Scalar.IsNumber acc → 0 ≤ acc) (h : Scalar.IsNumber (legs.foldl (· + ·) acc)) :
    0 ≤ legs.foldl (· + ·) acc := by
  induction legs generalizing acc with
  | nil => exact hacc h
  | cons a rest ih =>
    obtain ⟨ha, hrest⟩ := List.forall_mem_cons.mp hlegs
    refine ih hrest (acc + a) (fun hsum => ?_) h
    obtain ⟨hnumber, hnumber'⟩ := Scalar.LawfulSum.number_of_add hsum
    have hle := Scalar.LawfulLength.le_add (hacc hnumber) (ha hnumber')
    exact Scalar.le_trans (hacc hnumber) hle

theorem length_nonneg (hm : m.HasDistances α) (line : List (Point α))
    (h : Scalar.IsNumber (m.length line)) : 0 ≤ m.length line := by
  refine foldl_add_nonneg (m.legs line) (fun a ha => ?_) 0 id h
  obtain ⟨s, -, rfl⟩ := List.mem_map.mp ha
  exact hm s.1 s.2

theorem distanceAlong?_nonneg (hm : m.HasDistances α) {line : List (Point α)} {p : Point α} {d : α}
    (hd : m.distanceAlong? line p = some d) (h : Scalar.IsNumber d) : 0 ≤ d := by
  obtain ⟨i, -, hd⟩ := Option.bind_eq_some_iff.mp hd
  obtain ⟨corner, -, hd⟩ := Option.bind_eq_some_iff.mp hd
  obtain rfl := Option.some.inj hd
  obtain ⟨hlength, hlast⟩ := Scalar.LawfulSum.number_of_add h
  have hfirst := length_nonneg hm (line.take (i + 1)) hlength
  exact Scalar.le_trans hfirst (Scalar.LawfulLength.le_add hfirst (hm corner p hlast))

end Laws

theorem hasDistances_real (m : Metric) : m.HasDistances ℝ := by
  intro p q _
  rw [Scalar.ofNat_real, Nat.cast_zero]
  cases m with
  | earth =>
    change 0 ≤ haversine p q
    rw [haversine_real]
    have harg : 0 ≤ Complex.arg ⟨√(1 - halfChordSquared p q), √(halfChordSquared p q)⟩ :=
      Complex.arg_nonneg_iff.mpr (Real.sqrt_nonneg _)
    positivity
  | plane => exact Real.sqrt_nonneg _

end Metric
end RoadAudit
