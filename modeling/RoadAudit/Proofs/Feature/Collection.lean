import Mathlib.Data.List.Induction
import RoadAudit.Feature.Collection

/-! # The text of a collection

What has been written feature by feature is the header, the features with a separator between any
two neighbours, and the footer. -/

namespace RoadAudit
namespace Collection

/-- The text of a closed collection of some features. -/
def document (fs : List Feature) : String :=
  header ++ separator.intercalate (fs.map Feature.render) ++ footer

theorem foldl_add_start (fs : List Feature) :
    fs.foldl add start = ⟨header ++ separator.intercalate (fs.map Feature.render), fs.length⟩ := by
  induction fs using List.reverseRecOn with
  | nil => simp [start]
  | append_singleton fs f ih =>
    rw [List.foldl_append, ih, List.foldl_cons, List.foldl_nil, add, List.length_append,
      List.map_append]
    cases fs with
    | nil => simp
    | cons g fs =>
      rw [String.intercalate_append_of_ne_nil (by simp) (by simp)]
      simp [String.append_assoc]

theorem close_foldl_add (fs : List Feature) : (fs.foldl add start).close = document fs := by
  rw [foldl_add_start]
  rfl

end Collection
end RoadAudit
