import RoadAudit.Feature.Basic

/-! # Feature collections

A collection is written feature by feature: a header, the features with a separator before each
but the first, and a footer. -/

namespace RoadAudit

/-- The text of a collection that is not yet closed, and the number of features in it. -/
structure Collection where
  text : String
  written : Nat

namespace Collection

def header : String := "\x7b\"type\":\"FeatureCollection\",\"features\":[\n"

def separator : String := ",\n"

def footer : String := "\n]\x7d\n"

def start : Collection := ⟨header, 0⟩

def add (c : Collection) (f : Feature) : Collection :=
  ⟨c.text ++ (if 0 < c.written then separator else "") ++ f.render, c.written + 1⟩

def addFindings (c : Collection) (fs : List (Finding Float)) : Collection :=
  (fs.flatMap Feature.ofFinding).foldl add c

def close (c : Collection) : String := c.text ++ footer

@[simp] theorem written_add (c : Collection) (f : Feature) : (c.add f).written = c.written + 1 :=
  rfl

theorem addFindings_append (c : Collection) (fs gs : List (Finding Float)) :
    c.addFindings (fs ++ gs) = (c.addFindings fs).addFindings gs := by
  simp [addFindings, List.foldl_append]

end Collection

end RoadAudit
