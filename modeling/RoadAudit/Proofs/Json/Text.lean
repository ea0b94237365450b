import Mathlib.Data.List.Forall2
import RoadAudit.Proofs.Json.Numerals

/-! # The texts of JSON values

The grammar of JSON as a relation between values and their texts without spaces, which says nothing
of how a text is made; what is printed of a value is a text of it. -/

namespace RoadAudit
namespace Json

/-- How a character is written between quotes: as it is, or escaped by a letter or by its number. -/
inductive WritesChar : Char → List Char → Prop
  | plain {c : Char} (hcontrol : 32 ≤ c.toNat) (hquote : c ≠ '"') (hslash : c ≠ '\\') :
      WritesChar c [c]
  | letter {c l : Char} (h : simpleEscape? l = some c) : WritesChar c ['\\', l]
  | number {c : Char} {ds : List Char} (h : unit? ds = some (c.toNat, [])) :
      WritesChar c ('\\' :: 'u' :: ds)

/-- How a string is written. -/
inductive WritesText (s : String) : String → Prop
  | mk {parts : List (List Char)} (h : List.Forall₂ WritesChar s.toList parts) :
      WritesText s ("\"" ++ String.ofList parts.flatten ++ "\"")

mutual

/-- How a value is written. -/
inductive Writes : Json → String → Prop
  | null : Writes .null "null"
  | true : Writes (.bool true) "true"
  | false : Writes (.bool false) "false"
  | int (n : Int) : Writes (.int n) (toString n)
  | float {x : Float} {t : String} (h : WritesFloat x t) : Writes (.float x) t
  | text {s t : String} (h : WritesText s t) : Writes (.text s) t
  | array {items : List Json} {ts : List String} (h : List.Forall₂ Writes items ts) :
      Writes (.array items) ("[" ++ ",".intercalate ts ++ "]")
  | object {fields : List (String × Json)} {ts : List String}
      (h : List.Forall₂ WritesField fields ts) :
      Writes (.object fields) ("\x7b" ++ ",".intercalate ts ++ "\x7d")

/-- How a field is written. -/
inductive WritesField : String × Json → String → Prop
  | mk {key keyText text : String} {v : Json} (hkey : WritesText key keyText)
      (hvalue : Writes v text) : WritesField (key, v) (keyText ++ ":" ++ text)

end

theorem unit?_control {n : ℕ} (h : n < 32) :
    unit? ['0', '0', hexDigit (n / 16), hexDigit n] = some (n, []) := by
  interval_cases n <;> rfl

theorem writes_escaped (c : Char) : WritesChar c (escaped c) := by
  unfold escaped
  split_ifs with hquote hslash h8 hc hn hr ht hcontrol
  · exact .letter (by rw [hquote]; rfl)
  · exact .letter (by rw [hslash]; rfl)
  · exact .letter (by rw [h8]; rfl)
  · exact .letter (by rw [hc]; rfl)
  · exact .letter (by rw [hn]; rfl)
  · exact .letter (by rw [hr]; rfl)
  · exact .letter (by rw [ht]; rfl)
  · exact .number (unit?_control hcontrol)
  · exact .plain (not_lt.mp hcontrol) hquote hslash

theorem writes_quoted (s : String) : WritesText s (quoted s) := by
  unfold quoted
  rw [List.flatMap_def]
  exact .mk (List.forall₂_map_right_iff.mpr (List.forall₂_same.mpr fun c _ => writes_escaped c))

theorem renderItems_eq (items : List Json) :
    renderItems items = ",".intercalate (items.map render) := by
  induction items with
  | nil => rfl
  | cons v rest ih =>
    cases rest with
    | nil => simp [renderItems]
    | cons w rest =>
      have hstep : renderItems (v :: w :: rest) = render v ++ "," ++ renderItems (w :: rest) := rfl
      have hne : (w :: rest).map render ≠ [] := List.cons_ne_nil _ _
      rw [hstep, ih]
      exact (String.intercalate_cons_of_ne_nil hne).symm

def renderField (f : String × Json) : String := quoted f.1 ++ ":" ++ render f.2

theorem renderFields_eq (fields : List (String × Json)) :
    renderFields fields = ",".intercalate (fields.map renderField) := by
  induction fields with
  | nil => rfl
  | cons f rest ih =>
    cases rest with
    | nil => simp [renderFields, renderField]
    | cons g rest =>
      have hstep : renderFields (f :: g :: rest) =
          renderField f ++ "," ++ renderFields (g :: rest) := rfl
      have hne : (g :: rest).map renderField ≠ [] := List.cons_ne_nil _ _
      rw [hstep, ih]
      exact (String.intercalate_cons_of_ne_nil hne).symm

mutual

theorem writes_render : ∀ v : Json, Writes v v.render
  | .null => .null
  | .bool true => .true
  | .bool false => .false
  | .int n => .int n
  | .float x => .float (writes_floatText x)
  | .text s => .text (writes_quoted s)
  | .array items => by
    rw [render, renderItems_eq]
    exact .array (writes_items items)
  | .object fields => by
    rw [render, renderFields_eq]
    exact .object (writes_fields fields)

theorem writes_items : ∀ items : List Json, List.Forall₂ Writes items (items.map render)
  | [] => .nil
  | v :: rest => .cons (writes_render v) (writes_items rest)

theorem writes_fields : ∀ fields : List (String × Json),
    List.Forall₂ WritesField fields (fields.map renderField)
  | [] => .nil
  | (key, v) :: rest => .cons (.mk (writes_quoted key) (writes_render v)) (writes_fields rest)

end

end Json
end RoadAudit
