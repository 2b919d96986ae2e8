import Mathlib.Data.List.Infix

/-! The string operations of Go's `strings` package that the sources use, over
Lean's own strings. -/
namespace Configurator

/-- `strings.Split(s, sep)` for a separator of one character. -/
def split (text : String) (sep : Char) : List String :=
  (text.toList.splitOn sep).map String.ofList

/-- `strings.Contains(s, substr)`. -/
def contains (text part : String) : Bool :=
  decide (part.toList <:+: text.toList)

theorem contains_iff {text part : String} :
    contains text part = true ↔ part.toList <:+: text.toList :=
  decide_eq_true_iff

theorem split_ne_nil (text : String) (sep : Char) : split text sep ≠ [] := by
  simp [split, List.splitOn_ne_nil]

theorem split_of_absent {text : String} {sep : Char} (absent : sep ∉ text.toList) :
    split text sep = [text] := by
  simp [split, List.splitOn_eq_singleton absent]

/-- A text is its parts with the separator between them. -/
theorem intercalate_split (text : String) (sep : Char) :
    [sep].intercalate ((split text sep).map String.toList) = text.toList := by
  rw [split, List.map_map]
  have same : String.toList ∘ String.ofList = id := funext fun _ => String.toList_ofList
  rw [same, List.map_id, List.intercalate_splitOn]

/-- Appending a separator and a name without one appends that name to the list. -/
theorem split_append {text name : String} {sep : Char} (absent : sep ∉ name.toList) :
    split (text ++ String.singleton sep ++ name) sep = split text sep ++ [name] := by
  have parts : (text ++ String.singleton sep ++ name).toList =
      text.toList ++ sep :: name.toList := by simp
  unfold split
  rw [parts, List.splitOn_append_cons_self, List.map_append,
    List.splitOn_eq_singleton absent]
  simp

end Configurator
