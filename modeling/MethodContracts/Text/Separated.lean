/-!
# Separated text

Cutting a text at every occurrence of one character, or once at the first arrow `->`.
-/

namespace MethodContracts.Text

/-- The pieces of a text between the occurrences of a separator; there is always one more piece
than there are separators. -/
def pieces (sep : Char) : List Char → List (List Char)
  | [] => [[]]
  | c :: cs =>
      if c = sep then [] :: pieces sep cs
      else (pieces sep cs).modifyHead (c :: ·)

@[simp] theorem length_pieces (sep : Char) (cs : List Char) :
    (pieces sep cs).length = cs.count sep + 1 := by
  induction cs with
  | nil => rfl
  | cons c cs ih => by_cases h : c = sep <;> simp [pieces, h, ih]

/-- Joining the pieces gives the text back. -/
theorem intercalate_pieces (sep : Char) (cs : List Char) :
    [sep].intercalate (pieces sep cs) = cs := by
  induction cs with
  | nil => rfl
  | cons c cs ih =>
      have hpos : 0 < (pieces sep cs).length := by simp
      cases hp : pieces sep cs with
      | nil => simp [hp] at hpos
      | cons p ps =>
          rw [hp] at ih
          by_cases h : c = sep
          · simp [pieces, h, hp, List.intercalate_cons_cons, ih]
          · simp only [pieces, if_neg h, hp, List.modifyHead_cons]
            cases ps with
            | nil => simpa using ih
            | cons q qs => simpa [List.intercalate_cons_cons] using ih

/-- The text before and after the first arrow. -/
def cutAtArrow : List Char → Option (List Char × List Char)
  | [] => none
  | '-' :: '>' :: cs => some ([], cs)
  | c :: cs => (cutAtArrow cs).map fun (l, r) => (c :: l, r)

end MethodContracts.Text
