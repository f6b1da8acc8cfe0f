/-!
# Lists in writing
-/

namespace GridQuery.Text

/-- The parts one after the other, with a comma and a space between them. -/
def commaList (parts : List (List Char)) : List Char := List.intercalate [',', ' '] parts

@[simp] theorem commaList_nil : commaList [] = [] := rfl

@[simp] theorem commaList_singleton (part : List Char) : commaList [part] = part := by
  simp [commaList, List.intercalate]

theorem commaList_cons_cons (a b : List Char) (rest : List (List Char)) :
    commaList (a :: b :: rest) = a ++ ',' :: ' ' :: commaList (b :: rest) := by
  simp [commaList, List.intercalate]

/-! ## What a list keeps from its parts -/

/-- What two rows keep when they are joined holds of a joined row, if it holds of its parts. -/
theorem intercalate_induction {α : Type} {P : List α → Prop} {sep : List α}
    (hjoin : ∀ s t, P s → P t → P (s ++ (sep ++ t))) {parts : List (List α)} (hne : parts ≠ [])
    (hparts : ∀ s ∈ parts, P s) : P (List.intercalate sep parts) := by
  induction parts with
  | nil => exact absurd rfl hne
  | cons part parts ih =>
    have hpart := hparts part (by simp)
    cases parts with
    | nil => rwa [List.intercalate_singleton]
    | cons next parts =>
      rw [List.intercalate_cons_cons, List.append_assoc]
      exact hjoin _ _ hpart (ih (List.cons_ne_nil _ _) fun s hs =>
        hparts s (List.mem_cons_of_mem _ hs))

theorem commaList_induction {P : List Char → Prop} (hnil : P [])
    (hjoin : ∀ s t, P s → P t → P (s ++ ',' :: ' ' :: t)) {parts : List (List Char)}
    (hparts : ∀ s ∈ parts, P s) : P (commaList parts) := by
  by_cases hne : parts = []
  · rwa [hne]
  · exact intercalate_induction hjoin hne hparts

end GridQuery.Text
