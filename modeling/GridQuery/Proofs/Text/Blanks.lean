import Mathlib.Data.List.TakeWhile
import GridQuery.Text.Blank
import GridQuery.Text.Comma
import GridQuery.Text.Digit
import GridQuery.Text.Word
/-!
# Blanks, words and trimmed texts

No blank is a digit or part of a word, so blanks set words and numbers off. A text is trimmed if it
has no blanks at its ends; a name has none at all, and a list of names is trimmed.

Results:
* `isBlank_of_isDigit`, `isBlank_of_isWord`: the classes are apart.
* `exists_trimEnd`, `exists_trim`, `trim_eq`: a trimmed text is the text between the blanks at its ends.
* `trim_append_blank`: blanks behind a text make no difference to it, once it is trimmed.
* `trimmed_commaList`, `commaList_append`: lists in writing.
* `firstPiece?_parts`: what the first piece of a text is made of.
-/

namespace GridQuery

/-! ## Runs -/

theorem head?_dropWhile_not {p : Char → Bool} (s : List Char) :
    (s.dropWhile p).head?.all (fun c => !p c) = true := by
  have h := List.head?_dropWhile_not p s
  cases hd : (s.dropWhile p).head? with
  | none => rfl
  | some c => rw [hd] at h; simpa using h

theorem getLast?_all_of_suffix {p : Char → Bool} {r s : List Char} (h : r <:+ s)
    (hs : s.getLast?.all p = true) : r.getLast?.all p = true := by
  obtain ⟨u, rfl⟩ := h
  cases hr : r.getLast? with
  | none => rfl
  | some c => rw [List.getLast?_append, hr] at hs; exact hs

theorem drop_takeWhile {p : Char → Bool} (s : List Char) :
    s.drop (s.takeWhile p).length = s.dropWhile p := by
  calc s.drop (s.takeWhile p).length
      = (s.takeWhile p ++ s.dropWhile p).drop (s.takeWhile p).length := by
        rw [List.takeWhile_append_dropWhile]
    _ = s.dropWhile p := List.drop_left

/-- A run that ends inside a text ends there whatever stands behind the text. -/
theorem run_append_of_dropWhile {p : Char → Bool} {s v : List Char} {c : Char}
    (h : s.dropWhile p = c :: v) (t : List Char) :
    (s ++ t).takeWhile p = s.takeWhile p ∧ (s ++ t).dropWhile p = c :: v ++ t := by
  induction s with
  | nil => cases h
  | cons d s ih =>
    by_cases hd : p d = true
    · rw [List.dropWhile_cons_of_pos hd] at h
      simp [hd, ih h]
    · rw [List.dropWhile_cons_of_neg hd] at h
      simp [hd, ← h]

namespace Text

/-! ## Classes -/

/-- The code points of the blanks. -/
def blankCodes : List Nat :=
  [9, 10, 11, 12, 13, 0x20, 0x85, 0xa0, 0x1680, 0x2000, 0x2001, 0x2002, 0x2003, 0x2004, 0x2005,
    0x2006, 0x2007, 0x2008, 0x2009, 0x200a, 0x2028, 0x2029, 0x202f, 0x205f, 0x3000]

theorem mem_blankCodes {c : Char} (h : isBlank c = true) : c.toNat ∈ blankCodes := by
  simp only [isBlank, Bool.or_eq_true, Bool.and_eq_true, decide_eq_true_eq, beq_iff_eq] at h
  simp only [blankCodes, List.mem_cons, List.not_mem_nil]
  omega

/-- No decimal digit of any script is a blank. -/
theorem isBlank_of_isDigit {c : Char} (h : isDigit c = true) : isBlank c = false := by
  rw [← Bool.not_eq_true]
  intro hb
  have hno : ∀ n ∈ blankCodes, isDigit (Char.ofNat n) = false := by decide
  rw [← Char.ofNat_toNat c, hno _ (mem_blankCodes hb)] at h
  cases h

/-- No character of a word is a blank. -/
theorem isBlank_of_isWord {c : Char} (h : isWord c = true) : isBlank c = false := by
  rw [← Bool.not_eq_true]
  intro hb
  have hno : ∀ n ∈ blankCodes, isWord (Char.ofNat n) = false := by decide +kernel
  rw [← Char.ofNat_toNat c, hno _ (mem_blankCodes hb)] at h
  cases h

theorem isDigit_of_isBlank {c : Char} (h : isBlank c = true) : isDigit c = false := by
  rw [← Bool.not_eq_true]
  intro hd
  rw [isBlank_of_isDigit hd] at h; cases h

theorem isWord_of_isBlank {c : Char} (h : isBlank c = true) : isWord c = false := by
  rw [← Bool.not_eq_true]
  intro hw
  rw [isBlank_of_isWord hw] at h; cases h

theorem isBlankText_of_mem {c : Char} {s : List Char} (hc : c ∈ s) (hb : isBlank c = false) :
    isBlankText s = false := by
  rw [← Bool.not_eq_true]
  intro h
  rw [List.all_eq_true.1 h c hc] at hb; cases hb

/-- A text is blank at its end from some position on. -/
theorem exists_trimEnd (s : List Char) :
    ∃ u, s = trimEnd s ++ u ∧ isBlankText u = true ∧
      (trimEnd s).getLast?.all (fun c => !isBlank c) = true := by
  obtain ⟨u, hu, hblank⟩ := dropEndWhile_append_dropped isBlank s
  refine ⟨u, hu.symm, List.all_eq_true.2 hblank, ?_⟩
  rw [trimEnd, dropEndWhile, List.getLast?_reverse]
  exact head?_dropWhile_not _

/-! ## Blanks at the ends -/

theorem dropWhile_of_head {p : Char → Bool} {s : List Char}
    (hs : s.head?.all (fun c => !p c) = true) : s.dropWhile p = s := by
  cases s with
  | nil => rfl
  | cons c s =>
    have hc : p c = false := by simpa using hs
    exact List.dropWhile_cons_of_neg (by simp [hc])

/-- A text in front of blanks, if there are none at its end. -/
theorem trimEnd_eq {t v : List Char} (hv : ∀ c ∈ v, isBlank c = true)
    (hlast : t.getLast?.all (fun c => !isBlank c) = true) : trimEnd (t ++ v) = t := by
  rw [trimEnd, dropEndWhile, List.reverse_append,
    List.dropWhile_append_of_pos fun c hc => hv c (List.mem_reverse.1 hc),
    dropWhile_of_head (by rwa [List.head?_reverse]), List.reverse_reverse]

/-- A text between blanks, if there are none at its ends. -/
theorem trim_eq {u t v : List Char} (hu : ∀ c ∈ u, isBlank c = true)
    (hv : ∀ c ∈ v, isBlank c = true) (hhead : t.head?.all (fun c => !isBlank c) = true)
    (hlast : t.getLast?.all (fun c => !isBlank c) = true) : trim (u ++ (t ++ v)) = t := by
  have hfront : (u ++ (t ++ v)).dropWhile isBlank = (t ++ v).dropWhile isBlank :=
    List.dropWhile_append_of_pos hu
  have hback : dropEndWhile isBlank (t ++ v) = t := trimEnd_eq hv hlast
  rw [trim, stripWhile, hfront]
  cases t with
  | nil =>
    have hnil : v.dropWhile isBlank = [] := List.dropWhile_eq_nil_iff.2 hv
    rw [List.nil_append, hnil]; rfl
  | cons c t =>
    rw [dropWhile_of_head (by simpa using hhead), hback]

theorem exists_trim (s : List Char) :
    ∃ u v, s = u ++ (trim s ++ v) ∧ (∀ c ∈ u, isBlank c = true) ∧ (∀ c ∈ v, isBlank c = true) ∧
      (trim s).head?.all (fun c => !isBlank c) = true ∧
      (trim s).getLast?.all (fun c => !isBlank c) = true := by
  obtain ⟨v, hv, hblank, hlast⟩ := exists_trimEnd (s.dropWhile isBlank)
  have hcut : s.dropWhile isBlank = trim s ++ v := hv
  refine ⟨s.takeWhile isBlank, v, ?_, List.all_eq_true.1 List.all_takeWhile,
    List.all_eq_true.1 hblank, ?_, hlast⟩
  · rw [← hcut, List.takeWhile_append_dropWhile]
  · have hhead := head?_dropWhile_not (p := isBlank) s
    cases ht : trim s with
    | nil => rfl
    | cons c t =>
      rw [hcut, ht] at hhead
      exact hhead

/-- Blanks behind a text are trimmed off with those at its end. -/
theorem trim_append_blank {s u : List Char} (hu : isBlankText u = true) :
    trim (s ++ u) = trim s := by
  obtain ⟨a, v, hs, ha, hv, hhead, hlast⟩ := exists_trim s
  generalize trim s = t at hs hhead hlast ⊢
  subst hs
  have hvu : ∀ c ∈ v ++ u, isBlank c = true := by
    intro c hc
    rcases List.mem_append.1 hc with hc | hc
    · exact hv c hc
    · exact List.all_eq_true.1 hu c hc
  rw [List.append_assoc, List.append_assoc]
  exact trim_eq ha hvu hhead hlast

/-- No blanks at either end. -/
structure Trimmed (s : List Char) : Prop where
  head : s.head?.all (fun c => !isBlank c) = true
  last : s.getLast?.all (fun c => !isBlank c) = true

theorem Trimmed.trim_eq {s : List Char} (hs : Trimmed s) : trim s = s := by
  have h := @Text.trim_eq [] s [] (by simp) (by simp) hs.head hs.last
  rwa [List.nil_append, List.append_nil] at h

theorem trimmed_trim (s : List Char) : Trimmed (trim s) := by
  obtain ⟨-, -, -, -, -, hhead, hlast⟩ := exists_trim s
  exact ⟨hhead, hlast⟩

theorem trimmed_of_trim_eq {s : List Char} (hs : trim s = s) : Trimmed s :=
  hs ▸ trimmed_trim s

theorem trimmed_of_no_blank {s : List Char} (hs : ∀ c ∈ s, isBlank c = false) : Trimmed s := by
  have hall : ∀ o : Option Char, (∀ c ∈ o, c ∈ s) → o.all (fun c => !isBlank c) = true := by
    intro o ho
    cases o with
    | none => rfl
    | some c => rw [Option.all_some, hs c (ho c rfl)]; rfl
  exact ⟨hall _ fun c hc => List.mem_of_head? hc, hall _ fun c hc => List.mem_of_getLast? hc⟩

theorem commaList_ne_nil {parts : List (List Char)} (hne : parts ≠ [])
    (h : ∀ s ∈ parts, s ≠ []) : commaList parts ≠ [] :=
  intercalate_induction (P := (· ≠ [])) (fun _ _ hs _ => List.append_ne_nil_of_left_ne_nil hs _)
    hne h

/-- What is between two trimmed texts does not matter. -/
theorem Trimmed.append {s t : List Char} (hs : Trimmed s) (ht : Trimmed t) (hne : s ≠ [])
    (hne' : t ≠ []) (w : List Char) : Trimmed (s ++ (w ++ t)) := by
  obtain ⟨c, r, rfl⟩ := List.exists_cons_of_ne_nil hne
  obtain ⟨d, hd⟩ := Option.isSome_iff_exists.1 (List.getLast?_isSome.2 hne')
  refine ⟨hs.head, ?_⟩
  have hlast := ht.last
  rw [List.getLast?_append, List.getLast?_append, hd]
  rwa [hd] at hlast

theorem trimmed_commaList {parts : List (List Char)} (hne : ∀ s ∈ parts, s ≠ [])
    (h : ∀ s ∈ parts, Trimmed s) : Trimmed (commaList parts) := by
  by_cases hnil : parts = []
  · rw [hnil]
    exact ⟨rfl, rfl⟩
  · have hjoin : ∀ s t : List Char, s ≠ [] ∧ Trimmed s → t ≠ [] ∧ Trimmed t →
        s ++ ([',', ' '] ++ t) ≠ [] ∧ Trimmed (s ++ ([',', ' '] ++ t)) := fun s t hs ht =>
      ⟨List.append_ne_nil_of_left_ne_nil hs.1 _, hs.2.append ht.2 hs.1 ht.1 _⟩
    exact (intercalate_induction hjoin hnil fun s hs => ⟨hne s hs, h s hs⟩).2

/-! ## Words -/

/-- The text is one word. -/
def isIdentifier (w : List Char) : Bool := !w.isEmpty && w.all isWord

theorem exists_cons_of_identifier {w : List Char} (hw : isIdentifier w = true) :
    ∃ c r, w = c :: r ∧ isWord c = true := by
  cases w with
  | nil => cases hw
  | cons c r => exact ⟨c, r, rfl, by simp_all [isIdentifier]⟩

theorem isWord_of_identifier {w : List Char} (hw : isIdentifier w = true) :
    ∀ c ∈ w, isWord c = true :=
  List.all_eq_true.1 (Bool.and_eq_true_iff.1 hw).2

theorem noBlank_of_identifier {w : List Char} (hw : isIdentifier w = true) :
    ∀ c ∈ w, isBlank c = false := fun c hc => isBlank_of_isWord (isWord_of_identifier hw c hc)

/-- A piece holds at least one character and no blank. -/
theorem firstPiece?_parts {s piece : List Char} (h : firstPiece? s = some piece) :
    piece ≠ [] ∧ ∀ c ∈ piece, isBlank c = false := by
  rw [firstPiece?] at h
  split at h
  · cases h
  · rename_i hne
    cases h
    refine ⟨hne, fun c hc => ?_⟩
    simpa using List.all_eq_true.1 List.all_takeWhile c hc

theorem commaList_append {ss ts : List (List Char)} (hs : ss ≠ []) (ht : ts ≠ []) :
    commaList (ss ++ ts) = commaList ss ++ (", ".toList ++ commaList ts) := by
  obtain ⟨t, ts, rfl⟩ := List.exists_cons_of_ne_nil ht
  induction ss with
  | nil => exact absurd rfl hs
  | cons s ss ih =>
    cases ss with
    | nil => rw [commaList_singleton]; exact commaList_cons_cons s t ts
    | cons r ss =>
      rw [List.cons_append, List.cons_append, commaList_cons_cons, ← List.cons_append,
        ih (List.cons_ne_nil r ss), commaList_cons_cons, List.append_assoc]
      rfl

end Text

end GridQuery
