import GridQuery.Json.Parser
import GridQuery.Json.Printer
/-!
# Reading back what was written

A written value ends by itself, except for a number, which goes on as long as digits follow. So a
value is read back from the front of every text that does not go on with the number: the reader
takes what was written for the value and hands on the rest.

Results:
* `readNumber_ofInt`: a whole number is read back, unless what follows could belong to it.
* `readString_codesOf`: a string is read back, whatever it holds, up to its own closing quote.
* `readItems_render`, `readMembers_render`: items and members are read back if each of them is.
* `IsWhole.readsBack`: so is every value whose numbers are whole.
* `IsWhole.parse?_render`: a text is read as the value that it was written for.
-/

namespace GridQuery.Json

/-! ## Numbers -/

/-- What may stand behind a value: nothing that a number could go on with. -/
def Ends (rest : List Char) : Prop :=
  ∀ c ∈ rest.head?, c.isDigit = false ∧ c ≠ '.' ∧ c ≠ 'e' ∧ c ≠ 'E'

theorem ends_nil : Ends [] := fun _ h => by cases h

theorem ends_cons {c : Char} (hd : c.isDigit = false) (hc : c ≠ '.' ∧ c ≠ 'e' ∧ c ≠ 'E')
    (s : List Char) : Ends (c :: s) := by
  rintro _ ⟨⟩
  exact ⟨hd, hc⟩

theorem takeWhile_ofNat {rest : List Char} (h : Ends rest) (n : Nat) :
    (Decimal.ofNat n ++ rest).takeWhile Char.isDigit = Decimal.ofNat n ∧
      (Decimal.ofNat n ++ rest).dropWhile Char.isDigit = rest := by
  have hall : ∀ c ∈ Decimal.ofNat n, c.isDigit = true := fun c hc => Decimal.isDigit_of_mem_ofNat hc
  have hstop : rest.takeWhile Char.isDigit = [] ∧ rest.dropWhile Char.isDigit = rest := by
    cases rest with
    | nil => exact ⟨rfl, rfl⟩
    | cons c s => simp [(h c rfl).1]
  rw [List.takeWhile_append_of_pos hall, List.dropWhile_append_of_pos hall, hstop.1, hstop.2]
  exact ⟨List.append_nil _, rfl⟩

theorem readWhole_ofNat {rest : List Char} (h : Ends rest) (n : Nat) :
    readWhole (Decimal.ofNat n ++ rest) = some (Decimal.ofNat n, rest) := by
  obtain ⟨htake, hdrop⟩ := takeWhile_ofNat h n
  have hdigits : readDigits (Decimal.ofNat n ++ rest) = some (Decimal.ofNat n, rest) := by
    unfold readDigits
    rw [htake, hdrop]
    split
    · rename_i hnil; exact absurd hnil (Decimal.ofNat_ne_nil n)
    · rfl
  have hfirst : ¬((Decimal.ofNat n).head? = some '0' ∧ Decimal.ofNat n ≠ ['0']) :=
    fun ⟨hzero, hmore⟩ => hmore (Decimal.ofNat_eq_of_zero_head hzero)
  simp only [readWhole, hdigits, Option.bind_eq_bind, Option.bind_some]
  simp [hfirst]

theorem readUnsigned_ofNat {rest : List Char} (h : Ends rest) (negative : Bool) (n : Nat) :
    readUnsigned negative (Decimal.ofNat n ++ rest) =
      some (⟨negative, Decimal.ofNat n, [], none⟩, rest) := by
  have hpoint : readFraction rest = some ([], rest) := by
    cases rest with
    | nil => rfl
    | cons c s => simp [readFraction, (h c rfl).2.1]
  have hexponent : readExponent rest = some (none, rest) := by
    cases rest with
    | nil => rfl
    | cons c s => simp [readExponent, (h c rfl).2.2]
  simp [readUnsigned, readWhole_ofNat h, hpoint, hexponent]

theorem readNumber_ofInt {rest : List Char} (h : Ends rest) (i : Int) :
    readNumber (Decimal.ofInt i ++ rest) = some (.ofInt i, rest) := by
  by_cases hi : i < 0
  · simp [Decimal.ofInt, Decimal.Numeral.ofInt, hi, readNumber, readUnsigned_ofNat h]
  · obtain ⟨d, ds, hd⟩ := List.exists_cons_of_ne_nil (Decimal.ofNat_ne_nil i.natAbs)
    have hdigit : d.isDigit = true := Decimal.isDigit_of_mem_ofNat (n := i.natAbs) (by simp [hd])
    have hsign : d ≠ '-' := by rintro rfl; cases hdigit
    have hread := readUnsigned_ofNat h false i.natAbs
    simp only [Decimal.ofInt, Decimal.Numeral.ofInt, hi, if_false]
    rw [hd, List.cons_append] at hread ⊢
    simp [readNumber, hsign, hread]

/-! ## Strings -/

theorem hexValue?_hexDigit {n : Nat} (h : n < 16) : hexValue? (hexDigit n) = some n := by
  have hall : ∀ n < 16, hexValue? (hexDigit n) = some n := by decide
  exact hall n h

/-- A character that is escaped by its number is read back. -/
theorem unit?_unitEscape {n : Nat} (h : n < 65536) :
    unit? (hexDigit (n / 4096 % 16)) (hexDigit (n / 256 % 16)) (hexDigit (n / 16 % 16))
      (hexDigit (n % 16)) = some n := by
  have hlt : ∀ m, m % 16 < 16 := fun m => Nat.mod_lt m (by decide)
  simp only [unit?, hexValue?_hexDigit (hlt _), Option.bind_eq_bind, Option.bind_some,
    Option.some.injEq]
  omega

/-- A code point is written in one of three ways. -/
theorem escaped_cases (n : Nat) :
    (∃ e, escaped n = ['\\', e] ∧ e ≠ 'u' ∧ shortEscape? e = some n) ∨
    (escaped n = unitEscape n ∧ n < 65536) ∨
    (escaped n = [Char.ofNat n] ∧ 0x20 ≤ n ∧ n ≠ 0x22 ∧ n ≠ 0x5c) := by
  unfold escaped
  repeat (split; · subst n; exact .inl ⟨_, rfl, by decide, rfl⟩)
  split
  · rename_i h
    refine .inr (.inl ⟨rfl, ?_⟩)
    simp only [isHighHalf, isLowHalf, Bool.or_eq_true, Bool.and_eq_true, decide_eq_true_eq] at h
    omega
  · rename_i h
    refine .inr (.inr ⟨rfl, ?_, ‹_›, ‹_›⟩)
    simp only [Bool.or_eq_true, decide_eq_true_eq, not_or] at h
    omega

theorem readString_escaped (c : Char) (s : List Char) :
    readString (escaped c.toNat ++ s) = (readString s).map fun r => (c.toNat :: r.1, r.2) := by
  obtain ⟨e, he, hu, hshort⟩ | ⟨he, hlt⟩ | ⟨he, hlow, hquote, hslash⟩ := escaped_cases c.toNat
  · rw [he, List.cons_append, List.cons_append, List.nil_append, readString, hshort,
      Option.map_eq_bind]
    · rfl
    · exact fun _ _ _ _ _ hu' _ => hu hu'
  · rw [he, unitEscape, Option.map_eq_bind]
    simp only [List.cons_append, List.nil_append, readString, unit?_unitEscape hlt]
    rfl
  · have hq : c ≠ '"' := by rintro rfl; exact hquote rfl
    have hb : c ≠ '\\' := by rintro rfl; exact hslash rfl
    have hplain : (decide (c.toNat < 0x20) || c == '\\') = false := by
      simp [hb, hlow]
    rw [he, Char.ofNat_toNat, List.cons_append, List.nil_append, Option.map_eq_bind, readString,
      hplain]
    · rfl
    · exact hq
    · exact fun _ _ _ _ _ h _ => hb h
    · exact fun _ _ h _ => hb h

/-- A string is read back behind its opening quote. -/
theorem readString_codesOf (name : String) (rest : List Char) :
    readString ((codesOf name).flatMap escaped ++ '"' :: rest) = some (codesOf name, rest) := by
  unfold codesOf
  induction name.toList with
  | nil => simp [readString]
  | cons c s ih =>
    rw [List.map_cons, List.flatMap_cons, List.append_assoc, readString_escaped, ih]
    rfl

/-! ## Items and members -/

theorem commaSeparated_singleton (part : List Char) : commaSeparated [part] = part := by
  simp [commaSeparated, List.intercalate]

theorem commaSeparated_cons_cons (a b : List Char) (parts : List (List Char)) :
    commaSeparated (a :: b :: parts) = a ++ ',' :: commaSeparated (b :: parts) := by
  simp [commaSeparated, List.intercalate]

theorem commaSeparated_head (c : Char) (w : List Char) (parts : List (List Char)) :
    ∃ t, commaSeparated ((c :: w) :: parts) = c :: t := by
  cases parts with
  | nil => exact ⟨w, commaSeparated_singleton _⟩
  | cons b parts => exact ⟨_, commaSeparated_cons_cons _ b parts⟩

theorem skipSpaces_cons {c : Char} (hc : isSpace c = false) (s : List Char) :
    skipSpaces (c :: s) = c :: s := List.dropWhile_cons_of_neg (by simp [hc])

/-- A value that can be read back from what is written for it. -/
structure ReadsBack (j : Json) : Prop where
  /-- Its first character is no blank, and does not close an array. -/
  begins : ∃ c s, j.render = c :: s ∧ isSpace c = false ∧ c ≠ ']'
  /-- It is read from the front of every text that does not go on with a number. Reading takes at
  most two calls for each of its characters. -/
  reads : ∀ fuel rest, 2 * j.render.length ≤ fuel + 1 → Ends rest →
    readValue fuel (j.render ++ rest) = some (j, rest)

theorem ReadsBack.length_pos {j : Json} (h : j.ReadsBack) : 0 < j.render.length := by
  obtain ⟨c, s, hs, -⟩ := h.begins
  rw [hs]; exact Nat.succ_pos _

variable {j : Json} {items : List Json} {members : List (List Nat × Json)} {fuel : Nat}
  {s s' rest : List Char}

theorem readItems_last (h : readValue fuel s = some (j, ']' :: rest)) :
    readItems (fuel + 1) s = some ([j], rest) := by
  simp [readItems, h, skipSpaces_cons (show isSpace ']' = false by decide)]

theorem readItems_more (h : readValue fuel s = some (j, ',' :: s'))
    (h' : readItems fuel s' = some (items, rest)) :
    readItems (fuel + 1) s = some (j :: items, rest) := by
  simp [readItems, h, skipSpaces_cons (show isSpace ',' = false by decide), h']

theorem readItems_render (hne : items ≠ []) (h : ∀ j ∈ items, j.ReadsBack) (fuel : Nat)
    (rest : List Char) (hfuel : 2 * (commaSeparated (renderItems items)).length ≤ fuel) :
    readItems fuel (commaSeparated (renderItems items) ++ ']' :: rest) = some (items, rest) := by
  induction items generalizing fuel with
  | nil => exact absurd rfl hne
  | cons j items ih =>
    have hj := h j (by simp)
    have hpos := hj.length_pos
    cases items with
    | nil =>
      simp only [renderItems, commaSeparated_singleton] at hfuel ⊢
      obtain ⟨fuel, rfl⟩ := Nat.exists_eq_add_of_le' (show 1 ≤ fuel by omega)
      exact readItems_last (hj.reads fuel _ (by omega) (ends_cons (by decide) (by decide) _))
    | cons j' items =>
      simp only [renderItems, commaSeparated_cons_cons, List.append_assoc, List.cons_append,
        List.length_append, List.length_cons] at hfuel ih ⊢
      -- the comma pays for this call, so what is left is enough for the item and for the others
      obtain ⟨fuel, rfl⟩ := Nat.exists_eq_add_of_le' (show 1 ≤ fuel by omega)
      refine readItems_more (hj.reads fuel _ (by omega) (ends_cons (by decide) (by decide) _)) ?_
      exact ih (List.cons_ne_nil _ _) (fun k hk => h k (by simp [hk])) fuel (by omega)

theorem readMembers_last {name : List Nat} (hname : readString s = some (name, ':' :: s'))
    (h : readValue fuel s' = some (j, '\x7d' :: rest)) :
    readMembers (fuel + 1) ('"' :: s) = some ([(name, j)], rest) := by
  have hquote : skipSpaces ('"' :: s) = '"' :: s := rfl
  have hcolon : skipSpaces (':' :: s') = ':' :: s' := rfl
  have hclose : skipSpaces ('\x7d' :: rest) = '\x7d' :: rest := rfl
  simp [readMembers, hquote, hname, hcolon, h, hclose]

theorem readMembers_more {name : List Nat} {s'' : List Char}
    (hname : readString s = some (name, ':' :: s'))
    (h : readValue fuel s' = some (j, ',' :: s''))
    (h' : readMembers fuel s'' = some (members, rest)) :
    readMembers (fuel + 1) ('"' :: s) = some ((name, j) :: members, rest) := by
  have hquote : skipSpaces ('"' :: s) = '"' :: s := rfl
  have hcolon : skipSpaces (':' :: s') = ':' :: s' := rfl
  have hcomma : skipSpaces (',' :: s'') = ',' :: s'' := rfl
  simp [readMembers, hquote, hname, hcolon, h, hcomma, h']

theorem readMembers_render (hne : members ≠ []) (hname : ∀ m ∈ members, ∃ s, m.1 = codesOf s)
    (h : ∀ m ∈ members, m.2.ReadsBack) (fuel : Nat) (rest : List Char)
    (hfuel : 2 * (commaSeparated (renderMembers members)).length ≤ fuel) :
    readMembers fuel (commaSeparated (renderMembers members) ++ '\x7d' :: rest) =
      some (members, rest) := by
  induction members generalizing fuel with
  | nil => exact absurd rfl hne
  | cons m members ih =>
    obtain ⟨name, j⟩ := m
    obtain ⟨name, rfl⟩ := hname _ (List.mem_cons_self ..)
    have hj : j.ReadsBack := h _ (List.mem_cons_self ..)
    have hpos := hj.length_pos
    have hread := fun s => readString_codesOf name (':' :: s)
    cases members with
    | nil =>
      simp only [renderMembers, commaSeparated_singleton, stringText, List.append_assoc,
        List.cons_append, List.nil_append, List.length_cons, List.length_append] at hfuel ⊢
      obtain ⟨fuel, rfl⟩ := Nat.exists_eq_add_of_le' (show 1 ≤ fuel by omega)
      refine readMembers_last (hread _) (hj.reads fuel _ (by omega) ?_)
      exact ends_cons (by decide) (by decide) _
    | cons m' members =>
      simp only [renderMembers, commaSeparated_cons_cons, stringText, List.append_assoc,
        List.cons_append, List.nil_append, List.length_cons, List.length_append] at hfuel ih ⊢
      obtain ⟨fuel, rfl⟩ := Nat.exists_eq_add_of_le' (show 1 ≤ fuel by omega)
      refine readMembers_more (hread _) (hj.reads fuel _ (by omega) ?_) ?_
      · exact ends_cons (by decide) (by decide) _
      · exact ih (List.cons_ne_nil _ _) (fun k hk => hname k (by simp [hk]))
          (fun k hk => h k (by simp [hk])) fuel (by omega)

/-! ## Values of every kind -/

/-- A value in which every number is whole and every string holds characters, no lone half of a
surrogate pair. -/
inductive IsWhole : Json → Prop
  | null : IsWhole .null
  | bool (b : Bool) : IsWhole (.bool b)
  | number (i : Int) : IsWhole (.ofInt i)
  | string (s : String) : IsWhole (.ofString s)
  | array {items : List Json} : (∀ j ∈ items, IsWhole j) → IsWhole (.array items)
  | object {members : List (List Nat × Json)} : (∀ m ∈ members, ∃ s, m.1 = codesOf s) →
    (∀ m ∈ members, IsWhole m.2) → IsWhole (.object members)

/-- One call takes the first character of a value, and the others are there for the rest of it. -/
theorem readsBack_of_cons {c : Char} {w : List Char} (hrender : j.render = c :: w)
    (hc : isSpace c = false ∧ c ≠ ']')
    (h : ∀ fuel rest, 2 * w.length ≤ fuel → Ends rest →
      readValue (fuel + 1) (c :: (w ++ rest)) = some (j, rest)) : j.ReadsBack where
  begins := ⟨c, w, hrender, hc⟩
  reads fuel rest hfuel hrest := by
    rw [hrender, List.length_cons] at hfuel
    obtain ⟨fuel, rfl⟩ := Nat.exists_eq_add_of_le' (show 1 ≤ fuel by omega)
    rw [hrender]
    exact h fuel rest (by omega) hrest

theorem readsBack_number (i : Int) : (Json.ofInt i).ReadsBack := by
  obtain ⟨c, w, hw⟩ := List.exists_cons_of_ne_nil (Decimal.ofInt_ne_nil i)
  have hfirst : c = '-' ∨ c.isDigit = true := Decimal.mem_ofInt (i := i) (by rw [hw]; simp)
  have hspace : isSpace c = false := by
    rw [← Bool.not_eq_true]
    intro h
    simp only [isSpace, Bool.or_eq_true, beq_iff_eq] at h
    rcases hfirst with rfl | hd
    · simp at h
    · rcases h with ((rfl | rfl) | rfl) | rfl <;> cases hd
  have hne : ∀ k : Char, k ≠ '-' → k.isDigit = false → c ≠ k := by
    rintro k hk hkd rfl
    rcases hfirst with rfl | hd
    · exact hk rfl
    · rw [hkd] at hd; cases hd
  refine readsBack_of_cons ((Decimal.Numeral.text_ofInt i).trans hw)
    ⟨hspace, hne ']' (by decide) (by decide)⟩ fun fuel rest _ hrest => ?_
  have hread := readNumber_ofInt hrest i
  rw [hw, List.cons_append] at hread
  rw [readValue, skipSpaces_cons hspace]
  simp [hne '"', hne '[', hne '\x7b', hne 'n', hne 't', hne 'f', hread, ofInt]

theorem readsBack_array (h : ∀ j ∈ items, j.ReadsBack) : (Json.array items).ReadsBack := by
  have hrender : (Json.array items).render = '[' :: (commaSeparated (renderItems items) ++ [']']) :=
    rfl
  refine readsBack_of_cons hrender (by decide) fun fuel rest hfuel _ => ?_
  rw [List.length_append] at hfuel
  rw [readValue, skipSpaces_cons (by decide), List.append_assoc]
  cases items with
  | nil => rfl
  | cons j items =>
    have hitems := readItems_render (List.cons_ne_nil j items) h fuel rest (by omega)
    obtain ⟨c, w, hw, hspace, hclose⟩ := (h j (by simp)).begins
    obtain ⟨t, ht⟩ := commaSeparated_head c w (renderItems items)
    rw [renderItems, hw, ht] at hitems ⊢
    rw [List.cons_append] at hitems
    simp [skipSpaces_cons hspace, hclose, hitems]

theorem readsBack_object (hname : ∀ m ∈ members, ∃ s, m.1 = codesOf s)
    (h : ∀ m ∈ members, m.2.ReadsBack) : (Json.object members).ReadsBack := by
  have hrender : (Json.object members).render =
      '\x7b' :: (commaSeparated (renderMembers members) ++ ['\x7d']) := rfl
  refine readsBack_of_cons hrender (by decide) fun fuel rest hfuel _ => ?_
  rw [List.length_append] at hfuel
  rw [readValue, skipSpaces_cons (by decide), List.append_assoc]
  cases members with
  | nil => rfl
  | cons m members =>
    have hmembers :=
      readMembers_render (List.cons_ne_nil m members) hname h fuel rest (by omega)
    obtain ⟨t, ht⟩ : ∃ t, commaSeparated (renderMembers (m :: members)) = '"' :: t :=
      commaSeparated_head _ _ _
    have hquote : ∀ s, skipSpaces ('"' :: s) = '"' :: s := skipSpaces_cons (by decide)
    rw [ht] at hmembers ⊢
    rw [List.cons_append] at hmembers
    simp [hquote, hmembers]

/-- What is written for a value whose numbers are whole is read back. -/
theorem IsWhole.readsBack (h : j.IsWhole) : j.ReadsBack := by
  induction h with
  | null => exact readsBack_of_cons rfl (by decide) fun _ _ _ _ => rfl
  | bool b => cases b <;> exact readsBack_of_cons rfl (by decide) fun _ _ _ _ => rfl
  | number i => exact readsBack_number i
  | string s =>
    refine readsBack_of_cons rfl (by decide) fun fuel rest _ _ => ?_
    have hread := readString_codesOf s rest
    rw [readValue, skipSpaces_cons (by decide)]
    simp [hread, ofString]
  | array _ ih => exact readsBack_array ih
  | object hname _ ih => exact readsBack_object hname ih

theorem IsWhole.parse?_render (h : j.IsWhole) : parse? j.render = some j := by
  have hread := h.readsBack.reads (2 * j.render.length + 1) [] (by omega) ends_nil
  rw [List.append_nil] at hread
  rw [parse?, hread]
  rfl

end GridQuery.Json
