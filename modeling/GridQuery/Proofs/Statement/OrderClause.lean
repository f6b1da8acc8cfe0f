import GridQuery.Proofs.Phrase.Borders
import GridQuery.Proofs.Statement.Unlimited
import GridQuery.Statement.Ordering
/-!
# Reading the ordering of a statement

The reader of an ordering takes what stands between the words that open it and a limit, and splits it
at commas. So it reads one part after the other, and of what an ordering writes it reads exactly the
properties. A limit behind a text without limits ends the ordering of the text and changes nothing in
it.

Results:
* `namedIn_append`, `namedIn_sortingText`: the reader splits what the writer joined.
* `unlimited_sortingText`: an ordering by identifiers holds no limit.
* `find?_limited`: the first hit of a text is the first one of the text with a limit behind it.
* `orderClause?_limited`: the ordering of a text with a limit behind it is the one of the text.
-/

namespace GridQuery

/-- The properties of the orders are words. -/
def Sorting.Worded (s : Sorting) : Prop :=
  ∀ o ∈ s.orders, Text.isIdentifier o.property.toList = true

instance (s : Sorting) : Decidable s.Worded :=
  inferInstanceAs (Decidable (∀ o ∈ s.orders, Text.isIdentifier o.property.toList = true))

/-! ## What is written for an ordering -/

namespace Order

variable {o : Order}

/-- Of an order the reader takes the property. -/
theorem firstPiece?_text (ho : Text.isIdentifier o.property.toList = true) :
    Text.firstPiece? (' ' :: o.text) = some o.property.toList := by
  obtain ⟨c, r, hcut, hc⟩ := Text.exists_cons_of_identifier ho
  have hblank := Text.noBlank_of_identifier ho
  have hstart : (' ' :: o.text).dropWhile Text.isBlank = o.text := by
    rw [List.dropWhile_cons_of_pos (by decide), Order.text, hcut, List.cons_append]
    exact List.dropWhile_cons_of_neg (by simp [Text.isBlank_of_isWord hc])
  have hpiece : o.text.takeWhile (fun c => !Text.isBlank c) = o.property.toList := by
    rw [Order.text, takeWhile_append_stop (by decide), List.takeWhile_eq_self_iff]
    intro c hc
    rw [hblank c hc]; rfl
  rw [Text.firstPiece?, hstart, hpiece, hcut]

theorem not_mem_text {c : Char} (ho : Text.isIdentifier o.property.toList = true)
    (hc : Text.isWord c = false) (hs : c ≠ ' ') : c ∉ o.text := by
  intro h
  rw [Order.text, List.mem_append, List.mem_cons] at h
  rcases h with h | rfl | h
  · rw [Text.isWord_of_identifier ho c h] at hc; cases hc
  · exact hs rfl
  · have hword : ∀ c ∈ o.direction.keyword.toList, Text.isWord c = true :=
      List.all_eq_true.1 (by cases o.direction <;> decide)
    rw [hword c h] at hc; cases hc

theorem getLast?_text (o : Order) : o.text.getLast? = some 'C' := by
  rw [Order.text, List.getLast?_append]
  cases o.direction <;> rfl

theorem text_ne_nil (o : Order) : o.text ≠ [] := by
  intro h
  have hlast := getLast?_text o
  rw [h] at hlast
  cases hlast

theorem trimmed_text (ho : Text.isIdentifier o.property.toList = true) : Text.Trimmed o.text where
  head := by
    obtain ⟨c, r, hcut, hc⟩ := Text.exists_cons_of_identifier ho
    rw [Order.text, hcut, List.cons_append, List.head?_cons, Option.all_some,
      Text.isBlank_of_isWord hc]
    rfl
  last := by rw [getLast?_text]; decide

/-- The keyword of the direction stands between a property that reads `LIMIT` and what is behind. -/
theorem limit_hits_text (ho : Text.isIdentifier o.property.toList = true) :
    Phrase.limit.hits o.text = [] := by
  have hblank := Text.noBlank_of_identifier ho
  have hproperty : Phrase.limit.hits o.property.toList = [] :=
    Phrase.limit_hits_eq_nil_iff.2 (Phrase.occursAfter_of_no_blank Phrase.limit_spaced hblank none)
  have hlast := (Text.trimmed_of_no_blank hblank).last
  have hapart : Phrase.Apart (' ' :: o.direction.keyword.toList) := by
    cases o.direction <;> exact ⟨by decide, by decide⟩
  have hdigit : (' ' :: o.direction.keyword.toList).any Text.isDigit = false := by
    cases o.direction <;> decide
  rw [Order.text, Phrase.hits_eq, Phrase.limit_hitsAfter_append hlast hapart, ← Phrase.hits_eq,
    hproperty, Phrase.limit_hitsAfter_of_no_digit fun c hc => by
      simpa using List.any_eq_false.1 hdigit c hc]
  rfl

end Order

namespace Sorting

variable {s t : Sorting}

theorem getLast?_text (hs : s.orders ≠ []) : s.text.getLast? = some 'C' := by
  rw [Sorting.text]
  refine Text.intercalate_induction (P := fun t => t.getLast? = some 'C') (fun t u _ hu => ?_)
    (by simpa using hs) (List.forall_mem_map.2 fun o _ => Order.getLast?_text o)
  rw [List.getLast?_append, List.getLast?_append, hu]
  rfl

theorem text_ne_nil (hs : s.orders ≠ []) : s.text ≠ [] := by
  intro h
  have hlast := getLast?_text hs
  rw [h] at hlast
  cases hlast

theorem text_append (hs : s.orders ≠ []) (ht : t.orders ≠ []) :
    text ⟨s.orders ++ t.orders⟩ = s.text ++ (", ".toList ++ t.text) := by
  rw [text, List.map_append]
  exact Text.commaList_append (by simpa using hs) (by simpa using ht)

end Sorting

namespace Statement

open Phrase

variable {s : Sorting}

theorem unlimited_sortingText (hw : s.Worded) : Unlimited s.text := by
  have hpart : ∀ {part}, part ∈ s.orders.map Order.text →
      ∃ o : Order, part = o.text ∧ Text.isIdentifier o.property.toList = true := by
    intro part hpart
    obtain ⟨o, ho, rfl⟩ := List.mem_map.1 hpart
    exact ⟨o, rfl, hw o ho⟩
  refine ⟨Text.trimmed_commaList (fun part h => ?_) fun part h => ?_,
    limit_hits_commaList fun part h => ?_⟩ <;> obtain ⟨o, rfl, ho⟩ := hpart h
  · exact Order.text_ne_nil o
  · exact Order.trimmed_text ho
  · exact Order.limit_hits_text ho

/-! ## The properties -/

/-- The properties that the text of an ordering names. -/
def namedIn (clause : List Char) : List String :=
  ((clause.splitOn ',').filterMap Text.firstPiece?).map String.ofList

theorem orderedProperties_eq (q : Statement) :
    q.orderedProperties = (q.orderClause?.map namedIn).getD [] := by
  rw [orderedProperties]
  cases q.orderClause? <;> rfl

theorem namedIn_append (u v : List Char) : namedIn (u ++ ',' :: v) = namedIn u ++ namedIn v := by
  rw [namedIn, List.splitOn, @List.splitOnP_append_cons _ (· == ',') u v ',' rfl,
    List.filterMap_append, List.map_append]
  rfl

theorem namedIn_order {o : Order} (ho : Text.isIdentifier o.property.toList = true) :
    namedIn (' ' :: o.text) = [o.property] := by
  have hcomma : ∀ c ∈ ' ' :: o.text, (c == ',') = false := by
    intro c hc
    rw [beq_eq_false_iff_ne]
    rintro rfl
    rcases List.mem_cons.1 hc with h | h
    · exact absurd h (by decide)
    · exact Order.not_mem_text ho (by decide) (by decide) h
  rw [namedIn, List.splitOn, List.splitOnP_eq_singleton hcomma, List.filterMap_cons,
    Order.firstPiece?_text ho]
  simp

/-- The reader finds the properties of what was written for an ordering. -/
theorem namedIn_sortingText (hs : s.orders ≠ []) (hw : s.Worded) :
    namedIn (' ' :: s.text) = s.properties := by
  rw [Sorting.text, Sorting.properties]
  rw [Sorting.Worded] at hw
  generalize s.orders = orders at hs hw
  induction orders with
  | nil => exact absurd rfl hs
  | cons o orders ih =>
    have ho := hw o (by simp)
    cases orders with
    | nil => rw [List.map_cons, List.map_nil, Text.commaList_singleton, namedIn_order ho]; rfl
    | cons o' orders =>
      have hrest := ih (List.cons_ne_nil o' orders) fun r hr => hw r (List.mem_cons_of_mem o hr)
      rw [List.map_cons] at hrest
      rw [List.map_cons, List.map_cons, Text.commaList_cons_cons, ← List.cons_append,
        namedIn_append, namedIn_order ho, hrest]
      rfl

/-- A property that is read holds at least one character and no blank. -/
theorem noBlank_of_mem_orderedProperties {q : Statement} {p : String}
    (hp : p ∈ q.orderedProperties) :
    p.toList ≠ [] ∧ ∀ c ∈ p.toList, Text.isBlank c = false := by
  rw [orderedProperties] at hp
  split at hp
  · obtain ⟨piece, hpiece, rfl⟩ := List.mem_map.1 hp
    obtain ⟨part, -, hpart⟩ := List.mem_filterMap.1 hpiece
    rw [String.toList_ofList]
    exact Text.firstPiece?_parts hpart
  · cases hp

end Statement

/-! ## A limit behind the text -/

namespace Phrase

open Statement

variable {p : Phrase} {b : Option Char} {s : List Char}

/-- A phrase that begins with a word, and in no limit that is written. -/
def SkipsLimit (p : Phrase) : Prop :=
  p.startsWithWord = true ∧ ∀ v, p.beginsIn none "LIMIT".toList (' ' :: v) = false

theorem select_skipsLimit : select.SkipsLimit := ⟨by decide, fun _ => rfl⟩

theorem selectDistinct_skipsLimit : selectDistinct.SkipsLimit := ⟨by decide, fun _ => rfl⟩

theorem orderBy_skipsLimit : orderBy.SkipsLimit := ⟨by decide, fun _ => rfl⟩

theorem occursAfter_limitText (hp : p.SkipsLimit) (b : Option Char) (n : Option Nat) :
    p.occursAfter b (limitText n) = false := by
  cases n with
  | none => rfl
  | some n =>
    have hdigits : ∀ c ∈ Decimal.ofNat n, Text.isDigit c = true :=
      fun c hc => Text.isDigit_of_ascii (Decimal.isDigit_of_mem_ofNat hc)
    have hnumber : p.occursIn (Decimal.ofNat n) = false := by
      have hnil := occursAfter_digits hp.1 hdigits none []
      rwa [List.append_nil] at hnil
    have htext : limitText (some n) = ' ' :: ("LIMIT".toList ++ ' ' :: Decimal.ofNat n) := rfl
    rw [htext, occursAfter_blank hp.1 (by decide)]
    refine (occursAfter_append none "LIMIT".toList _).trans ?_
    rw [hp.2, occursAfter_blank hp.1 (by decide), hnumber]
    rfl

/-- A limit behind a text is behind its first hit, if it makes no hit with the end of the text. -/
theorem find?_limited (hp : p.SkipsLimit) (hcut : ∀ n, p.CutBetween s (limitText (some n)))
    (n : Option Nat) : p.find? (s ++ limitText n) =
      (p.find? s).map fun f => { f with after := f.after ++ limitText n } := by
  cases n with
  | none =>
    rw [limitText_none, List.append_nil]
    cases p.find? s with
    | none => rfl
    | some f => rw [Option.map_some, List.append_nil]
  | some n =>
    cases hf : p.find? s with
    | none =>
      have hno : p.occursAfter none s = false := by rw [occursAfter, ← find?, hf]; rfl
      have hlimit := occursAfter_limitText hp (s.getLast?.or none) (some n)
      rw [occursAfter, Option.isSome_eq_false_iff, Option.isNone_iff_eq_none] at hlimit
      rw [find?, (hcut n).findAfter?_behind hno, hlimit]
      rfl
    | some f => exact (hcut n).findAfter? hf

/-- What does not go on inside a word has the same limits whatever stands before it. -/
theorem limit_occursAfter_of_head (hs : s.head?.any Text.isWord = false) (b b' : Option Char) :
    limit.occursAfter b s = limit.occursAfter b' s := by
  cases s with
  | nil => rfl
  | cons c s =>
    have hfront : limit.hitAt? b (c :: s) = limit.hitAt? b' (c :: s) := by
      cases hc : Text.isBlank c with
      | true => exact limit_hitAt?_of_blank hc b b' s
      | false =>
        have hstart : ∀ d ∈ (c :: s).head?, Text.isBlank d = false ∧ Text.foldsTo 'L' d = false := by
          rintro d ⟨⟩
          refine ⟨hc, ?_⟩
          rw [← Bool.not_eq_true]
          intro hfolds
          rw [List.head?_cons, Option.any_some,
            Text.isWord_of_foldsTo (by decide) hfolds] at hs
          cases hs
        rw [limit_hitAt?_of_not_start hstart, limit_hitAt?_of_not_start hstart]
    rw [occursAfter_cons, occursAfter_cons, hfront]

end Phrase

namespace Statement

open Phrase

/-- Behind the words that open an ordering there is no limit, if the text has none. -/
theorem limit_occursIn_behind {s : List Char} (hs : limit.occursIn s = false) {f : Found}
    (hf : orderBy.find? s = some f) : limit.occursIn f.after = false := by
  have hedge := head?_behind orderBy_endsWithWord (hitAt?_of_find hf)
  rw [List.drop_left] at hedge
  have hall : limit.occursAfter none (f.before ++ f.hit.text ++ f.after) = false := by
    rw [findAfter?_text hf]; exact hs
  rw [occursAfter_append, Bool.or_eq_false_iff, limit_occursAfter_of_head hedge _ none] at hall
  exact hall.2

theorem orderClause?_limited {s : List Char} (hs : Unlimited s) (n : Option Nat) :
    (⟨s ++ limitText n⟩ : Statement).orderClause? = (orderBy.find? s).map Found.after := by
  have hcut : ∀ n, orderBy.CutBetween s (limitText (some n)) :=
    fun n => orderBy_cutBetween hs.trimmed.last rfl
  have hfind := find?_limited orderBy_skipsLimit hcut n
  rw [orderClause?, hfind, Option.map_map]
  cases hf : orderBy.find? s with
  | none => rfl
  | some f =>
    have hno := limit_occursIn_behind (limit_hits_eq_nil_iff.1 hs.no_limit) hf
    have hsuffix : f.after <:+ s := ⟨f.before ++ f.hit.text, findAfter?_text hf⟩
    rw [Option.map_some, Option.map_some, Function.comp_apply]
    cases n with
    | none =>
      have hnone : limit.find? (f.after ++ limitText none) = none := by
        rw [limitText_none, List.append_nil]
        simpa [occursIn] using hno
      dsimp only
      rw [hnone, limitText_none, List.append_nil]
    | some n =>
      have hlimit := Unlimited.find? (getLast?_all_of_suffix hsuffix hs.trimmed.last) hno n
      dsimp only
      rw [hlimit]

theorem orderedProperties_limited {s : List Char} (hs : Unlimited s) (n : Option Nat) :
    (⟨s ++ limitText n⟩ : Statement).orderedProperties =
      ((orderBy.find? s).map fun f => namedIn f.after).getD [] := by
  rw [orderedProperties_eq, orderClause?_limited hs, Option.map_map]
  rfl

end Statement

end GridQuery
