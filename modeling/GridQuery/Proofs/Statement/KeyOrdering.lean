import GridQuery.Proofs.Statement.OrderClause
import GridQuery.Proofs.Statement.Parts
/-!
# The statement for the keys is ordered as the statement

The statement for the keys has another projection, and the whole text is read again. What it projects
are names: the key, and the properties that the statement is ordered by. A name holds no blank, so no
clause of two words begins in the list of the names or goes on into it. Where the ordering and the limit
of the statement stand behind its source, the statement for the keys has the same ones.

Results:
* `occursIn_commaList`: a clause is in no list if it is in none of the parts.
* `beginsIn_projected`: no ordering and no limit begins in front of the source.
* `find?_projected`: behind the new projection the clauses of the statement are found.
* `forKeys_keeps_ordering`: the statement for the keys, and when there is none.
-/

namespace GridQuery

namespace Phrase

variable {p : Phrase}

/-- A clause of whole words is in no list if it is in none of the parts. -/
theorem occursIn_commaList (hp : p.startsWithWord = true) (hv : p.Visible)
    (hc : p.stoppedBy ',' = true) {parts : List (List Char)}
    (h : ∀ s ∈ parts, p.occursIn s = false) : p.occursIn (Text.commaList parts) = false := by
  refine Text.commaList_induction (P := fun s => p.occursIn s = false) rfl (fun s t hs ht => ?_) h
  refine (occursAfter_append_stop hv hc none s _).trans ?_
  rw [occursAfter_blank hp (by decide), ht, Bool.or_false]
  exact hs

/-- The text is a name: it holds at least one character and no blank. -/
def IsName (s : List Char) : Prop := s ≠ [] ∧ ∀ c ∈ s, Text.isBlank c = false

theorem trimmed_names {parts : List (List Char)} (h : ∀ s ∈ parts, IsName s) :
    Text.Trimmed (Text.commaList parts) :=
  Text.trimmed_commaList (fun s hs => (h s hs).1) fun s hs => Text.trimmed_of_no_blank (h s hs).2

/-- A phrase that is not found in a projection of names, and neither over the borders of it. -/
structure SkipsNames (p : Phrase) : Prop where
  letter : ∀ {l}, Text.foldsTo 'S' l = true → (p.lead ++ p.operand).all (Token.refuses l) = true
  opening : ∀ v, p.beginsIn none "SELECT DISTINCT".toList (' ' :: v) = false
  names : ∀ {parts}, (∀ s ∈ parts, IsName s) → ∀ b,
    p.occursAfter b (' ' :: Text.commaList parts) = false
  cut : ∀ {u d}, u.getLast?.all (fun c => !Text.isBlank c) = true → Text.foldsTo 'F' d = true →
    ∀ r, p.CutBetween u (' ' :: d :: r)
  space : ∀ {d}, Text.foldsTo 'F' d = true → ∀ b r, p.hitAt? b (' ' :: d :: r) = none

/-- A keyword does not take a letter that it does not have. -/
theorem refuses_word {a l : Char} {k : String} (ha : a.isUpper = true) (hl : Text.foldsTo a l = true)
    (hk : (k.toList.all fun c => c.isUpper && c != a) = true) : Token.refuses l (.word k) = true := by
  simp only [Token.refuses, List.all_cons, List.all_nil, Bool.and_true, List.all_eq_true]
  intro c hc
  obtain ⟨hupper, hne⟩ := Bool.and_eq_true_iff.1 (List.all_eq_true.1 hk c hc)
  rw [Text.foldsTo_apart hupper ha (by simpa using hne) hl]
  rfl

theorem orderBy_skipsNames : orderBy.SkipsNames where
  letter := fun {l} hl => by
    have hedge : Token.refuses l .edge = true := rfl
    have hblanks : Token.refuses l .blanks = true := by
      rw [Token.refuses, Text.isBlank_of_foldsTo (by decide) hl]; rfl
    have horder : Token.refuses l (.word "ORDER") = true := refuses_word (by decide) hl (by decide)
    have hby : Token.refuses l (.word "BY") = true := refuses_word (by decide) hl (by decide)
    simp only [orderBy, List.append_nil, List.all_cons, List.all_nil, hedge, hblanks, horder, hby,
      Bool.and_self]
  opening _ := rfl
  names h b := by
    have hparts : ∀ s ∈ _, orderBy.occursIn s = false :=
      fun s hs => occursAfter_of_no_blank orderBy_spaced (h s hs).2 none
    rw [occursAfter_blank (by decide) (by decide)]
    exact occursIn_commaList (by decide) (visible_of_consumes (by decide)) (by decide) hparts
  cut hu hd r := by
    refine orderBy_cutBetween hu ?_
    rw [List.dropWhile_cons_of_pos (by decide),
      List.dropWhile_cons_of_neg (by simp [Text.isBlank_of_foldsTo (by decide) hd])]
    exact Text.takeKeyword_of_apart (by decide) (by decide) (by decide) hd
  space _ b r := hitAt?_of_head (by decide) (by rw [List.head?_cons, Option.all_some]; decide) b

theorem limit_skipsNames : limit.SkipsNames where
  letter := fun {l} hl => by
    have hedge : Token.refuses l .edge = true := rfl
    have hany : Token.refuses l (.any Text.isBlank) = true := by
      rw [Token.refuses, Text.isBlank_of_foldsTo (by decide) hl]; rfl
    have hblanks : Token.refuses l .blanks = true := hany
    have hdigits : Token.refuses l .digits = true := by
      rw [Token.refuses, Text.isDigit_of_foldsTo (by decide) hl]; rfl
    have hword : Token.refuses l (.word "LIMIT") = true := refuses_word (by decide) hl (by decide)
    simp only [limit, List.cons_append, List.nil_append, List.all_cons, List.all_nil, hedge, hany,
      hblanks, hdigits, hword, Bool.and_self]
  opening _ := rfl
  names h b := by
    have hnone : limit.hits (Text.commaList _) = [] := limit_hits_commaList fun s hs =>
      limit_hits_eq_nil_iff.2 (occursAfter_of_no_blank limit_spaced (h s hs).2 none)
    rw [limit_occursAfter_of_head (by rw [List.head?_cons, Option.any_some]; decide) b none]
    refine limit_hits_eq_nil_iff.1 ?_
    rw [hits_eq]
    exact limit_hitsAfter_cons_blank (by decide) none hnone
  cut hu hd r := by
    refine limit_cutBetween hu ⟨by rw [List.head?_cons, Option.all_some]; decide, ?_⟩
    rw [List.dropWhile_cons_of_pos (by decide),
      List.dropWhile_cons_of_neg (by simp [Text.isBlank_of_foldsTo (by decide) hd]),
      List.head?_cons, Option.all_some, Text.isDigit_of_foldsTo (by decide) hd]
    rfl
  space hd b r := by
    rw [limit_hitAt?_cons_blank (by decide), limit_hitAt?_of_not_start, Option.map_none]
    rintro e ⟨⟩
    exact ⟨Text.isBlank_of_foldsTo (by decide) hd, Text.foldsTo_apart (by decide) (by decide)
      (by decide) hd⟩

end Phrase

/-- The part begins with the word of a projection and ends in front of that of a source. -/
structure Cut.Projects (c : Cut) : Prop where
  opening : ∃ l r, c.part = l :: r ∧ Text.foldsTo 'S' l = true
  source : ∃ d r, c.after = d :: r ∧ Text.foldsTo 'F' d = true
  before : c.before.getLast?.any Text.isWord = false
  part : (c.before ++ c.part).getLast?.any Text.isWord = false

namespace Statement

open Phrase

variable {q : Statement} {c : Cut} {key : String}

theorem projects_of_projection? (h : q.projection? = some c) : c.Projects := by
  simp only [projection?, Option.bind_eq_bind, Option.bind_eq_some_iff, Option.some.injEq] at h
  obtain ⟨f, hf, g, hg, rfl⟩ := h
  have hselect := hitAt?_of_find hf
  have hfrom := hitAt?_of_find hg
  obtain ⟨l, r, hl, hfolds⟩ := exists_cons_of_hitAt? (p := select) rfl (w := "SELECT") rfl hselect
  obtain ⟨d, r', hd, hfolds'⟩ := exists_cons_of_hitAt? (p := fromWord) rfl (w := "FROM") rfl hfrom
  have hbefore := not_word_of_hitAt? (p := select) (by decide) hselect
  have hpart := not_word_of_hitAt? (p := fromWord) (by decide) hfrom
  rw [Option.or_none] at hbefore
  refine ⟨⟨l, r ++ g.before, by rw [hl]; rfl, hfolds⟩, ⟨d, r' ++ g.after, by rw [hd]; rfl, hfolds'⟩,
    hbefore, ?_⟩
  rw [List.getLast?_append, List.getLast?_append]
  have hne : f.hit.text.getLast?.isSome = true := by
    rw [hl]
    exact List.getLast?_isSome.2 (List.cons_ne_nil l r)
  obtain ⟨e, he⟩ := Option.isSome_iff_exists.1 hne
  rw [he] at hpart ⊢
  rw [← hpart]
  cases g.before.getLast? <;> rfl

/-! ## Clauses behind the source -/

/-- The text in front of the source with another projection. -/
def projected (before : List Char) (names : List (List Char)) : List Char :=
  before ++ ("SELECT DISTINCT".toList ++ ' ' :: Text.commaList names)

/-- Neither in front of the projection nor in it a clause begins. -/
theorem beginsIn_projected {p : Phrase} (hp : p.SkipsNames) (hc : c.Projects)
    {names : List (List Char)} (hnames : ∀ s ∈ names, IsName s) (hne : names ≠ [])
    (hno : p.beginsIn none (c.before ++ c.part) c.after = false) :
    p.beginsIn none (projected c.before names) (' ' :: c.after) = false := by
  obtain ⟨l, r, hl, hfolds⟩ := hc.opening
  obtain ⟨d, z, hd, hsource⟩ := hc.source
  rw [beginsIn_append, Bool.or_eq_false_iff, hl] at hno
  have hfront : p.beginsIn none c.before ("SELECT DISTINCT".toList ++ ' ' :: Text.commaList names ++
      ' ' :: c.after) = false := by
    have hword : Text.isWord 'S' = Text.isWord l := by
      rw [Text.isWord_of_foldsTo (by decide) hfolds]; decide
    exact (beginsIn_swap hword (hp.letter (by decide)) (hp.letter hfolds) none _ _ _).trans hno.1
  have hlist : p.beginsIn (some 'T') (' ' :: Text.commaList names) (' ' :: c.after) = false := by
    have hnonempty := Text.commaList_ne_nil hne fun s hs => (hnames s hs).1
    have hlast : (' ' :: Text.commaList names).getLast?.all (fun c => !Text.isBlank c) = true := by
      obtain ⟨e, he⟩ := Option.isSome_iff_exists.1 (List.getLast?_isSome.2 hnonempty)
      have htrimmed := (trimmed_names hnames).last
      rw [he] at htrimmed
      rw [List.getLast?_cons, he]
      exact htrimmed
    rw [hd, (hp.cut hlast hsource z).beginsIn]
    exact hp.names hnames _
  have hopening : (c.before.getLast?.or none).any Text.isWord = (none : Option Char).any Text.isWord := by
    rw [Option.or_none]; exact hc.before
  rw [projected, beginsIn_append, hfront, beginsIn_append, beginsIn_congr hopening, List.cons_append,
    hp.opening, Bool.false_or, Bool.false_or]
  exact hlist

theorem find?_of_source {p : Phrase} (hc : c.Projects)
    (hno : p.beginsIn none (c.before ++ c.part) c.after = false) :
    p.find? c.text =
      (p.find? c.after).map fun f => { f with before := c.before ++ c.part ++ f.before } := by
  have hbehind : ((c.before ++ c.part).getLast?.or none).any Text.isWord =
      (none : Option Char).any Text.isWord := by
    rw [Option.or_none]; exact hc.part
  rw [Cut.text, ← List.append_assoc, find?, findAfter?_of_not_begins hno, findAfter?_congr hbehind]
  rfl

/-- Behind the new projection the clauses of the source are found. -/
theorem find?_projected {p : Phrase} (hp : p.SkipsNames) (hc : c.Projects)
    {names : List (List Char)} (hnames : ∀ s ∈ names, IsName s) (hne : names ≠ [])
    (hno : p.beginsIn none (c.before ++ c.part) c.after = false) :
    p.find? (projected c.before names ++ ' ' :: c.after) = (p.find? c.after).map fun f =>
      { f with before := projected c.before names ++ ' ' :: f.before } := by
  obtain ⟨d, z, hd, hsource⟩ := hc.source
  have hspace : (some ' ').any Text.isWord = (none : Option Char).any Text.isWord := by decide
  rw [find?, findAfter?_of_not_begins (beginsIn_projected hp hc hnames hne hno), hd, findAfter?,
    hp.space hsource, findAfter?_congr hspace, Option.map_map]
  rfl

/-! ## The statement for the keys -/

/-- No ordering and no limit begins in front of the source. -/
def ClausesBehind (q : Statement) : Prop :=
  ∀ c ∈ q.projection?,
    (∀ f ∈ orderBy.find? q.chars, (c.before ++ c.part).length ≤ f.before.length) ∧
      ∀ f ∈ limit.find? q.chars, (c.before ++ c.part).length ≤ f.before.length

instance (q : Statement) : Decidable q.ClausesBehind :=
  inferInstanceAs (Decidable (∀ c ∈ q.projection?,
    (∀ f ∈ orderBy.find? q.chars, (c.before ++ c.part).length ≤ f.before.length) ∧
      ∀ f ∈ limit.find? q.chars, (c.before ++ c.part).length ≤ f.before.length))

/-- Rows are combined, or there is no projection, or no source behind the first one. -/
def Unkeyed (q : Statement) : Prop :=
  q.isAggregate = true ∨ select.find? q.chars = none ∨
    ∃ f, select.find? q.chars = some f ∧ fromWord.findAfter? f.hit.text.getLast? f.after = none

theorem unkeyed_iff : q.Unkeyed ↔ q.isAggregate = true ∨ q.projection? = none := by
  refine or_congr_right ?_
  rw [projection?]
  cases select.find? q.chars with
  | none => simp
  | some f =>
    rw [Option.bind_eq_bind, Option.bind_some]
    constructor
    · rintro (h | ⟨g, hg, hnone⟩)
      · cases h
      · obtain rfl := Option.some.inj hg
        rw [hnone]; rfl
    · intro h
      refine .inr ⟨f, rfl, ?_⟩
      cases hfrom : fromWord.findAfter? f.hit.text.getLast? f.after with
      | none => rfl
      | some g => rw [hfrom] at h; cases h

/-- `k` is the statement `q`, cut around its projection, asking for distinct rows of `names`. -/
structure KeysOf (q : Statement) (key : String) (c : Cut) (names : List String) (k : Statement) :
    Prop where
  text : k.chars = projected c.before (names.map String.toList) ++ ' ' :: c.after
  first : names.head? = some key
  nodup : names.Nodup
  projects : ∀ p ∈ k.orderedProperties, p ∈ names
  ordered : k.orderedProperties = q.orderedProperties
  limited : k.limit? = q.limit?
  distinct : k.asksDistinct = true

theorem isName_of_mem_keyProjection (hkey : Text.isIdentifier key.toList = true) :
    ∀ s ∈ (keyProjection key q.orderedProperties).map String.toList, IsName s := by
  intro s hs
  obtain ⟨p, hp, rfl⟩ := List.mem_map.1 hs
  rcases mem_keyProjection.1 hp with rfl | hp
  · obtain ⟨c, r, hcut, -⟩ := Text.exists_cons_of_identifier hkey
    exact ⟨by rw [hcut]; exact List.cons_ne_nil c r, Text.noBlank_of_identifier hkey⟩
  · exact noBlank_of_mem_orderedProperties hp

theorem keyNames_ne_nil (q : Statement) (key : String) :
    (keyProjection key q.orderedProperties).map String.toList ≠ [] := by
  intro h
  have hfirst := head?_keyProjection key q.orderedProperties
  rw [List.map_eq_nil_iff.1 h] at hfirst
  cases hfirst

theorem forKeys_projected (hkey : Text.isIdentifier key.toList = true)
    (hagg : q.isAggregate = false) (hc : q.projection? = some c) :
    q.forKeys key = .ok ⟨projected c.before
      ((keyProjection key q.orderedProperties).map String.toList) ++ ' ' :: c.after⟩ := by
  have hnames := isName_of_mem_keyProjection (q := q) hkey
  have hnonempty := Text.commaList_ne_nil (keyNames_ne_nil q key)
    fun s hs => (hnames s hs).1
  have htrimmed : Text.Trimmed ("DISTINCT ".toList ++ q.keyNames key) := by
    refine ⟨rfl, ?_⟩
    obtain ⟨e, he⟩ := Option.isSome_iff_exists.1 (List.getLast?_isSome.2 hnonempty)
    have hlast := (trimmed_names hnames).last
    rw [keyNames, List.getLast?_append, he]
    rwa [he] at hlast
  rw [forKeys_eq, hagg, if_neg Bool.false_ne_true, hc, htrimmed.trim_eq]
  refine congrArg (fun s => Except.ok (Statement.mk s)) ?_
  have hopening : "SELECT ".toList ++ "DISTINCT ".toList = "SELECT DISTINCT".toList ++ [' '] := rfl
  rw [Cut.replaced, projected, keyNames, ← List.append_assoc "SELECT ".toList, hopening]
  simp only [List.append_assoc, List.cons_append, List.nil_append]

/-- What is found at the same hit with the same text behind it is read the same. -/
theorem orderedProperties_congr {r : Statement}
    (h : (orderBy.find? q.chars).map Found.after = (orderBy.find? r.chars).map Found.after) :
    q.orderedProperties = r.orderedProperties := by
  have hclause : ∀ q : Statement, q.orderClause? = ((orderBy.find? q.chars).map Found.after).map
      fun s => ((limit.find? s).map Found.before).getD s := by
    intro q
    rw [orderClause?, Option.map_map]
    refine Option.map_congr fun f _ => ?_
    rw [Function.comp_apply]
    cases limit.find? f.after <;> rfl
  rw [orderedProperties_eq, orderedProperties_eq, hclause, hclause, h]

theorem limit?_congr {r : Statement}
    (h : (limit.find? q.chars).map Found.hit = (limit.find? r.chars).map Found.hit) :
    q.limit? = r.limit? := by
  have hlimit : ∀ q : Statement, q.limit? = ((limit.find? q.chars).map Found.hit).map fun m =>
      (Size.ofDigits? m.operand).getD Size.max := by
    intro q
    rw [limit?, Option.map_map]
    rfl
  rw [hlimit, hlimit, h]

/-- What is sought behind the source of the statement is found there in the statement for the keys,
and the text behind it is the same. -/
theorem find?_keys {p : Phrase} (hp : p.SkipsNames) (hc : q.projection? = some c)
    (hfound : ∀ f ∈ p.find? q.chars, (c.before ++ c.part).length ≤ f.before.length)
    {names : List (List Char)} (hnames : ∀ s ∈ names, IsName s) (hne : names ≠ []) :
    (p.find? (projected c.before names ++ ' ' :: c.after)).map (fun f => (f.hit, f.after)) =
      (p.find? q.chars).map fun f => (f.hit, f.after) := by
  have hprojects := projects_of_projection? hc
  have htext := text_of_projection? hc
  have hno : p.beginsIn none (c.before ++ c.part) c.after = false := by
    refine beginsIn_of_find fun f hf => hfound f ?_
    rwa [← htext, Cut.text, ← List.append_assoc]
  rw [find?_projected hp hprojects hnames hne hno, ← htext, find?_of_source hprojects hno,
    Option.map_map, Option.map_map]
  rfl

theorem asksDistinct_projected (hc : c.Projects) (names : List (List Char)) (s : List Char) :
    (⟨projected c.before names ++ s⟩ : Statement).asksDistinct = true := by
  have hbefore : (c.before.getLast?.or none).any Text.isWord = (none : Option Char).any Text.isWord := by
    rw [Option.or_none]; exact hc.before
  have hbehind : (' ' :: Text.commaList names ++ s).head?.any Text.isWord = false := by
    rw [List.cons_append, List.head?_cons, Option.any_some]; decide
  rw [projected, List.append_assoc, List.append_assoc]
  refine findAfter?_append (List.append_ne_nil_of_left_ne_nil (by decide) _) ?_
  rw [hitAt?_congr hbefore, selectDistinct_hitAt?_opening hbehind]
  rfl

/-- **The statement for the keys is ordered as the statement.** Where neither an ordering nor a limit
begins in front of the source, the statement for the keys is declined exactly if rows are combined or
there is no projection with a source. Otherwise only the projection is replaced: the key comes first,
no name comes twice, and all properties that the statement for the keys is ordered by are among the
names. These are the properties that the statement is ordered by, and the limit is the same. -/
theorem forKeys_keeps_ordering (hq : q.ClausesBehind) (hkey : Text.isIdentifier key.toList = true) :
    ((∃ why, q.forKeys key = .error (.declined why)) ↔ q.Unkeyed) ∧
      (¬ q.Unkeyed → ∃ c names k, q.projection? = some c ∧ q.forKeys key = .ok k ∧
        KeysOf q key c names k) := by
  rw [unkeyed_iff]
  cases hagg : q.isAggregate with
  | true =>
    have hdeclined : q.forKeys key = .error (.declined .aggregate) := by rw [forKeys_eq, hagg, if_pos rfl]
    exact ⟨iff_of_true ⟨_, hdeclined⟩ (.inl rfl), fun h => absurd (.inl rfl) h⟩
  | false =>
    cases hc : q.projection? with
    | none =>
      have hdeclined : q.forKeys key = .error (.declined .noProjection) := by
        rw [forKeys_eq, hagg, if_neg Bool.false_ne_true, hc]
      exact ⟨iff_of_true ⟨_, hdeclined⟩ (.inr rfl), fun h => absurd (.inr rfl) h⟩
    | some c =>
      have hok := forKeys_projected hkey hagg hc
      refine ⟨iff_of_false ?_ ?_, fun _ => ⟨c, keyProjection key q.orderedProperties, _, rfl, hok, ?_⟩⟩
      · rintro ⟨why, h⟩
        rw [hok] at h
        cases h
      · rintro (h | h) <;> cases h
      obtain ⟨hordering, hlimits⟩ := hq c hc
      have hnames := isName_of_mem_keyProjection (q := q) hkey
      have hne := keyNames_ne_nil q key
      have hordered := congrArg (Option.map Prod.snd)
        (find?_keys orderBy_skipsNames hc hordering hnames hne)
      have hlimited := congrArg (Option.map Prod.fst) (find?_keys limit_skipsNames hc hlimits hnames hne)
      rw [Option.map_map, Option.map_map] at hordered hlimited
      have hproperties := orderedProperties_congr (q := ⟨_⟩) hordered
      exact
        { text := rfl
          first := head?_keyProjection key _
          nodup := nodup_keyProjection key _
          projects := fun p hp => mem_keyProjection.2 (.inr (hproperties ▸ hp))
          ordered := hproperties
          limited := limit?_congr (q := ⟨_⟩) hlimited
          distinct := asksDistinct_projected (projects_of_projection? hc) _ _ }

/-- A key and properties that are keywords make no clause with what stands around them. -/
theorem forKeys_keeps_ordering_keywords :
    let q : Statement := ⟨"SELECT * FROM /Person p ORDER BY order DESC, 5, from, limit LIMIT 7".toList⟩
    let k : Statement := ⟨("SELECT DISTINCT limit, order, 5, from FROM /Person p " ++
      "ORDER BY order DESC, 5, from, limit LIMIT 7").toList⟩
    q.ClausesBehind ∧ Text.isIdentifier "limit".toList = true ∧ ¬ q.Unkeyed ∧
      q.forKeys "limit" = .ok k ∧ k.orderedProperties = ["order", "5", "from", "limit"] ∧
      k.limit? = some 7 ∧ k.asksDistinct = true := by
  intro q k
  have hq : q.ClausesBehind := by decide +kernel
  have hkey : Text.isIdentifier "limit".toList = true := by decide +kernel
  have hkeyed : ¬ q.Unkeyed := by
    rw [unkeyed_iff]
    rintro (h | h)
    · exact absurd h (by decide +kernel)
    · exact absurd h (by decide +kernel)
  have hk : q.forKeys "limit" = .ok k := by decide +kernel
  obtain ⟨c, names, k', -, hk', hkeys⟩ := (forKeys_keeps_ordering hq hkey).2 hkeyed
  obtain rfl : k = k' := Except.ok.inj (hk.symm.trans hk')
  refine ⟨hq, hkey, hkeyed, hk, hkeys.ordered.trans ?_, hkeys.limited.trans ?_, hkeys.distinct⟩
  · decide +kernel
  · decide +kernel

end Statement

end GridQuery
