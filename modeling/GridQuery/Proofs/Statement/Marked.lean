import GridQuery.Proofs.Phrase.Taken
import GridQuery.Proofs.Statement.Decorated
/-!
# A decorated statement carries its marks

What a directive writes is found by what tells that it is there, whatever the method declares: hints
with angle brackets in their names end early, but they end, and so does an import with semicolons in
its clause, as long as it does not begin with one. A mark is still found when something is written
before it, because all that is written there ends in a space. So a decorated statement carries the
mark of every directive that the method declares, and decorating it again changes nothing.

Results:
* `hintMarker_occursIn`, `importMarker_occursIn`: what is written is recognised.
* `marker_occursIn_applyAll`: a decorated statement carries the marks of what is declared.
* `applyAll_of_marked`: a statement that carries them is left alone.
* `applyAll_standard`: what stands around a decorated statement, and that it is decorated once.
-/

namespace GridQuery

/-- A run up to a character that stands in the text ends in front of it. -/
theorem exists_dropWhile_bne {c : Char} {s : List Char} (hc : c ∈ s) :
    ∃ v, s.dropWhile (· != c) = c :: v := by
  cases h : s.dropWhile (· != c) with
  | nil => simpa using List.dropWhile_eq_nil_iff.1 h c hc
  | cons d v =>
    have hhead := head?_dropWhile_not (p := (· != c)) s
    rw [h] at hhead
    exact ⟨v, by simpa using hhead⟩

namespace Token

variable {c : Char} {s : List Char}

theorem takeAll_any_upTo (hc : c ∈ s) (b : Option Char) :
    takeAll b s [.any (· != c), .char c] = some (s.takeWhile (· != c) ++ [c]) := by
  obtain ⟨v, hv⟩ := exists_dropWhile_bne hc
  simp [takeAll, take, drop_takeWhile, hv]

/-- Where the text does not begin with the character, the run up to it is not empty. -/
theorem takeAll_many_upTo (hc : c ∈ s) (hs : s.head? ≠ some c) (b : Option Char) :
    takeAll b s [.many (· != c), .char c] = some (s.takeWhile (· != c) ++ [c]) := by
  have hsame : Token.take b s (.many (· != c)) = Token.take b s (.any (· != c)) := by
    cases s with
    | nil => cases hc
    | cons d s =>
      have hd : d ≠ c := fun h => hs (congrArg some h)
      simp [take, hd]
  rw [← takeAll_any_upTo hc b, takeAll, hsame, takeAll]

end Token

namespace Phrase

variable {p : Phrase}

theorem occursAfter_behind {b b' : Option Char} {F s : List Char}
    (hF : (F.getLast?.or b').any Text.isWord = b.any Text.isWord)
    (h : p.occursAfter b s = true) : p.occursAfter b' (F ++ s) = true := by
  induction F generalizing b' with
  | nil => exact (occursAfter_congr (by simpa using hF) s).trans h
  | cons c F ih =>
    rw [getLast?_cons_or] at hF
    rw [List.cons_append, occursAfter_cons, ih hF, Bool.or_true]

theorem occursIn_of_takeAll {s taken : List Char} (hp : p.operand = []) (hs : s ≠ [])
    (h : Token.takeAll none s p.lead = some taken) : p.occursIn s = true := by
  obtain ⟨c, r, rfl⟩ := List.exists_cons_of_ne_nil hs
  have hhit : p.hitAt? none (c :: r) = some ⟨taken, []⟩ := by
    simp only [hitAt?, h, hp, Token.takeAll, Option.bind_eq_bind, Option.bind_some]
  rw [occursIn, find?, findAfter?, hhit]; rfl

theorem traceMarker_occursIn (s : List Char) :
    traceMarker.occursIn ("<TRACE> ".toList ++ s) = true := rfl

theorem hintMarker_occursIn {names : List Char}
    (hnames : names.head?.all (fun c => !Text.isBlank c) = true) (s : List Char) :
    hintMarker.occursIn ("<HINT ".toList ++ names ++ "> ".toList ++ s) = true := by
  have hspace : Text.isBlank ' ' = true := by decide
  have hblank : (names ++ ("> ".toList ++ s)).takeWhile Text.isBlank = [] := by
    cases names with
    | nil => rfl
    | cons c names => exact List.takeWhile_cons_of_neg (by simpa using hnames)
  have hclose : '>' ∈ names ++ ("> ".toList ++ s) :=
    List.mem_append_right _ (List.mem_cons_self ..)
  rw [List.append_assoc, List.append_assoc]
  generalize names ++ ("> ".toList ++ s) = u at hblank hclose
  have hfront : Token.takeAll none ("<HINT ".toList ++ u) [.char '<', .word "HINT", .blanks] =
      some "<HINT ".toList := by
    simp [Token.takeAll, Token.take, Text.takeKeyword, Text.foldsTo, hspace, hblank]
  exact occursIn_of_takeAll rfl (List.cons_ne_nil _ _)
    (Token.takeAll_append.2 ⟨_, _, hfront, Token.takeAll_any_upTo hclose _, rfl⟩)

theorem importMarker_occursIn {clause : List Char} (hne : clause ≠ [])
    (hsemi : clause.head? ≠ some ';') (s : List Char) :
    importMarker.occursIn ("IMPORT ".toList ++ clause ++ "; ".toList ++ s) = true := by
  rw [List.append_assoc, List.append_assoc]
  have hhead : (clause ++ ("; ".toList ++ s)).head? ≠ some ';' := by
    rwa [List.head?_append_of_ne_nil _ hne]
  have hclose : ';' ∈ clause ++ ("; ".toList ++ s) :=
    List.mem_append_right _ (List.mem_cons_self ..)
  generalize clause ++ ("; ".toList ++ s) = u at hhead hclose
  have hfront : Token.takeAll none ("IMPORT ".toList ++ u)
      [.edge, .word "IMPORT", .one Text.isBlank] = some "IMPORT ".toList := rfl
  exact occursIn_of_takeAll rfl (List.cons_ne_nil _ _)
    (Token.takeAll_append.2 ⟨_, _, hfront, Token.takeAll_many_upTo hclose hhead _, rfl⟩)

end Phrase

/-! ## The clause of an import -/

/-- A clause between its blanks, and without the keyword in front of it. -/
def bareClause (clause : List Char) : List Char :=
  if (clause.take 6).map Char.toUpper = "IMPORT".toList && (clause.drop 6).head?.all Text.isBlank
  then Text.trim (clause.drop 6)
  else clause

theorem importClause_eq (text : String) :
    importClause text =
      bareClause (Text.trim (Text.dropEndWhile (· == ';') (Text.trim text.toList))) := rfl

theorem Text.head?_trim (s : List Char) : (trim s).head? = (s.dropWhile isBlank).head? := by
  obtain ⟨u, v, hs, hu, hv, hhead, -⟩ := exists_trim s
  conv_rhs => rw [hs, List.dropWhile_append_of_pos hu]
  cases ht : trim s with
  | nil => rw [List.nil_append, List.dropWhile_eq_nil_iff.2 hv]
  | cons c t =>
    have hfront : (c :: t ++ v).head?.all (fun c => !isBlank c) = true := by rwa [ht] at hhead
    rw [dropWhile_of_head hfront]; rfl

/-- A clause of which the end is cut off begins with a semicolon only if the clause does. -/
theorem head?_bareClause_of_isPrefix {w u : List Char} (h : w <+: u)
    (hw : (bareClause w).head? = some ';') : (bareClause u).head? = some ';' := by
  obtain ⟨z, rfl⟩ := h
  unfold bareClause at hw
  split at hw
  · rename_i hkeyword
    obtain ⟨hword, hgap⟩ := Bool.and_eq_true_iff.1 hkeyword
    have hlength : 6 ≤ w.length := by
      have h := congrArg List.length (of_decide_eq_true hword)
      rw [List.length_map, List.length_take] at h
      have h6 : "IMPORT".toList.length = 6 := rfl
      omega
    rw [Text.head?_trim] at hw
    obtain ⟨r, hr⟩ := List.head?_eq_some_iff.1 hw
    have hne : w.drop 6 ≠ [] := by
      intro hnil
      rw [hnil] at hr; cases hr
    have hkeyword' : (((w ++ z).take 6).map Char.toUpper = "IMPORT".toList &&
        ((w ++ z).drop 6).head?.all Text.isBlank) = true := by
      rw [List.take_append_of_le_length hlength, List.drop_append_of_le_length hlength,
        List.head?_append_of_ne_nil _ hne]
      exact hkeyword
    rw [bareClause, if_pos hkeyword', List.drop_append_of_le_length hlength, Text.head?_trim,
      (run_append_of_dropWhile hr z).2]
    rfl
  · obtain ⟨r, rfl⟩ := List.head?_eq_some_iff.1 hw
    rw [bareClause, if_neg (by simp)]
    rfl

/-- An import clause begins with a semicolon only if the text of the import does, between its blanks
and without the keyword. -/
theorem head?_importClause {text : String}
    (h : (bareClause (Text.trim text.toList)).head? ≠ some ';') :
    (importClause text).head? ≠ some ';' := by
  -- what is cut off stands at the end, since the text does not begin with a blank
  have hcut : Text.trim (Text.dropEndWhile (· == ';') (Text.trim text.toList)) <+:
      Text.trim text.toList := by
    obtain ⟨semicolons, hsemicolons, -⟩ :=
      Text.dropEndWhile_append_dropped (· == ';') (Text.trim text.toList)
    have hhead := (Text.trimmed_trim text.toList).head
    have hfront : (Text.dropEndWhile (· == ';') (Text.trim text.toList)).head?.all
        (fun c => !Text.isBlank c) = true := by
      cases hd : Text.dropEndWhile (· == ';') (Text.trim text.toList) with
      | nil => rfl
      | cons c t =>
        rw [← hsemicolons, hd] at hhead
        exact hhead
    obtain ⟨blanks, hblanks, -⟩ := Text.dropEndWhile_append_dropped Text.isBlank
      (Text.dropEndWhile (· == ';') (Text.trim text.toList))
    rw [Text.trim, Text.stripWhile, Text.dropWhile_of_head hfront]
    exact List.IsPrefix.trans ⟨blanks, hblanks⟩ ⟨semicolons, hsemicolons⟩
  rw [importClause_eq]
  exact fun hc => h (head?_bareClause_of_isPrefix hcut hc)

namespace Directive

open Phrase

variable {m : Method} {d : Directive} {ds : List Directive}

/-! ## Written and recognised -/

theorem trimmed_hintClause (m : Method) : Text.Trimmed m.hintClause := by
  refine Text.trimmed_commaList ?_ ?_
  · rintro _ h
    obtain ⟨name, -, rfl⟩ := List.mem_map.1 h
    exact List.cons_ne_nil _ _
  · rintro _ h
    obtain ⟨name, -, rfl⟩ := List.mem_map.1 h
    exact ⟨rfl, by rw [List.getLast?_concat]; rfl⟩

/-- What a directive writes is recognised, unless it is an import that begins with a semicolon. -/
theorem marker_occursIn_write (hd : d.Declared m)
    (himport : ∀ text, m.importText = some text → (importClause text).head? ≠ some ';')
    (q : Statement) : d.marker.occursIn (d.write m q).chars = true := by
  cases d with
  | limit =>
    obtain ⟨n, hn⟩ := hd
    rw [write_limit hn]
    exact Statement.hasLimit_addLimit q n
  | importing =>
    obtain ⟨text, ht, hne⟩ := hd
    rw [write_of_ne_limit m q Directive.noConfusion, front_importing ht hne]
    exact importMarker_occursIn hne (himport text ht) q.chars
  | hint =>
    rw [write_of_ne_limit m q Directive.noConfusion]
    exact hintMarker_occursIn (trimmed_hintClause m).head q.chars
  | trace =>
    rw [write_of_ne_limit m q Directive.noConfusion]
    exact traceMarker_occursIn q.chars

theorem marker_occursIn_apply (hd : d.Declared m)
    (himport : ∀ text, m.importText = some text → (importClause text).head? ≠ some ';')
    (q : Statement) : d.marker.occursIn (d.apply m q).chars = true := by
  cases hmarked : d.marker.occursIn q.chars with
  | true => rw [apply_of_marked hmarked, hmarked]
  | false =>
    rw [apply_of_declared hd hmarked]
    exact marker_occursIn_write hd himport q

/-! ## What stands around a decorated statement -/

/-- A directive writes nothing, or what it has declared before the statement. -/
theorem exists_front (hne : d ≠ .limit) (q : Statement) :
    ∃ F, (d.apply m q).chars = F ++ q.chars ∧ (F = [] ∨ d.Declared m ∧ F = d.front m) := by
  by_cases hd : d.Declared m
  · cases hmarked : d.marker.occursIn q.chars with
    | true => exact ⟨[], by rw [apply_of_marked hmarked]; rfl, .inl rfl⟩
    | false =>
      refine ⟨d.front m, ?_, .inr ⟨hd, rfl⟩⟩
      rw [apply_of_declared hd hmarked, write_of_ne_limit m q hne]; rfl
  · exact ⟨[], by rw [apply_of_not_declared hd]; rfl, .inl rfl⟩

/-- The limit of the method is written exactly behind a statement without one. -/
theorem exists_back (m : Method) (q : Statement) :
    ∃ L, (apply m q .limit).chars = q.chars ++ L ∧
      (L = [] ∨ ∃ n, m.limit = some n ∧ L = " LIMIT ".toList ++ Decimal.ofNat n) ∧
      (L ≠ [] ↔ m.limit ≠ none ∧ q.hasLimit = false) := by
  by_cases hd : Declared m .limit
  · obtain ⟨n, hn⟩ := hd
    cases hlimit : q.hasLimit with
    | true =>
      refine ⟨[], ?_, .inl rfl, by simp⟩
      rw [apply_of_marked (d := .limit) hlimit, List.append_nil]
    | false =>
      refine ⟨" LIMIT ".toList ++ Decimal.ofNat n, ?_, .inr ⟨n, hn, rfl⟩, by simp [hn]⟩
      rw [apply_of_declared (d := .limit) ⟨n, hn⟩ hlimit, write_limit hn]; rfl
  · have hnone : m.limit = none := by
      rw [Option.eq_none_iff_forall_ne_some]
      exact fun n hn => hd ⟨n, hn⟩
    exact ⟨[], by rw [apply_of_not_declared hd, List.append_nil], .inl rfl, by simp [hnone]⟩

/-! ## Marks in a decorated statement -/

theorem occursIn_apply {p : Phrase} (hne : d ≠ .limit) {q : Statement}
    (h : p.occursIn q.chars = true) : p.occursIn (d.apply m q).chars = true := by
  obtain ⟨F, hF, hwritten⟩ := exists_front (m := m) hne q
  have hend : F.getLast?.any Text.isWord = false := by
    rcases hwritten with rfl | ⟨-, rfl⟩
    · rfl
    · rcases front_setOff m d with hnil | ⟨u, c, hu, -⟩
      · rw [hnil]; rfl
      · rw [hu, List.getLast?_append]; rfl
  rw [hF]
  exact occursAfter_behind (b := none) (by rw [Option.or_none, hend]; rfl) h

theorem occursIn_applyAll {p : Phrase} (hds : .limit ∉ ds) {q : Statement}
    (h : p.occursIn q.chars = true) : p.occursIn (applyAll m q ds).chars = true := by
  induction ds generalizing q with
  | nil => exact h
  | cons d ds ih =>
    rw [List.mem_cons, not_or] at hds
    exact ih hds.2 (occursIn_apply (Ne.symm hds.1) h)

/-- A decorated statement carries the marks of what the method declares. -/
theorem marker_occursIn_applyAll (hds : .limit ∉ ds.tail)
    (himport : ∀ text, m.importText = some text → (importClause text).head? ≠ some ';')
    (q : Statement) (hmem : d ∈ ds) (hd : d.Declared m) :
    d.marker.occursIn (applyAll m q ds).chars = true := by
  induction ds generalizing q with
  | nil => cases hmem
  | cons e ds ih =>
    rcases List.mem_cons.1 hmem with rfl | hmem
    · exact occursIn_applyAll hds (marker_occursIn_apply hd himport q)
    · exact ih (fun h => hds (List.mem_of_mem_tail h)) (e.apply m q) hmem

/-- A statement that carries the marks of what the method declares is left alone. -/
theorem applyAll_of_marked {q : Statement}
    (h : ∀ d ∈ ds, d.Declared m → d.marker.occursIn q.chars = true) : applyAll m q ds = q := by
  induction ds with
  | nil => rfl
  | cons d ds ih =>
    have hfirst : d.apply m q = q := by
      by_cases hd : d.Declared m
      · exact apply_of_marked (h d (List.mem_cons_self ..) hd)
      · exact apply_of_not_declared hd
    rw [applyAll, List.foldl_cons, hfirst]
    exact ih fun d hmem => h d (List.mem_cons_of_mem _ hmem)

/-- **Decorating once.** A decorated statement is the statement between what the directives write: a
request for a trace, hints and an import before it, and behind it the limit of the method, exactly if
it has one and the statement has none. It carries the marks of all that the method declares, so
decorating it again changes nothing. -/
theorem applyAll_standard (m : Method) (q : Statement)
    (himport : ∀ text, m.importText = some text →
      (bareClause (Text.trim text.toList)).head? ≠ some ';') :
    (∃ T H I L, (applyAll m q standard).chars = T ++ (H ++ (I ++ (q.chars ++ L))) ∧
      (T = [] ∨ m.trace = true ∧ T = "<TRACE> ".toList) ∧
      (H = [] ∨ (∃ hint ∈ m.hints, hintName hint ≠ []) ∧
        H = "<HINT ".toList ++ m.hintClause ++ "> ".toList) ∧
      (I = [] ∨ ∃ text, m.importText = some text ∧ importClause text ≠ [] ∧
        I = "IMPORT ".toList ++ importClause text ++ "; ".toList) ∧
      (L = [] ∨ ∃ n, m.limit = some n ∧ L = " LIMIT ".toList ++ Decimal.ofNat n) ∧
      (L ≠ [] ↔ m.limit ≠ none ∧ q.hasLimit = false)) ∧
    (∀ d : Directive, d.Declared m → d.marker.occursIn (applyAll m q standard).chars = true) ∧
    applyAll m (applyAll m q standard) standard = applyAll m q standard := by
  have hclause := fun text ht => head?_importClause (himport text ht)
  have hmarked : ∀ d : Directive, d.Declared m →
      d.marker.occursIn (applyAll m q standard).chars = true := by
    intro d hd
    have hmem : d ∈ standard := by cases d <;> decide
    exact marker_occursIn_applyAll (by decide) hclause q hmem hd
  refine ⟨?_, hmarked, applyAll_of_marked fun d _ => hmarked d⟩
  obtain ⟨L, hL, hlimit, hiff⟩ := exists_back m q
  obtain ⟨I, hI, himporting⟩ :=
    exists_front (m := m) (d := .importing) Directive.noConfusion (apply m q .limit)
  obtain ⟨H, hH, hhint⟩ := exists_front (m := m) (d := .hint) Directive.noConfusion
    (apply m (apply m q .limit) .importing)
  obtain ⟨T, hT, htrace⟩ := exists_front (m := m) (d := .trace) Directive.noConfusion
    (apply m (apply m (apply m q .limit) .importing) .hint)
  have hall : applyAll m q standard =
      apply m (apply m (apply m (apply m q .limit) .importing) .hint) .trace := rfl
  refine ⟨T, H, I, L, by rw [hall, hT, hH, hI, hL], htrace, hhint, himporting.imp_right ?_, hlimit,
    hiff⟩
  rintro ⟨⟨text, ht, hne⟩, rfl⟩
  exact ⟨text, ht, hne, front_importing ht hne⟩

/-- Directives that look like the ends of their own marks. -/
theorem applyAll_standard_of_marks :
    let m : Method := {
      name := "findByName", entity := { name := "Person" }, shape := .collection, limit := some 10
      importText := some " import org.a;b.Person;; ", hints := ["'A>B'", " ", "<TRACE"]
      trace := true }
    let q : Statement := ⟨"SELECT * FROM /Person".toList⟩
    let r : Statement := ⟨("<TRACE> <HINT 'A>B', '<TRACE'> IMPORT org.a;b.Person; " ++
      "SELECT * FROM /Person LIMIT 10").toList⟩
    applyAll m q standard = r ∧ (∀ d : Directive, d.marker.occursIn r.chars = true) ∧
      applyAll m r standard = r := by
  intro m q r
  have hr : applyAll m q standard = r := by decide +kernel
  obtain ⟨-, hmarked, honce⟩ := applyAll_standard m q fun text ht => by
    obtain rfl := Option.some.inj ht
    decide +kernel
  rw [hr] at hmarked honce
  refine ⟨hr, fun d => hmarked d ?_, honce⟩
  cases d with
  | limit => exact ⟨10, rfl⟩
  | importing => exact ⟨_, rfl, by decide +kernel⟩
  | hint => exact ⟨"'A>B'", List.mem_cons_self .., by decide +kernel⟩
  | trace => exact rfl

end Directive

end GridQuery
