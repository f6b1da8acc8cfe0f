import Mathlib.Data.List.Sublists
import GridQuery.Directive
import GridQuery.Proofs.Statement.Limit
/-!
# What the directives add

A directive leaves a statement alone or writes its clause before it or behind it, and what it writes
depends on the method alone. So a decorated statement is the statement with the clauses of some
directives around it, and those directives can be read off the text, if the statement is known up to
its marks.

Results:
* `apply_of_not_declared`, `apply_of_marked`, `apply_of_declared`: when a directive writes its clause.
* `apply_eq_or_write`, `applyAll_eq`: decorating is writing the clauses of the directives that were
  added.
* `fronts_append_inj`: what is written before a statement tells which directives wrote it.
* `eq_of_decorated`: equal decorated texts have had the same directives added.
-/

namespace GridQuery

/-- The hints that have a name, as they are written. -/
def Method.hintClause (m : Method) : List Char :=
  Text.commaList (((m.hints.map hintName).filter (· ≠ [])).map fun name => '\'' :: name ++ ['\''])

theorem hintName_of_blank {hint : String} (h : Text.isBlankText hint.toList = true) :
    hintName hint = [] := by
  rw [hintName, Text.trim_eq_nil_iff.2 h]; rfl

theorem importClause_of_blank {text : String} (h : Text.isBlankText text.toList = true) :
    importClause text = [] := by
  rw [importClause, Text.trim_eq_nil_iff.2 h]; rfl

theorem visible?_of_not_blank {text : String} (h : Text.isBlankText text.toList = false) :
    visible? text = some text := by
  rw [visible?, if_neg (by simp [h])]

namespace Directive

/-- What the directive writes before a statement. -/
def front (m : Method) : Directive → List Char
  | .limit => []
  | .importing => "IMPORT ".toList ++ importClause (m.import?.getD "") ++ "; ".toList
  | .hint => "<HINT ".toList ++ m.hintClause ++ "> ".toList
  | .trace => "<TRACE> ".toList

/-- What the directive writes behind a statement. -/
def back (m : Method) : Directive → List Char
  | .limit => " LIMIT ".toList ++ Decimal.ofNat (m.limit.getD 0)
  | _ => []

/-- The statement with the clause of the directive. -/
def write (m : Method) (q : Statement) (d : Directive) : Statement :=
  ⟨d.front m ++ q.chars ++ d.back m⟩

/-- The directives that change the statement, applied in the given order. -/
def added (m : Method) (q : Statement) : List Directive → List Directive
  | [] => []
  | d :: ds => (if d.apply m q = q then [] else [d]) ++ added m (d.apply m q) ds

/-- What the directives write before a statement, the last one first. -/
def fronts (m : Method) (ds : List Directive) : List Char := ds.reverse.flatMap (front m)

/-- What the directives write behind a statement. -/
def backs (m : Method) (ds : List Directive) : List Char := ds.flatMap (back m)

/-- What tells that a statement carries a directive of this kind. -/
def marker : Directive → Phrase
  | .limit => .limit
  | .importing => .importMarker
  | .hint => .hintMarker
  | .trace => .traceMarker

/-- Whether the method declares something for the directive to write. -/
def Declared (m : Method) : Directive → Prop
  | .limit => ∃ n, m.limit = some n
  | .importing => ∃ text, m.importText = some text ∧ importClause text ≠ []
  | .hint => ∃ hint ∈ m.hints, hintName hint ≠ []
  | .trace => m.trace = true

/-! ## Decorating is writing -/

variable {m : Method} {q : Statement} {d : Directive}

theorem write_limit {m : Method} {n : Nat} (h : m.limit = some n) (q : Statement) :
    write m q .limit = q.addLimit n := by
  show Statement.mk ([] ++ q.chars ++ (" LIMIT ".toList ++ Decimal.ofNat (m.limit.getD 0))) = _
  rw [h]; rfl

theorem write_of_ne_limit (m : Method) (q : Statement) {d : Directive} (hd : d ≠ .limit) :
    write m q d = q.prepend (d.front m) := by
  have hback : d.back m = [] := by
    cases d with
    | limit => exact absurd rfl hd
    | _ => rfl
  rw [write, hback, List.append_nil, Statement.prepend]

theorem import?_of_declared {text : String} (ht : m.importText = some text)
    (hne : importClause text ≠ []) : m.import? = some text := by
  cases h : Text.isBlankText text.toList with
  | true => exact absurd (importClause_of_blank h) hne
  | false => rw [Method.import?, ht, Option.bind_some, visible?_of_not_blank h]

theorem front_importing {text : String} (ht : m.importText = some text)
    (hne : importClause text ≠ []) :
    front m .importing = "IMPORT ".toList ++ importClause text ++ "; ".toList := by
  show "IMPORT ".toList ++ importClause (m.import?.getD "") ++ "; ".toList = _
  rw [import?_of_declared ht hne]; rfl

theorem apply_of_not_declared (h : ¬ d.Declared m) : d.apply m q = q := by
  cases d with
  | limit =>
    cases hl : m.limit with
    | none => simp only [apply, hl]
    | some n => exact absurd ⟨n, hl⟩ h
  | importing =>
    cases ht : m.import? with
    | none => simp only [apply, ht]
    | some text =>
      obtain ⟨text', ht', hv⟩ := Option.bind_eq_some_iff.1 ht
      obtain rfl : text' = text := by
        rw [visible?] at hv
        split at hv
        · cases hv
        · exact Option.some.inj hv
      have hempty : importClause text' = [] := by
        by_contra hne
        exact h ⟨text', ht', hne⟩
      simp [apply, ht, Statement.addImport, hempty]
  | hint =>
    have hempty : (m.hints.map hintName).filter (· ≠ []) = [] := by
      rw [List.filter_eq_nil_iff]
      intro name hname
      obtain ⟨hint, hhint, rfl⟩ := List.mem_map.1 hname
      simpa using fun hne => h ⟨hint, hhint, hne⟩
    simp only [apply, Statement.addHints, hempty, List.isEmpty_nil, Bool.true_or, if_true, ite_self]
  | trace =>
    simp only [Declared] at h
    simp only [apply, if_neg h]

theorem apply_of_marked (h : d.marker.occursIn q.chars = true) : d.apply m q = q := by
  cases d with
  | limit =>
    have hlimit : q.hasLimit = true := h
    cases hl : m.limit with
    | none => simp only [apply, hl]
    | some n => simp only [apply, hl, if_pos hlimit]
  | importing =>
    have hmarked : Phrase.importMarker.occursIn q.chars = true := h
    cases ht : m.import? with
    | none => simp only [apply, ht]
    | some text => simp only [apply, ht, Statement.addImport, hmarked, Bool.or_true, if_true]
  | hint =>
    have hmarked : Phrase.hintMarker.occursIn q.chars = true := h
    simp only [apply, Statement.addHints, hmarked, Bool.or_true, if_true, ite_self]
  | trace =>
    have hmarked : Phrase.traceMarker.occursIn q.chars = true := h
    simp only [apply, Statement.addTrace, if_pos hmarked, ite_self]

theorem apply_of_declared (hd : d.Declared m) (h : d.marker.occursIn q.chars = false) :
    d.apply m q = d.write m q := by
  cases d with
  | limit =>
    obtain ⟨n, hl⟩ := hd
    have hlimit : q.hasLimit = false := h
    rw [write_limit hl]
    simp [apply, hl, hlimit]
  | importing =>
    obtain ⟨text, ht, hne⟩ := hd
    have hmarked : Phrase.importMarker.occursIn q.chars = false := h
    have hi := import?_of_declared ht hne
    rw [write_of_ne_limit m q Directive.noConfusion, front_importing ht hne]
    simp only [apply, hi, Statement.addImport, List.isEmpty_eq_false_iff.2 hne, hmarked,
      Bool.or_false, Bool.false_eq_true, if_false]
  | hint =>
    obtain ⟨hint, hmem, hne⟩ := hd
    have hmarked : Phrase.hintMarker.occursIn q.chars = false := h
    have hhas : m.hasHints = true := by
      refine List.any_eq_true.2 ⟨hint, hmem, ?_⟩
      cases hb : Text.isBlankText hint.toList with
      | true => exact absurd (hintName_of_blank hb) hne
      | false => rw [visible?_of_not_blank hb]; rfl
    have hnames : ((m.hints.map hintName).filter (· ≠ [])).isEmpty = false := by
      rw [List.isEmpty_eq_false_iff]
      exact List.ne_nil_of_mem (List.mem_filter.2 ⟨List.mem_map_of_mem hmem, decide_eq_true hne⟩)
    rw [write_of_ne_limit m q Directive.noConfusion]
    simp only [apply, if_pos hhas, Statement.addHints, hnames, hmarked, Bool.or_false,
      Bool.false_eq_true, if_false]
    rfl
  | trace =>
    have hmarked : Phrase.traceMarker.occursIn q.chars = false := h
    rw [write_of_ne_limit m q Directive.noConfusion]
    simp only [apply, if_pos (show m.trace = true from hd), Statement.addTrace, hmarked,
      Bool.false_eq_true, if_false]
    rfl

theorem apply_eq_or_write (m : Method) (q : Statement) (d : Directive) :
    d.apply m q = q ∨ d.apply m q = d.write m q := by
  by_cases hd : d.Declared m
  · cases hmarked : d.marker.occursIn q.chars with
    | true => exact .inl (apply_of_marked hmarked)
    | false => exact .inr (apply_of_declared hd hmarked)
  · exact .inl (apply_of_not_declared hd)

theorem applyAll_eq (m : Method) (q : Statement) (ds : List Directive) :
    applyAll m q ds = ⟨fronts m (added m q ds) ++ q.chars ++ backs m (added m q ds)⟩ := by
  induction ds generalizing q with
  | nil => simp [applyAll, added, fronts, backs]
  | cons d ds ih =>
    have hstep : applyAll m q (d :: ds) = applyAll m (d.apply m q) ds := rfl
    rw [hstep, ih, added]
    by_cases h : d.apply m q = q
    · rw [if_pos h, h, List.nil_append]
    · rw [if_neg h, (apply_eq_or_write m q d).resolve_left h]
      simp [write, fronts, backs]

theorem added_sublist (m : Method) (q : Statement) (ds : List Directive) :
    (added m q ds).Sublist ds := by
  induction ds generalizing q with
  | nil => exact List.Sublist.refl []
  | cons d ds ih =>
    rw [added]
    split
    · exact (ih _).cons d
    · exact (ih _).cons_cons d

/-! ## Reading the directives off the text -/

/-- The text, if it is written at all. -/
def block (b : Bool) (x : List Char) : List Char := if b then x else []

theorem flatMap_filter_eq (f : Directive → List Char) (b : Directive → Bool)
    (ds : List Directive) : (ds.filter b).flatMap f = ds.flatMap fun d => block (b d) (f d) := by
  induction ds with
  | nil => rfl
  | cons d ds ih =>
    rw [List.filter_cons, List.flatMap_cons, ← ih]
    cases b d <;> rfl

/-- Some of the standard directives are those of them that are there. -/
theorem eq_filter_of_sublist {ds : List Directive} (h : ds.Sublist standard) :
    ds = standard.filter ds.contains := by
  have hall : ∀ ds ∈ standard.sublists, ds = standard.filter ds.contains := by decide
  exact hall ds (List.mem_sublists.2 h)

theorem fronts_eq (m : Method) {ds : List Directive} (h : ds.Sublist standard) :
    fronts m ds = block (ds.contains .trace) (front m .trace) ++
      (block (ds.contains .hint) (front m .hint) ++
        block (ds.contains .importing) (front m .importing)) := by
  have hlimit : block (ds.contains .limit) (front m .limit) = [] := by
    cases ds.contains .limit <;> rfl
  have hrev : standard.reverse = [.trace, .hint, .importing, .limit] := rfl
  conv_lhs => rw [eq_filter_of_sublist h]
  rw [fronts, ← List.filter_reverse, flatMap_filter_eq, hrev]
  simp only [List.flatMap_cons, List.flatMap_nil, hlimit, List.append_nil]

theorem backs_eq (m : Method) {ds : List Directive} (h : ds.Sublist standard) :
    backs m ds = block (ds.contains .limit) (back m .limit) := by
  have hrest : ∀ d : Directive, d ≠ .limit → block (ds.contains d) (back m d) = [] := by
    intro d hd
    cases d with
    | limit => exact absurd rfl hd
    | _ => cases ds.contains _ <;> rfl
  conv_lhs => rw [eq_filter_of_sublist h]
  rw [backs, flatMap_filter_eq, standard]
  simp only [List.flatMap_cons, List.flatMap_nil, List.append_nil, hrest .importing Directive.noConfusion,
    hrest .hint Directive.noConfusion, hrest .trace Directive.noConfusion]

theorem block_append_inj {b b' : Bool} {x u u' : List Char} (hl : x ++ u ≠ u') (hr : u ≠ x ++ u')
    (h : block b x ++ u = block b' x ++ u') : b = b' ∧ u = u' := by
  cases b with
  | true =>
    cases b' with
    | true => exact ⟨rfl, List.append_cancel_left h⟩
    | false => exact absurd h hl
  | false =>
    cases b' with
    | true => exact absurd h hr
    | false => exact ⟨rfl, h⟩

theorem count_block_append_le (c : Char) (b : Bool) (x u : List Char) :
    u.count c ≤ (block b x ++ u).count c := by
  rw [List.count_append]
  omega

/-- An import is told from a text with the same semicolons. -/
theorem import_append_ne (m : Method) {u s : List Char} (h : s.count ';' ≤ u.count ';') :
    front m .importing ++ u ≠ s := by
  rintro rfl
  have hmem : ';' ∈ front m .importing :=
    List.mem_append_right _ (show ';' ∈ "; ".toList by decide)
  have hpos := List.count_pos_iff.2 hmem
  rw [List.count_append] at h
  omega

/-- Hints are told from an import, and from a text with the same angle brackets. -/
theorem hint_append_ne (m : Method) (i : Bool) {u s : List Char}
    (h : s.count '<' ≤ u.count '<') :
    front m .hint ++ u ≠ block i (front m .importing) ++ s := by
  obtain ⟨r, hr⟩ : ∃ r, front m .hint = '<' :: 'H' :: r := ⟨_, rfl⟩
  obtain ⟨r', hr'⟩ : ∃ r, front m .importing = 'I' :: r := ⟨_, rfl⟩
  rw [hr, hr']
  intro heq
  cases i with
  | true => exact absurd (List.cons.inj heq).1 (by decide)
  | false =>
    have hs : '<' :: 'H' :: (r ++ u) = s := heq
    rw [← hs, List.count_cons, List.count_cons, List.count_append] at h
    simp only [beq_self_eq_true, if_true] at h
    omega

/-- The request for a trace is told from hints, an import, and a text with the same angle
brackets. -/
theorem trace_append_ne (m : Method) (h i : Bool) {u s : List Char}
    (hs : s.count '<' ≤ u.count '<') :
    front m .trace ++ u ≠ block h (front m .hint) ++ (block i (front m .importing) ++ s) := by
  obtain ⟨r, hr⟩ : ∃ r, front m .trace = '<' :: 'T' :: r := ⟨_, rfl⟩
  obtain ⟨r', hr'⟩ : ∃ r, front m .hint = '<' :: 'H' :: r := ⟨_, rfl⟩
  obtain ⟨r'', hr''⟩ : ∃ r, front m .importing = 'I' :: r := ⟨_, rfl⟩
  rw [hr, hr', hr'']
  intro heq
  cases h with
  | true => exact absurd (List.cons.inj (List.cons.inj heq).2).1 (by decide)
  | false =>
    cases i with
    | true => exact absurd (List.cons.inj heq).1 (by decide)
    | false =>
      have hs' : '<' :: 'T' :: (r ++ u) = s := heq
      rw [← hs', List.count_cons, List.count_cons, List.count_append] at hs
      simp only [beq_self_eq_true, if_true] at hs
      omega

/-- What stands before a text can be read off, if the text is known up to its angle brackets and
semicolons. -/
theorem fronts_append_inj {m : Method} {ds ds' : List Directive} (hds : ds.Sublist standard)
    (hds' : ds'.Sublist standard) {s s' : List Char} (hlt : s.count '<' = s'.count '<')
    (hsemi : s.count ';' = s'.count ';') (h : fronts m ds ++ s = fronts m ds' ++ s') :
    fronts m ds = fronts m ds' ∧ (∀ d, d ≠ .limit → ds.contains d = ds'.contains d) ∧ s = s' := by
  rw [fronts_eq m hds, fronts_eq m hds'] at h ⊢
  simp only [List.append_assoc] at h
  have hle := fun (i : Bool) (s : List Char) =>
    count_block_append_le '<' i (front m .importing) s
  have hle' := fun (h i : Bool) (s : List Char) =>
    (hle i s).trans (count_block_append_le '<' h (front m .hint) (block i (front m .importing) ++ s))
  obtain ⟨ht, h⟩ := block_append_inj (trace_append_ne m _ _ (hlt ▸ hle' _ _ s))
    (trace_append_ne m _ _ (hlt ▸ hle' _ _ s')).symm h
  obtain ⟨hh, h⟩ := block_append_inj (hint_append_ne m _ (hlt ▸ hle _ s))
    (hint_append_ne m _ (hlt ▸ hle _ s')).symm h
  obtain ⟨hi, h⟩ := block_append_inj (import_append_ne m hsemi.ge)
    (import_append_ne m hsemi.le).symm h
  refine ⟨by rw [ht, hh, hi], fun d hd => ?_, h⟩
  cases d with
  | limit => exact absurd rfl hd
  | importing => exact hi
  | hint => exact hh
  | trace => exact ht

/-- Behind a text stands the limit of the method, or nothing. -/
theorem backs_cases (m : Method) {ds : List Directive} (h : ds.Sublist standard) :
    backs m ds = [] ∨ backs m ds = back m .limit := by
  rw [backs_eq m h]
  cases ds.contains .limit with
  | false => exact .inl rfl
  | true => exact .inr rfl

theorem back_limit (m : Method) : back m .limit = Statement.limitText (some (m.limit.getD 0)) := rfl

/-- What stands behind a text holds only blanks, letters and digits. -/
theorem count_backs (m : Method) {ds : List Directive} (h : ds.Sublist standard) {c : Char}
    (hc : c ∉ " LIMIT ".toList) (hd : c.isDigit = false) : (backs m ds).count c = 0 := by
  rw [List.count_eq_zero]
  rcases backs_cases m h with hb | hb
  · rw [hb]
    exact List.not_mem_nil
  · rw [hb, back_limit]
    exact Statement.not_mem_limitText hc hd _

/-- The directives that are written before a statement. -/
def decorations : List Directive := [.importing, .hint, .trace]

theorem decorations_sublist : decorations.Sublist standard := List.sublist_cons_self _ _

theorem contains_limit_of_decorations {ds : List Directive} (h : ds.Sublist decorations) :
    ds.contains .limit = false := by
  rw [← Bool.not_eq_true, List.contains_iff_mem]
  exact fun hm => absurd (h.subset hm) (by decide)

theorem backs_of_decorations (m : Method) {ds : List Directive} (h : ds.Sublist decorations) :
    backs m ds = [] := by
  rw [backs_eq m (h.trans decorations_sublist), contains_limit_of_decorations h]; rfl

/-- A statement with a limit is given none. -/
theorem backs_of_hasLimit {m : Method} {q : Statement} (h : q.hasLimit = true) :
    backs m (added m q standard) = [] := by
  have hsame : apply m q .limit = q := apply_of_marked h
  have hadded : added m q standard = added m q decorations := by
    rw [standard, added, hsame, if_pos rfl, List.nil_append]; rfl
  rw [hadded, backs_of_decorations m (added_sublist m q decorations)]

theorem contains_limit_of_backs {m : Method} {ds ds' : List Directive} (hds : ds.Sublist standard)
    (hds' : ds'.Sublist standard) (h : backs m ds = backs m ds') :
    ds.contains .limit = ds'.contains .limit := by
  rw [backs_eq m hds, backs_eq m hds'] at h
  have hne : back m .limit ≠ [] := List.append_ne_nil_of_left_ne_nil (by decide) _
  cases hb : ds.contains .limit with
  | true =>
    cases hb' : ds'.contains .limit with
    | true => rfl
    | false => rw [hb, hb'] at h; exact absurd h hne
  | false =>
    cases hb' : ds'.contains .limit with
    | true => rw [hb, hb'] at h; exact absurd h.symm hne
    | false => rfl

theorem eq_of_contains {ds ds' : List Directive} (hds : ds.Sublist standard)
    (hds' : ds'.Sublist standard) (h : ∀ d, ds.contains d = ds'.contains d) : ds = ds' := by
  rw [eq_filter_of_sublist hds, eq_filter_of_sublist hds']
  exact List.filter_congr fun d _ => h d

/-- The directives whose clauses stand around a text can be read off the whole, if the text is known
up to its angle brackets and semicolons. -/
theorem eq_of_decorated {m : Method} {ds ds' : List Directive} (hds : ds.Sublist standard)
    (hds' : ds'.Sublist standard) {s s' : List Char} (hlt : s.count '<' = s'.count '<')
    (hsemi : s.count ';' = s'.count ';')
    (h : fronts m ds ++ s ++ backs m ds = fronts m ds' ++ s' ++ backs m ds') :
    s ++ backs m ds = s' ++ backs m ds' ∧ (backs m ds = backs m ds' → ds = ds') := by
  rw [List.append_assoc, List.append_assoc] at h
  have hcount : ∀ {ds : List Directive}, ds.Sublist standard → ∀ {s : List Char} {c : Char},
      c ∉ " LIMIT ".toList → c.isDigit = false → (s ++ backs m ds).count c = s.count c := by
    intro ds hds s c hc hd
    rw [List.count_append, count_backs m hds hc hd, Nat.add_zero]
  obtain ⟨-, hrest, hs⟩ := fronts_append_inj hds hds'
    (by rw [hcount hds (by decide) (by decide), hcount hds' (by decide) (by decide), hlt])
    (by rw [hcount hds (by decide) (by decide), hcount hds' (by decide) (by decide), hsemi]) h
  refine ⟨hs, fun hbacks => eq_of_contains hds hds' fun d => ?_⟩
  cases d with
  | limit => exact contains_limit_of_backs hds hds' hbacks
  | _ => exact hrest _ Directive.noConfusion

end Directive

end GridQuery
