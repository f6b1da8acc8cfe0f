import GridQuery.Proofs.Binding.Filling
import GridQuery.Repository
/-!
# Binding one number after the other, and binding at once

The lists of a query are bound one number after the other, and every pass reads the text that the
passes before it have written. So a pass finds the placeholders of the query, and those that stand
in a list that was bound before: what a caller passes as a value is then read as a part of the query.

Results:
* `bindEach_eq`: the passes fail at the first number without an argument, and otherwise fill the
  text number by number.
* `fillEach_eq`: number by number, a placeholder of the query gets its list, and the list is filled
  by the numbers that come after its own.
* `bindArguments_eq_bindAtOnce_iff`: the passes are the substitution at once, errors included,
  exactly where no list holds a placeholder of a greater number that is bound to a list as well.
* `bindArguments_not_atOnce`: a string argument for which they are not.
-/

namespace GridQuery

/-! ## The substitution -/

/-- The list of literals that argument `k` is bound as; an empty list binds nothing. -/
def Arguments.listAt? (args : Arguments) (k : Nat) : Option (List Char) :=
  (args.parameter? k).bind fun v => if v.spread.isEmpty then none else some (literalList v.spread)

namespace Statement

/-- Whether the number of every placeholder is followed by the end of the text, or by a character
that is no part of a word. -/
def Apart (q : Statement) : Prop := detached (Phrase.inPlaceholder.pieces q.chars) = true

instance (q : Statement) : Decidable q.Apart := inferInstanceAs (Decidable (_ = true))

/-- The smallest number of a placeholder that has no argument. -/
def missing? (q : Statement) (args : Arguments) : Option Nat :=
  (q.placeholders.filter fun k => (args.parameter? k).isNone).min?

/-- The statement with the list of its argument in place of every placeholder that has one. -/
def boundAtOnce (q : Statement) (args : Arguments) : Statement :=
  ⟨Phrase.inPlaceholder.replaceAll (fun h =>
    match h.placeholderIndex?.bind args.listAt? with
    | some list => h.lead ++ list
    | none => h.text) q.chars⟩

/-- The substitution of the arguments, in which no list is read again. -/
def bindAtOnce (q : Statement) (args : Arguments) : Except QueryError Statement :=
  match q.missing? args with
  | some k => .error (.missingArgument k)
  | none => .ok (q.boundAtOnce args)

/-- Whether the list bound for one number holds a placeholder of a greater number of the query that
is bound to a list as well. -/
def Rereads (q : Statement) (args : Arguments) : Prop :=
  ∃ k ∈ q.placeholders, ∃ list ∈ args.listAt? k, ∃ j ∈ q.placeholders,
    k < j ∧ (args.listAt? j).isSome = true ∧ j ∈ Statement.placeholders ⟨list⟩

instance (q : Statement) (args : Arguments) : Decidable (q.Rereads args) :=
  inferInstanceAs (Decidable (∃ k ∈ q.placeholders, ∃ list ∈ args.listAt? k,
    ∃ j ∈ q.placeholders, _))

end Statement

/-! ## The numbers in order -/

theorem pairwise_lt_eraseDups {l : List Nat} (h : l.Pairwise (· ≤ ·)) :
    l.eraseDups.Pairwise (· < ·) := by
  induction hn : l.length using Nat.strongRecOn generalizing l with
  | _ n ih =>
    cases l with
    | nil => exact List.Pairwise.nil
    | cons a l =>
      rw [List.pairwise_cons] at h
      rw [List.eraseDups_cons, List.pairwise_cons]
      constructor
      · intro b hb
        rw [List.mem_eraseDups, List.mem_filter] at hb
        have hle := h.1 b hb.1
        have hne : b ≠ a := by simpa using hb.2
        omega
      · refine ih _ ?_ (h.2.sublist List.filter_sublist) rfl
        have := List.length_filter_le (fun b => !b == a) l
        rw [← hn, List.length_cons]; omega

theorem Statement.parameters_pairwise (q : Statement) : q.parameters.Pairwise (· < ·) := by
  refine pairwise_lt_eraseDups ?_
  have h : (q.placeholders.mergeSort fun a b => a ≤ b).Pairwise fun a b => decide (a ≤ b) = true :=
    List.pairwise_mergeSort (by simp only [decide_eq_true_eq]; omega)
      (by simp only [Bool.or_eq_true, decide_eq_true_eq]; omega) q.placeholders
  simpa only [decide_eq_true_eq] using h

theorem Statement.mem_parameters {q : Statement} {k : Nat} :
    k ∈ q.parameters ↔ k ∈ q.placeholders := by
  rw [parameters, List.mem_eraseDups, List.mem_mergeSort]

/-- In increasing order, the first number of a kind is the smallest one. -/
theorem find?_eq_min? {ks l : List Nat} (hs : ks.Pairwise (· < ·)) (hm : ∀ k, k ∈ ks ↔ k ∈ l)
    (p : Nat → Bool) : ks.find? p = (l.filter p).min? := by
  cases hf : ks.find? p with
  | none =>
    rw [List.find?_eq_none] at hf
    have hnil : l.filter p = [] :=
      List.filter_eq_nil_iff.2 fun k hk => hf k ((hm k).2 hk)
    rw [hnil]; rfl
  | some k =>
    obtain ⟨hk, as, bs, rfl, hbefore⟩ := List.find?_eq_some_iff_append.1 hf
    refine (List.min?_eq_some_iff.2 ⟨?_, fun b hb => ?_⟩).symm
    · exact List.mem_filter.2 ⟨(hm k).1 (by simp), hk⟩
    · obtain ⟨hb, hpb⟩ := List.mem_filter.1 hb
      rcases List.mem_append.1 ((hm b).2 hb) with h | h
      · have := hbefore b h
        simp [hpb] at this
      · rcases List.mem_cons.1 h with rfl | h
        · exact Nat.le_refl _
        · exact Nat.le_of_lt ((List.pairwise_cons.1 (List.pairwise_append.1 hs).2.1).1 b h)

/-! ## The passes as fillings -/

namespace Arguments

variable (args : Arguments)

/-- The filling of the pass for number `k`. -/
def fillingAt (k : Nat) : Filling := fun h =>
  if h.placeholderIndex? = some k then args.listAt? k else none

/-- The filling for all numbers at once. -/
def filling : Filling := fun h => h.placeholderIndex?.bind args.listAt?

/-- The text after the passes for these numbers. -/
def fillEach (ks : List Nat) (s : List Char) : List Char :=
  ks.foldl (fun s k => (args.fillingAt k).fill s) s

/-- What stands for a placeholder after the passes: its list, filled by the passes that come after
its own. -/
def filled : List Nat → Filling
  | [], _ => none
  | k :: ks, h => match args.fillingAt k h with
    | some x => some (args.fillEach ks x)
    | none => filled ks h

variable {args}

/-- The pass for a number writes the values of its argument. -/
theorem fillingAt_eq_binding {k : Nat} {v : Value} (hv : args.parameter? k = some v) :
    args.fillingAt k = Filling.binding k v.spread := by
  funext h
  rw [fillingAt, listAt?, hv]
  rfl

theorem sealed_of_listAt? {k : Nat} {x : List Char} (h : args.listAt? k = some x) :
    ∃ y, x = '(' :: (y ++ [')']) := by
  obtain ⟨v, -, hv⟩ := Option.bind_eq_some_iff.1 h
  split at hv
  · cases hv
  · cases hv; exact ⟨_, rfl⟩

theorem fillingAt_sealed (k : Nat) : (args.fillingAt k).Sealed := by
  intro h x hx
  unfold fillingAt at hx
  split at hx
  · exact sealed_of_listAt? hx
  · cases hx

end Arguments

namespace Statement

/-- Binding the argument of one number is one filling of the text. -/
theorem bindAt_eq_fill (q : Statement) {args : Arguments} {k : Nat} {v : Value}
    (hv : args.parameter? k = some v) :
    q.bindAt k v.spread = ⟨(args.fillingAt k).fill q.chars⟩ := by
  rw [bindAt_eq_binding, Arguments.fillingAt_eq_binding hv]

/-- The passes fail at the first number without an argument, and otherwise fill number by number. -/
theorem bindEach_eq (q : Statement) (args : Arguments) (ks : List Nat) :
    q.bindEach args ks =
      match ks.find? fun k => (args.parameter? k).isNone with
      | some k => .error (.missingArgument k)
      | none => .ok ⟨args.fillEach ks q.chars⟩ := by
  induction ks generalizing q with
  | nil => rfl
  | cons k ks ih =>
    rw [bindEach, List.find?_cons]
    cases hv : args.parameter? k with
    | none => rfl
    | some v =>
      dsimp only [Option.isNone_some]
      rw [ih, bindAt_eq_fill q hv]
      rfl

/-- Where every number has an argument, binding fills number by number. -/
theorem bindEach_of_present {q : Statement} {args : Arguments} {ks : List Nat}
    (hargs : ∀ k ∈ ks, (args.parameter? k).isSome = true) :
    q.bindEach args ks = .ok ⟨args.fillEach ks q.chars⟩ := by
  have hfind : (ks.find? fun k => (args.parameter? k).isNone) = none := by
    rw [List.find?_eq_none]
    intro k hk
    have hsome := hargs k hk
    rw [Option.isSome_iff_ne_none] at hsome
    simpa using hsome
  rw [bindEach_eq, hfind]

theorem boundAtOnce_eq_fill (q : Statement) (args : Arguments) :
    q.boundAtOnce args = ⟨args.filling.fill q.chars⟩ := by
  refine congrArg Statement.mk (List.flatMap_congr fun p _ => ?_)
  cases p <;> rfl

end Statement

/-! ## What the passes come to -/

namespace Arguments

variable {args : Arguments}

theorem fillEach_fill {F : Filling} (hF : F.Sealed) {s : List Char}
    (hs : detached (Phrase.inPlaceholder.pieces s) = true) (ks : List Nat) :
    args.fillEach ks (F.fill s) = Filling.fill (fun h => match F h with
      | some x => some (args.fillEach ks x)
      | none => args.filled ks h) s := by
  induction ks generalizing F with
  | nil =>
    refine congrArg (Filling.fill · s) ?_
    funext h
    cases h : F h <;> rfl
  | cons k ks ih =>
    have hstep : args.fillEach (k :: ks) (F.fill s) =
        args.fillEach ks ((F.andThen (args.fillingAt k)).fill s) :=
      congrArg (args.fillEach ks) (Filling.fill_fill hF _ hs)
    rw [hstep, ih (hF.andThen (fillingAt_sealed k))]
    refine congrArg (Filling.fill · s) ?_
    funext h
    rw [Filling.andThen, filled]
    cases F h <;> rfl

theorem fillEach_eq {s : List Char} (hs : detached (Phrase.inPlaceholder.pieces s) = true)
    (ks : List Nat) : args.fillEach ks s = (args.filled ks).fill s := by
  have hnone : Filling.fill (fun _ => none) s = s := Filling.fill_eq_self fun _ _ => rfl
  have h := @fillEach_fill args (fun _ => none) (fun _ _ h => by cases h) s hs ks
  rw [hnone] at h
  exact h

theorem filled_of_ne {h : Hit} {ks : List Nat} (hk : ∀ k ∈ ks, h.placeholderIndex? ≠ some k) :
    args.filled ks h = none := by
  induction ks with
  | nil => rfl
  | cons k ks ih =>
    rw [filled, fillingAt, if_neg (hk k (by simp))]
    exact ih fun j hj => hk j (by simp [hj])

/-- A placeholder ends as its list, filled by the passes for the greater numbers. -/
theorem filled_of_mem {h : Hit} {k : Nat} (hk : h.placeholderIndex? = some k) {ks : List Nat}
    (hs : ks.Pairwise (· < ·)) (hmem : k ∈ ks) :
    args.filled ks h = (args.listAt? k).map (args.fillEach (ks.filter (k < ·))) := by
  induction ks with
  | nil => cases hmem
  | cons j ks ih =>
    rw [List.pairwise_cons] at hs
    rw [filled, fillingAt, hk]
    by_cases hj : j = k
    · subst hj
      have hlater : (j :: ks).filter (j < ·) = ks := by
        rw [List.filter_cons_of_neg (by simp), List.filter_eq_self]
        exact fun i hi => decide_eq_true (hs.1 i hi)
      rw [if_pos rfl, hlater]
      cases args.listAt? j with
      | none =>
        refine filled_of_ne fun i hi he => ?_
        have := hs.1 i hi
        rw [hk, Option.some.injEq] at he
        omega
      | some x => rfl
    · have hin : k ∈ ks := by
        rcases List.mem_cons.1 hmem with h | h
        · exact absurd h.symm hj
        · exact h
      have hlt := hs.1 k hin
      have hlater : (j :: ks).filter (k < ·) = ks.filter (k < ·) :=
        List.filter_cons_of_neg (by simp; omega)
      rw [if_neg (by simpa using fun h => hj h.symm), hlater]
      exact ih hs.2 hin

/-- The pass for number `k` writes nothing where the text has no placeholder of that number, or where
there is no list to write. -/
theorem fillingAt_eq_none_iff {k : Nat} {s : List Char} :
    (∀ h, .hit h ∈ Phrase.inPlaceholder.pieces s → args.fillingAt k h = none) ↔
      ((args.listAt? k).isSome = true → k ∉ Statement.placeholders ⟨s⟩) := by
  rw [Statement.mem_placeholders]
  constructor
  · rintro hall hsome ⟨h, hh, hk⟩
    have hnone := hall h hh
    rw [fillingAt, if_pos hk] at hnone
    rw [hnone] at hsome; cases hsome
  · intro hno h hh
    unfold fillingAt
    split
    · rename_i hk
      by_contra hne
      exact hno (Option.isSome_iff_ne_none.2 hne) ⟨h, hh, hk⟩
    · rfl

/-- The passes leave a text as it is, if no number of theirs that is bound to a list has a
placeholder in it, and else they open it. -/
theorem fillEach_eq_or_opened (ks : List Nat) (s : List Char) :
    (∀ k ∈ ks, (args.listAt? k).isSome = true → k ∉ Statement.placeholders ⟨s⟩) ∧
        args.fillEach ks s = s ∨
      (∃ k ∈ ks, (args.listAt? k).isSome = true ∧ k ∈ Statement.placeholders ⟨s⟩) ∧
        Opened s (args.fillEach ks s) := by
  induction ks generalizing s with
  | nil => exact .inl ⟨by simp, rfl⟩
  | cons k ks ih =>
    have hstep : args.fillEach (k :: ks) s = args.fillEach ks ((args.fillingAt k).fill s) := rfl
    rw [hstep]
    by_cases hk : (args.listAt? k).isSome = true → k ∉ Statement.placeholders ⟨s⟩
    · rw [Filling.fill_eq_self (fillingAt_eq_none_iff.2 hk)]
      refine (ih s).imp (fun ⟨hall, hs⟩ => ⟨?_, hs⟩) fun ⟨⟨j, hj, hin⟩, hs⟩ => ⟨⟨j, ?_, hin⟩, hs⟩
      · rintro j (_ | ⟨_, hj⟩)
        · exact hk
        · exact hall j hj
      · exact List.mem_cons_of_mem k hj
    · have hopen : Opened s ((args.fillingAt k).fill s) :=
        (Filling.fill_eq_or_opened (fillingAt_sealed k) s).resolve_left
          fun hnone => hk (fillingAt_eq_none_iff.1 hnone)
      refine .inr ⟨⟨k, by simp, by simpa using hk⟩, ?_⟩
      rcases ih ((args.fillingAt k).fill s) with ⟨-, hs⟩ | ⟨-, hopen'⟩
      · rw [hs]; exact hopen
      · exact hopen.trans hopen'

/-- A placeholder whose list holds a placeholder of a later pass. -/
def Reread (args : Arguments) (ks : List Nat) (h : Hit) : Prop :=
  ∃ k list, h.placeholderIndex? = some k ∧ args.listAt? k = some list ∧
    ∃ j ∈ ks, k < j ∧ (args.listAt? j).isSome = true ∧ j ∈ Statement.placeholders ⟨list⟩

/-- What the passes write for a placeholder is what the substitution writes, or an opened text, if
its list is read again. -/
theorem piece_eq_or_opened {ks : List Nat} (hs : ks.Pairwise (· < ·)) {h : Hit}
    (hmem : ∀ k, h.placeholderIndex? = some k → k ∈ ks) :
    ¬ Reread args ks h ∧ args.filling.piece (.hit h) = (args.filled ks).piece (.hit h) ∨
      Reread args ks h ∧
        Opened (args.filling.piece (.hit h)) ((args.filled ks).piece (.hit h)) := by
  cases hk : h.placeholderIndex? with
  | none =>
    have hfilled : args.filled ks h = none := filled_of_ne fun j _ hj => by rw [hk] at hj; cases hj
    refine .inl ⟨?_, ?_⟩
    · rintro ⟨k, x, hk', -⟩
      rw [hk] at hk'; cases hk'
    · rw [Filling.piece, Filling.piece, filling, hk, hfilled]; rfl
  | some k =>
    have hfilled := @filled_of_mem args h k hk ks hs (hmem k hk)
    rw [Filling.piece, Filling.piece, filling, hk, hfilled, Option.bind_some]
    cases hx : args.listAt? k with
    | none =>
      refine .inl ⟨?_, rfl⟩
      rintro ⟨k', x, hk', hx', -⟩
      rw [hk] at hk'; cases hk'
      rw [hx] at hx'; cases hx'
    | some x =>
      rw [Option.map_some]
      dsimp only
      rcases @fillEach_eq_or_opened args (ks.filter (k < ·)) x with
        ⟨hall, heq⟩ | ⟨⟨j, hj, hsome, hin⟩, hopen⟩
      · refine .inl ⟨?_, by rw [heq]⟩
        rintro ⟨k', x', hk', hx', j, hj, hlt, hsome, hin⟩
        rw [hk] at hk'; cases hk'
        rw [hx] at hx'; cases hx'
        exact hall j (List.mem_filter.2 ⟨hj, decide_eq_true hlt⟩) hsome hin
      · rw [List.mem_filter, decide_eq_true_eq] at hj
        refine .inr ⟨⟨k, x, hk, hx, j, hj.1, hj.2, hsome, hin⟩, ?_⟩
        have := hopen.append h.lead [] []
        rwa [List.append_nil, List.append_nil] at this

/-- The passes come to the substitution where no list is read again. -/
theorem fill_eq_fillEach_iff {s : List Char}
    (hd : detached (Phrase.inPlaceholder.pieces s) = true) {ks : List Nat}
    (hs : ks.Pairwise (· < ·)) (hmem : ∀ k, k ∈ Statement.placeholders ⟨s⟩ → k ∈ ks) :
    args.filling.fill s = args.fillEach ks s ↔
      ∀ h, .hit h ∈ Phrase.inPlaceholder.pieces s → ¬ Reread args ks h := by
  have hhit : ∀ h, .hit h ∈ Phrase.inPlaceholder.pieces s →
      ∀ k, h.placeholderIndex? = some k → k ∈ ks :=
    fun h hh k hk => hmem k (Statement.mem_placeholders.2 ⟨h, hh, hk⟩)
  rw [fillEach_eq hd]
  constructor
  · intro heq h hh hre
    have hpiece : ∀ p ∈ Phrase.inPlaceholder.pieces s,
        args.filling.piece p = (args.filled ks).piece p ∨
          Opened (args.filling.piece p) ((args.filled ks).piece p) := by
      intro p hp
      cases p with
      | plain c => exact .inl rfl
      | hit m => exact (piece_eq_or_opened hs (hhit m hp)).imp And.right And.right
    rcases flatMap_eq_or_opened hpiece with ⟨hall, -⟩ | hopen
    · rcases @piece_eq_or_opened args ks hs h (hhit h hh) with ⟨hno, -⟩ | ⟨-, hopen⟩
      · exact hno hre
      · exact hopen.ne (hall _ hh)
    · exact hopen.ne heq
  · intro hno
    refine List.flatMap_congr fun p hp => ?_
    cases p with
    | plain c => rfl
    | hit h => exact ((piece_eq_or_opened hs (hhit h hp)).resolve_right fun hr => hno h hp hr.1).2

end Arguments

/-! ## The substitution and the passes -/

namespace Statement

theorem rereads_iff {q : Statement} {args : Arguments} :
    q.Rereads args ↔
      ∃ h, .hit h ∈ Phrase.inPlaceholder.pieces q.chars ∧ args.Reread q.parameters h := by
  constructor
  · rintro ⟨k, hk, x, hx, j, hj, hlt, hsome, hin⟩
    obtain ⟨h, hh, hk⟩ := mem_placeholders.1 hk
    exact ⟨h, hh, k, x, hk, hx, j, mem_parameters.2 hj, hlt, hsome, hin⟩
  · rintro ⟨h, hh, k, x, hk, hx, j, hj, hlt, hsome, hin⟩
    exact ⟨k, mem_placeholders.2 ⟨h, hh, hk⟩, x, hx, j, mem_parameters.1 hj, hlt, hsome, hin⟩

/-- In a text in which no word goes on behind the number of a placeholder, binding fails where a
number has no argument, naming the smallest one, and else substitutes all lists at once, unless the
list of one number holds a placeholder of a greater one that is bound to a list as well. -/
theorem bindArguments_eq_bindAtOnce_iff {q : Statement} (ha : q.Apart) (args : Arguments) :
    q.bindArguments args = q.bindAtOnce args ↔ (q.missing? args = none → ¬ q.Rereads args) := by
  have hmissing : (q.parameters.find? fun k => (args.parameter? k).isNone) = q.missing? args :=
    find?_eq_min? q.parameters_pairwise (fun _ => mem_parameters) _
  rw [bindArguments, bindEach_eq, hmissing, bindAtOnce]
  cases q.missing? args with
  | some k => simp
  | none =>
    have hiff := @Arguments.fill_eq_fillEach_iff args q.chars ha q.parameters q.parameters_pairwise
      fun _ hk => mem_parameters.2 hk
    simp only [boundAtOnce_eq_fill, Except.ok.injEq, Statement.mk.injEq, true_imp_iff, rereads_iff,
      not_exists, not_and]
    exact eq_comm.trans hiff

theorem bindArguments_eq_bindAtOnce_swapped :
    Apart ⟨"SELECT * FROM /Person WHERE a IN SET $2 AND b IN SET $1".toList⟩ ∧
    bindArguments ⟨"SELECT * FROM /Person WHERE a IN SET $2 AND b IN SET $1".toList⟩
        { values := [.string "x", .string "IN SET $1"] } =
      bindAtOnce ⟨"SELECT * FROM /Person WHERE a IN SET $2 AND b IN SET $1".toList⟩
        { values := [.string "x", .string "IN SET $1"] } := by
  refine ⟨by decide, ?_⟩
  exact (bindArguments_eq_bindAtOnce_iff (by decide) _).2 fun _ => by decide

/-- The first list is a text that asks for the second one, and gets it. -/
theorem bindArguments_not_atOnce :
    Apart ⟨"SELECT * FROM /Person WHERE a IN SET $1 AND b IN SET $2".toList⟩ ∧
    bindArguments ⟨"SELECT * FROM /Person WHERE a IN SET $1 AND b IN SET $2".toList⟩
        { values := [.string "IN SET $2", .string "x"] } =
      .ok ⟨"SELECT * FROM /Person WHERE a IN SET ('IN SET ('x')') AND b IN SET ('x')".toList⟩ ∧
    bindAtOnce ⟨"SELECT * FROM /Person WHERE a IN SET $1 AND b IN SET $2".toList⟩
        { values := [.string "IN SET $2", .string "x"] } =
      .ok ⟨"SELECT * FROM /Person WHERE a IN SET ('IN SET $2') AND b IN SET ('x')".toList⟩ := by
  have hnumbers : parameters ⟨"SELECT * FROM /Person WHERE a IN SET $1 AND b IN SET $2".toList⟩ =
      [1, 2] := by
    have hsorted : [1, 2].mergeSort (fun a b : Nat => decide (a ≤ b)) = [1, 2] :=
      List.mergeSort_of_pairwise (by decide)
    exact congrArg List.eraseDups hsorted
  refine ⟨by decide, ?_, rfl⟩
  rw [bindArguments, hnumbers]; rfl

end Statement

end GridQuery
