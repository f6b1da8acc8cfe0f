import GridQuery.Page.Basic
import GridQuery.Proofs.Page.Offsets
/-!
# Pages side by side

The pages of one size lie side by side: where one stops, the next one starts, also where the offsets
have reached the largest size, from where on all pages are empty. So the offsets grow with the number
of the page, and the pages up to one of them hold the rows up to its end, each once. Whether a page
has a successor is asked in two ways, by its end and by its number; both have the same answer, since
no total is greater than the largest size.

Results:
* `stop_eq_min`: where a page stops, in the arithmetic of the naturals.
* `flatMap_cut`: the pages up to one of them, one after the other, are the rows up to its end.
* `route_of_le`: behind a page that is read by its keys all pages are.
* `hasNext_iff`: a page has a successor exactly if its number is not the last one.
* `pages_consistent`: all of this, for one request.
-/

namespace GridQuery

namespace PageRequest

variable {p q : PageRequest}

/-! ## Offsets -/

theorem start_eq_min (p : PageRequest) : p.start = min (p.number * p.size) Size.max := rfl

theorem stop_eq_min (p : PageRequest) : p.stop = min ((p.number + 1) * p.size) Size.max := by
  have hsucc : (p.number + 1) * p.size = p.number * p.size + p.size := Nat.succ_mul _ _
  unfold stop start Size.mul Size.add
  omega

/-- A page starts where the one before it stops. -/
theorem start_next (p : PageRequest) : p.next.start = p.stop := (stop_eq_min p).symm

theorem bound_le_bound (hsize : q.size = p.size) (hnumber : p.number ≤ q.number) :
    p.bound ≤ q.bound := by
  have hnext : Size.add p.number 1 ≤ Size.add q.number 1 := by
    unfold Size.add
    omega
  exact Size.mul_mono hnext hsize.ge

/-! ## Rows -/

/-- The rows up to a page and the rows of the page are the rows up to the next page. -/
theorem take_start_append_cut (p : PageRequest) (rows : List Value) :
    rows.take p.start ++ p.cut rows = rows.take p.stop := by
  have hfront : rows.take p.start = (rows.take p.stop).take p.start := by
    rw [List.take_take, Nat.min_eq_left p.start_le_stop]
  rw [hfront, cut, List.take_append_drop]

theorem flatMap_cut (p : PageRequest) (rows : List Value) :
    (List.range (p.number + 1)).flatMap (fun k => { p with number := k }.cut rows) =
      rows.take p.stop := by
  obtain ⟨number, size, sorting⟩ := p
  induction number with
  | zero =>
    have hfirst := take_start_append_cut ⟨0, size, sorting⟩ rows
    have hstart : (⟨0, size, sorting⟩ : PageRequest).start = 0 := by
      rw [start_eq_min, Nat.zero_mul, Nat.zero_min]
    rw [hstart, List.take_zero, List.nil_append] at hfirst
    rw [List.range_one, List.flatMap_singleton, hfirst]
  | succ number ih =>
    have hnext : (⟨number + 1, size, sorting⟩ : PageRequest).start =
        (⟨number, size, sorting⟩ : PageRequest).stop := start_next ⟨number, size, sorting⟩
    rw [List.range_succ, List.flatMap_append, ih, ← hnext, List.flatMap_singleton,
      take_start_append_cut]

/-! ## Routes -/

/-- A page behind one that is read by its keys is not the first one, and ends no earlier. -/
theorem route_of_le {threshold : Nat} (hsize : q.size = p.size) (hnumber : p.number ≤ q.number)
    (h : p.route threshold = .twoPhase) : q.route threshold = .twoPhase := by
  have hbound := bound_le_bound hsize hnumber
  unfold route at h ⊢
  split at h
  · cases h
  · rename_i hdeep
    simp only [isFirst, Bool.or_eq_true, beq_iff_eq, decide_eq_true_eq, not_or] at hdeep ⊢
    exact if_neg (by omega)

end PageRequest

/-! ## Totals -/

namespace Page

variable {page : Page} {total : Nat}

/-- The total fills more than `n` pages exactly if `n` pages do not hold it. -/
theorem lt_totalPages_iff (htotal : page.total = some total) (hsize : 1 ≤ page.request.size) :
    ∃ pages, page.totalPages? = some pages ∧ ∀ n, n < pages ↔ n * page.request.size < total := by
  refine ⟨(total + (page.request.size - 1)) / page.request.size, ?_, fun n => ?_⟩
  · rw [totalPages?, htotal, Nat.max_eq_left hsize, Option.map_some]
  · rw [Nat.lt_div_iff_mul_lt hsize, Nat.mul_comm, Nat.add_sub_cancel]

theorem hasNext_iff (htotal : page.total = some total) (hmax : total ≤ Size.max) :
    page.hasNext = true ↔ (page.request.number + 1) * page.request.size < total := by
  rw [hasNext, htotal, PageRequest.bound_eq_stop, PageRequest.stop_eq_min, decide_eq_true_eq]
  omega

end Page

/-- **Page arithmetic.** The offsets of a page are those of the naturals, cut off at the largest
size. Pages of one size lie side by side, so the pages up to one of them hold the rows up to its end,
each once and in order; what has to be read grows with the number of the page, and a page behind one
that is read by its keys is read by its keys. With a known total a page has a successor exactly if
its number is not that of the last page. -/
theorem PageRequest.pages_consistent (p : PageRequest) :
    (p.start = min (p.number * p.size) Size.max ∧ p.stop = min ((p.number + 1) * p.size) Size.max ∧
      p.start ≤ p.stop ∧ p.stop = p.bound) ∧
    (p.number < Size.max → p.stop = p.next.start) ∧
    (∀ rows, (List.range (p.number + 1)).flatMap (fun k => { p with number := k }.cut rows) =
      rows.take p.stop) ∧
    (∀ q : PageRequest, q.size = p.size → p.number ≤ q.number → p.bound ≤ q.bound ∧
      ∀ threshold, p.route threshold = .twoPhase → q.route threshold = .twoPhase) ∧
    ∀ (page : Page) (total : Nat), page.request = p → page.total = some total →
      total ≤ Size.max → 1 ≤ p.size →
      ∃ pages, page.totalPages? = some pages ∧ (page.hasNext = true ↔ p.number + 1 < pages) := by
  refine ⟨⟨p.start_eq_min, p.stop_eq_min, p.start_le_stop, p.bound_eq_stop.symm⟩,
    fun _ => p.start_next.symm, p.flatMap_cut, fun q hsize hnumber => ?_,
    fun page total hp htotal hmax hsize => ?_⟩
  · exact ⟨bound_le_bound hsize hnumber, fun threshold => route_of_le hsize hnumber⟩
  · subst hp
    obtain ⟨pages, hpages, hlt⟩ := Page.lt_totalPages_iff htotal hsize
    exact ⟨pages, hpages, by rw [Page.hasNext_iff htotal hmax, hlt]⟩

/-- The last page but one that a total can have. -/
theorem PageRequest.pages_consistent_of_last_but_one :
    let p : PageRequest := { number := Size.max - 2, size := 1 }
    let page : Page := { content := [], request := p, total := some Size.max }
    p.stop = p.next.start ∧ p.next.route 101 = .twoPhase ∧ page.hasNext = true ∧
      ∃ pages, page.totalPages? = some pages ∧ p.number + 1 < pages := by
  intro p page
  obtain ⟨-, hnext, -, hlater, htotal⟩ := pages_consistent p
  have hroute : p.route 101 = .twoPhase := by decide
  obtain ⟨pages, hpages, hiff⟩ := htotal page Size.max rfl rfl (Nat.le_refl _) (by decide)
  have hhas : page.hasNext = true := by decide
  exact ⟨hnext (by decide), (hlater p.next rfl (by decide)).2 101 hroute, hhas, pages, hpages,
    hiff.1 hhas⟩

end GridQuery
