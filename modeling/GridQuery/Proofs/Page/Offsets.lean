import GridQuery.Proofs.Executor.KeyOrder
/-!
# The offsets of a page

The offsets of a page are computed with saturation, in two orders: what has to be read is a product
of the next page number, and where the page stops is a sum behind its start. They are the same also
where they saturate. Of a list that no offset can leave behind, a page is the rows that plain
arithmetic gives.

Results:
* `bound_eq_stop`: what has to be read ends where the page stops.
* `cut_take_bound`: of a list that was read up to the bound, the page is that of the whole list.
* `cut_eq`: the page of a list that is not longer than the largest size.
-/

namespace GridQuery.PageRequest

theorem bound_eq_stop (p : PageRequest) : p.bound = p.stop := by
  unfold bound stop start Size.mul Size.add
  have hsucc : (p.number + 1) * p.size = p.number * p.size + p.size := Nat.succ_mul _ _
  rcases Nat.lt_or_ge p.number Size.max with hlt | hge
  · have hnumber : min (p.number + 1) Size.max = p.number + 1 := by omega
    rw [hnumber, hsucc]
    omega
  · -- the page number itself saturates: the product is zero or the largest size
    have hnumber : min (p.number + 1) Size.max = Size.max := by omega
    rw [hnumber]
    rcases Nat.eq_zero_or_pos p.size with h0 | hpos
    · simp [h0]
    · have hmul := Nat.mul_le_mul hge hpos
      have hmax := Nat.le_mul_of_pos_right Size.max hpos
      omega

theorem start_le_stop (p : PageRequest) : p.start ≤ p.stop := by
  have hle := Size.mul_le p.number p.size
  unfold stop start Size.add
  omega

theorem cut_take_bound (p : PageRequest) (rows : List Value) :
    p.cut (rows.take p.bound) = p.cut rows := by
  rw [cut, cut, bound_eq_stop, List.take_take, Nat.min_self]

/-- Rows that were read as far as a limit allows hold no more of the page than the limit does. -/
theorem length_cut_take_le (p : PageRequest) (rows : List Value) (n : Nat) :
    (p.cut (rows.take n)).length ≤ n - p.start := by
  rw [cut, List.length_drop, List.length_take, List.length_take]
  omega

theorem cut_eq {p : PageRequest} {rows : List Value} (hrows : rows.length ≤ Size.max)
    (hstart : p.number * p.size ≤ rows.length) :
    p.cut rows = (rows.drop (p.number * p.size)).take p.size := by
  have hfirst : p.start = p.number * p.size := by
    unfold start Size.mul
    omega
  rw [cut, List.drop_take, hfirst]
  unfold stop Size.add
  rw [hfirst]
  -- where the end saturates, no row is left behind it
  rcases Nat.le_total (p.number * p.size + p.size) Size.max with hle | hge
  · rw [Nat.min_eq_left hle, Nat.add_sub_cancel_left]
  · rw [Nat.min_eq_right hge, List.take_of_length_le, List.take_of_length_le]
    · rw [List.length_drop]; omega
    · rw [List.length_drop]; omega

end GridQuery.PageRequest
