import Mathlib.Data.List.Basic

/-!
# Rows of one width in a flat buffer

A row of width `w` has slot `i` at offset `i * w`. Buffers are written row by row, either by appending
each row or by copying it to its offset in a buffer made large enough before.

Results:
* `slot_flatten`, `chunks_flatten`: the rows put in are the slots and the chunks got out;
* `copyAt_append`: copying to the end of what is written stays in bounds and extends it by the row.
-/

namespace Nwep.Lib

universe u

variable {α : Type u}

/-- Slot `i` of a buffer with stride `w`. -/
def slot (w i : Nat) (l : List α) : List α := (l.drop (i * w)).take w

/-- `slice::chunks`: the slots in order, the last one shorter if need be. -/
def chunks (w : Nat) (l : List α) : List (List α) :=
  (List.range ((l.length + w - 1) / w)).map fun i => slot w i l

/-- `buf[off..off + src.len()].copy_from_slice(src)`. None is the panic of the slice. -/
def copyAt (buf : List α) (off : Nat) (src : List α) : Option (List α) :=
  if off + src.length ≤ buf.length then
    some (buf.take off ++ src ++ buf.drop (off + src.length))
  else none

/-- A buffer whose first bytes a callee has written, within the buffer. -/
def overwrite (buf written : List α) : List α :=
  written.take buf.length ++ buf.drop written.length

theorem overwrite_length (buf written : List α) :
    (overwrite buf written).length = buf.length := by
  simp [overwrite]
  omega

/-- A buffer written in full. -/
theorem overwrite_full {buf written : List α} (h : written.length = buf.length) :
    overwrite buf written = written := by
  unfold overwrite
  rw [← h, List.take_length, h, List.drop_length, List.append_nil]

variable {w : Nat} {rows : List (List α)}

theorem flatten_length (hw : ∀ r ∈ rows, r.length = w) :
    rows.flatten.length = rows.length * w := by
  induction rows with
  | nil => simp
  | cons r rows ih =>
    rw [List.flatten_cons, List.length_append, hw r List.mem_cons_self,
      ih (fun x hx => hw x (List.mem_cons_of_mem r hx)), List.length_cons, Nat.succ_mul,
      Nat.add_comm]

/-- Slot `i` of rows packed one after the other is row `i`. -/
theorem slot_flatten (hw : ∀ r ∈ rows, r.length = w) {i : Nat} {r : List α}
    (hi : rows[i]? = some r) : slot w i rows.flatten = r := by
  induction rows generalizing i with
  | nil => exact absurd hi (by simp)
  | cons r' rows ih =>
    have hr' : r'.length = w := hw r' List.mem_cons_self
    cases i with
    | zero =>
      obtain rfl : r' = r := by simpa using hi
      unfold slot
      rw [Nat.zero_mul, List.drop_zero, List.flatten_cons]
      exact List.take_left' hr'
    | succ i =>
      have hrec := ih (fun x hx => hw x (List.mem_cons_of_mem r' hx)) (i := i) (by simpa using hi)
      unfold slot at hrec ⊢
      rw [List.flatten_cons, Nat.succ_mul, Nat.add_comm, ← List.drop_drop, List.drop_left' hr',
        hrec]

/-- The chunks of rows packed one after the other are the rows. -/
theorem chunks_flatten (hpos : 0 < w) (hw : ∀ r ∈ rows, r.length = w) :
    chunks w rows.flatten = rows := by
  have hcount : (rows.flatten.length + w - 1) / w = rows.length := by
    rw [flatten_length hw]
    have hsplit : rows.length * w + w - 1 = w - 1 + rows.length * w := by omega
    rw [hsplit, Nat.add_mul_div_right _ _ hpos, Nat.div_eq_of_lt (by omega), Nat.zero_add]
  unfold chunks
  rw [hcount]
  apply List.ext_getElem?
  intro i
  by_cases hi : i < rows.length
  · have hget : rows[i]? = some rows[i] := List.getElem?_eq_getElem hi
    simp [hi, slot_flatten hw hget]
  · simp [Nat.not_lt.mp hi]

/-- Copying a row to the end of what is written replaces the first of what is not. -/
theorem copyAt_append (done row blank rest : List α) (h : row.length = blank.length) :
    copyAt (done ++ (blank ++ rest)) done.length row = some (done ++ row ++ rest) := by
  unfold copyAt
  have hfit : done.length + row.length ≤ (done ++ (blank ++ rest)).length := by
    simp only [List.length_append]
    omega
  rw [if_pos hfit, List.take_left, ← List.drop_drop, List.drop_left, h, List.drop_left]

/-- A row is copied to the first of the blank slots. -/
theorem copyAt_blank {done row : List α} (blank : α) (k : Nat) {off w : Nat}
    (hdone : done.length = off) (hrow : row.length = w) :
    copyAt (done ++ List.replicate ((k + 1) * w) blank) off row =
      some ((done ++ row) ++ List.replicate (k * w) blank) := by
  subst hdone
  rw [Nat.succ_mul, Nat.add_comm, List.replicate_add]
  exact copyAt_append done row _ _ (by rw [hrow, List.length_replicate])

end Nwep.Lib
