import Mathlib.Data.List.GetD

/-!
# Rows combined column by column

A program that folds a list of rows into one row, element by element, ends with a row
that holds in each place what the operation makes of that column.  Combining two rows
cuts the longer one to the shorter, so that the rows may be longer than the row the
fold starts with, but not shorter.

`column` is one place of the result, `foldl_zipWith_replicate` the whole of it, and
`column_zipWith` says that columns of combined rows are combined columns.
-/

namespace BcNode.Verified

section Columns

variable {α β : Type} (op : α → α → α) (unit : α)

/-- What the operation makes of place `i` of the rows. -/
def column (rows : List (List α)) (i : Nat) : α :=
  (rows.map fun row => row.getD i unit).foldl op unit

variable {op unit} {rows : List (List α)} {i width : Nat}

theorem getD_zipWith {row row' : List α} (h : i < row.length) (h' : i < row'.length) :
    (List.zipWith op row row').getD i unit = op (row.getD i unit) (row'.getD i unit) := by
  have hlength : i < (List.zipWith op row row').length := by
    rw [List.length_zipWith]
    omega
  rw [List.getD_eq_getElem _ unit hlength, List.getD_eq_getElem _ unit h,
    List.getD_eq_getElem _ unit h', List.getElem_zipWith]

variable [Std.Associative op] [Std.LawfulIdentity op unit]

theorem column_cons (row : List α) :
    column op unit (row :: rows) i = op (row.getD i unit) (column op unit rows i) := by
  have hleft : ∀ a, op unit a = a := Std.LawfulLeftIdentity.left_id
  have hright : ∀ a, op a unit = a := Std.LawfulRightIdentity.right_id
  have hassoc : ∀ a b (list : List α), list.foldl op (op a b) = op a (list.foldl op b) :=
    fun _ _ _ => List.foldl_assoc
  rw [column, List.map_cons, List.foldl_cons, hleft, column, ← hassoc, hright]

variable (op unit) in
/-- The fold keeps the width it starts with and combines the columns. -/
theorem foldl_zipWith (hrows : ∀ row ∈ rows, width ≤ row.length) {first : List α}
    (hfirst : first.length = width) :
    (rows.foldl (List.zipWith op) first).length = width ∧
      ∀ i < width, (rows.foldl (List.zipWith op) first).getD i unit =
        op (first.getD i unit) (column op unit rows i) := by
  induction rows generalizing first with
  | nil =>
      have hright : ∀ a, op a unit = a := Std.LawfulRightIdentity.right_id
      exact ⟨hfirst, fun i _ => (hright _).symm⟩
  | cons row rows ih =>
      obtain ⟨hrow, hrest⟩ := List.forall_mem_cons.1 hrows
      have hnext : (List.zipWith op first row).length = width := by
        rw [List.length_zipWith, hfirst]
        omega
      obtain ⟨hlength, hvalues⟩ := ih hrest hnext
      have hassoc : ∀ a b c, op (op a b) c = op a (op b c) := Std.Associative.assoc
      refine ⟨hlength, fun i hi => ?_⟩
      rw [List.foldl_cons, hvalues i hi, getD_zipWith (hfirst ▸ hi) (by omega), column_cons,
        hassoc]

/-- **A fold from the neutral row holds the columns.** -/
theorem foldl_zipWith_replicate (hrows : ∀ row ∈ rows, width ≤ row.length) :
    rows.foldl (List.zipWith op) (List.replicate width unit) =
      (List.range width).map (column op unit rows) := by
  have hfirst : (List.replicate width unit).length = width := List.length_replicate
  obtain ⟨hlength, hvalues⟩ := foldl_zipWith op unit hrows hfirst
  refine List.ext_getElem (by rw [hlength, List.length_map, List.length_range])
    fun i hi hi' => ?_
  have hleft : ∀ a, op unit a = a := Std.LawfulLeftIdentity.left_id
  have hwidth : i < width := hlength ▸ hi
  rw [← List.getD_eq_getElem _ unit hi, hvalues i hwidth,
    List.getD_eq_getElem _ unit (Nat.lt_of_lt_of_eq hwidth hfirst.symm),
    List.getElem_replicate, hleft, List.getElem_map, List.getElem_range]

/-- Columns of combined rows are combined columns. -/
theorem column_zipWith [Std.Commutative op] {f g : β → List α} {list : List β}
    (h : ∀ x ∈ list, i < (f x).length ∧ i < (g x).length) :
    column op unit (list.map fun x => List.zipWith op (f x) (g x)) i =
      op (column op unit (list.map f) i) (column op unit (list.map g) i) := by
  induction list with
  | nil =>
      have hleft : ∀ a, op unit a = a := Std.LawfulLeftIdentity.left_id
      exact (hleft unit).symm
  | cons x list ih =>
      obtain ⟨hx, hrest⟩ := List.forall_mem_cons.1 h
      rw [List.map_cons, List.map_cons, List.map_cons, column_cons, column_cons,
        column_cons, ih hrest, getD_zipWith hx.1 hx.2]
      ac_rfl

end Columns

end BcNode.Verified
