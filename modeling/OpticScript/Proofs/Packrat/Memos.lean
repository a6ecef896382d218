import Mathlib.Algebra.GroupWithZero.Nat
import OpticScript.Packrat.Table

/-!
# The memos of a rule

The memos that a table holds of one rule, each with the position where the rule begins
(`Table.memosOf`). There is one for a position at most, and a memo that is put into the table is
one more of them, or takes the place of the one that is there. So a sum over the memos of a rule
changes by what the new memo adds to it (`Table.sum_insert_of_none`, `Table.sum_insert_of_some`).
-/

namespace OpticScript.Packrat

variable {K : Type} [DecidableEq K] {V : K → Type}

namespace Table

/-- The memos of a rule, with the positions where it begins. -/
def memosOf (table : Table K V) (key : K) : List (Nat × Memo (V key)) :=
  table.rows.toList.filterMap fun entry => (entry.2.get? key).map fun memo => (entry.1, memo)

variable {table : Table K V} {key other : K} {start : Nat} {memo old : Memo (V key)}

theorem mem_memosOf : (start, memo) ∈ table.memosOf key ↔ table.get? key start = some memo := by
  simp only [memosOf, List.mem_filterMap, Option.map_eq_some_iff, Prod.mk.injEq, Prod.exists,
    Std.TreeMap.mem_toList_iff_getElem?_eq_some]
  constructor
  · rintro ⟨_, row, hrow, _, hmemo, rfl, rfl⟩
    rw [get?, Table.row, Std.TreeMap.getD_eq_getD_getElem?, hrow]
    exact hmemo
  · intro h
    rw [get?, Table.row, Std.TreeMap.getD_eq_getD_getElem?] at h
    rcases hrow : table.rows[start]? with _ | row
    · simp [hrow, Row.get?] at h
    · rw [hrow] at h
      exact ⟨start, row, hrow, memo, h, rfl, rfl⟩

theorem nodup_memosOf (table : Table K V) (key : K) : (table.memosOf key).Nodup := by
  refine (Std.TreeMap.distinct_keys_toList (t := table.rows)).filterMap _ ?_
  rintro entry entry' hne found hfound found' hfound' rfl
  obtain ⟨memo, -, rfl⟩ := Option.map_eq_some_iff.1 hfound
  obtain ⟨memo', -, heq⟩ := Option.map_eq_some_iff.1 hfound'
  exact hne (by simp [(Prod.mk.inj heq).1])

theorem memosOf_empty (key : K) : (empty : Table K V).memosOf key = [] :=
  List.eq_nil_iff_forall_not_mem.2 fun ⟨_, _⟩ hmem => by simp [mem_memosOf] at hmem

theorem memosOf_insert_of_ne (table : Table K V) (hne : other ≠ key) :
    ((table.insert key start memo).memosOf other).Perm (table.memosOf other) := by
  refine (List.perm_ext_iff_of_nodup (nodup_memosOf _ _)
    (nodup_memosOf _ _)).2 fun ⟨pos, found⟩ => ?_
  rw [mem_memosOf, mem_memosOf, get?_insert_of_ne table (.inl hne)]

theorem mem_memosOf_insert {entry : Nat × Memo (V key)} :
    entry ∈ (table.insert key start memo).memosOf key ↔
      entry = (start, memo) ∨ entry ∈ table.memosOf key ∧ entry.1 ≠ start := by
  obtain ⟨pos, found⟩ := entry
  rw [mem_memosOf, mem_memosOf]
  rcases eq_or_ne pos start with rfl | hne
  · simp [eq_comm]
  · simp [get?_insert_of_ne table (.inr hne), hne]

/-- A rule that has no memo at a position has one more of them. -/
theorem memosOf_insert_of_none (h : table.get? key start = none) :
    ((table.insert key start memo).memosOf key).Perm ((start, memo) :: table.memosOf key) := by
  have habsent : ∀ {found}, (start, found) ∉ table.memosOf key := by simp [mem_memosOf, h]
  refine (List.perm_ext_iff_of_nodup (nodup_memosOf _ _)
    (List.nodup_cons.2 ⟨habsent, nodup_memosOf _ _⟩)).2 fun ⟨pos, found⟩ => ?_
  rw [mem_memosOf_insert, List.mem_cons]
  refine or_congr_right (and_iff_left_of_imp ?_)
  rintro hmem rfl
  exact habsent hmem

/-- A memo takes the place of the one that is there. -/
theorem exists_memosOf_insert_of_some (memo : Memo (V key))
    (h : table.get? key start = some old) : ∃ rest,
    (table.memosOf key).Perm ((start, old) :: rest) ∧
      ((table.insert key start memo).memosOf key).Perm ((start, memo) :: rest) := by
  classical
  have hmem : (start, old) ∈ table.memosOf key := mem_memosOf.2 h
  have hnodup := nodup_memosOf table key
  refine ⟨(table.memosOf key).erase (start, old), List.perm_cons_erase hmem, ?_⟩
  have hrest : ∀ entry, entry ∈ (table.memosOf key).erase (start, old) ↔
      entry ∈ table.memosOf key ∧ entry.1 ≠ start := by
    rintro ⟨pos, found⟩
    rw [hnodup.mem_erase_iff, and_comm]
    refine and_congr_right fun hfound => ⟨?_, fun hne heq => hne (Prod.mk.inj heq).1⟩
    rintro hne rfl
    rw [mem_memosOf, h] at hfound
    exact hne (by rw [Option.some.inj hfound])
  refine (List.perm_ext_iff_of_nodup (nodup_memosOf _ _)
    (List.nodup_cons.2 ⟨?_, hnodup.erase _⟩)).2 fun entry => ?_
  · simp [hrest]
  · rw [mem_memosOf_insert, List.mem_cons, hrest]

/-! ## Sums -/

section

variable {weight : Nat × Memo (V key) → Nat}

theorem sum_insert_of_ne (table : Table K V) {weight : Nat × Memo (V other) → Nat}
    (hne : other ≠ key) : (((table.insert key start memo).memosOf other).map weight).sum =
      ((table.memosOf other).map weight).sum :=
  ((memosOf_insert_of_ne table hne).map weight).sum_nat

theorem sum_insert_of_none (h : table.get? key start = none) :
    (((table.insert key start memo).memosOf key).map weight).sum =
      ((table.memosOf key).map weight).sum + weight (start, memo) := by
  rw [((memosOf_insert_of_none h).map weight).sum_nat, List.map_cons, List.sum_cons, Nat.add_comm]

theorem sum_insert_of_some (h : table.get? key start = some old) :
    (((table.insert key start memo).memosOf key).map weight).sum + weight (start, old) =
      ((table.memosOf key).map weight).sum + weight (start, memo) := by
  obtain ⟨rest, hbefore, hafter⟩ := exists_memosOf_insert_of_some memo h
  rw [(hbefore.map weight).sum_nat, (hafter.map weight).sum_nat, List.map_cons, List.map_cons,
    List.sum_cons, List.sum_cons]
  omega

end

end Table

end OpticScript.Packrat
