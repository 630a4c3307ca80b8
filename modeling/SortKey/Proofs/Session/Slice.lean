import SortKey.Session.Store

namespace SortKey

/-!
# What slices show

A slice shows a range of the record that the slice shows from which it was
taken.  Taking it fails for a range that is inverted or reaches behind the end,
and for nothing else.
-/

namespace Slice

theorem subrange_eq_ok_iff {slice part : Slice} {start stop : Nat} :
    slice.subrange start stop = .ok part <->
      start ≤ stop ∧ stop ≤ slice.count ∧
        part = if start = stop then empty
          else ⟨slice.storage, slice.first + start, stop - start⟩ := by
  unfold subrange
  split
  · next behind =>
      simp only [reduceCtorEq, false_iff]
      omega
  · next reaches =>
      split
      · next inverted =>
          simp only [reduceCtorEq, false_iff]
          omega
      · next ordered =>
          simp only [Nat.not_lt.mp reaches, Nat.not_lt.mp ordered, true_and]
          split <;> simp only [Except.ok.injEq, eq_comm]

/-- The end of a range is looked at first. -/
theorem subrange_of_length_lt {slice : Slice} {stop : Nat} (behind : slice.count < stop)
    (start : Nat) : slice.subrange start stop = .error (.indexOutOfRange stop slice.count) :=
  if_pos behind

theorem subrange_of_inverted {slice : Slice} {start stop : Nat} (inside : stop ≤ slice.count)
    (inverted : stop < start) :
    slice.subrange start stop = .error (.indexOutOfRange start slice.count) := by
  rw [subrange, if_neg (Nat.not_lt.mpr inside), if_pos inverted]

/-- A range of a range is a range, further on by the start of the outer one. -/
theorem subrange_of_subrange {slice part inner : Slice} {start stop first last : Nat}
    (outer : slice.subrange start stop = .ok part) (taken : part.subrange first last = .ok inner) :
    slice.subrange (start + first) (start + last) = .ok inner := by
  rcases subrange_eq_ok_iff.mp outer with ⟨ordered, inside, rfl⟩
  rcases subrange_eq_ok_iff.mp taken with ⟨orderedInner, insideInner, rfl⟩
  apply subrange_eq_ok_iff.mpr
  by_cases same : start = stop
  · subst same
    rw [if_pos rfl] at insideInner
    have none : last ≤ 0 := insideInner
    have single : first = last := by omega
    exact ⟨by omega, by omega, by rw [if_pos single, if_pos (by rw [single])]⟩
  · rw [if_neg same] at insideInner ⊢
    dsimp only at insideInner ⊢
    refine ⟨by omega, by omega, ?_⟩
    by_cases single : first = last
    · rw [if_pos single, if_pos (by rw [single])]
    · rw [if_neg single, if_neg (by omega), Nat.add_assoc, Nat.add_sub_add_left]

end Slice

namespace Session

theorem cells_empty (session : Session) : session.cells Slice.empty = [] :=
  List.take_zero

theorem length_record_le (session : Session) (slice : Slice) :
    (session.record slice).length ≤ slice.count := by
  rw [record, List.length_map]
  exact List.length_take_le _ _

/-- A range of a slice shows that range of its record. -/
theorem record_subrange (session : Session) {slice part : Slice} {start stop : Nat}
    (taken : slice.subrange start stop = .ok part) :
    session.record part = ((session.record slice).take stop).drop start := by
  rcases Slice.subrange_eq_ok_iff.mp taken with ⟨ordered, inside, rfl⟩
  rw [record, record, ← List.map_take, ← List.map_drop]
  apply congrArg (List.map Cell.entry)
  split
  · next same =>
      subst same
      rw [cells_empty, eq_comm, List.drop_eq_nil_iff]
      exact List.length_take_le _ _
  · rw [cells, cells, List.take_take, Nat.min_eq_left inside, List.drop_take, List.drop_drop]

/-- The entries before a position of a slice. -/
theorem exists_toIndex (session : Session) (slice : Slice) {count : Nat}
    (inside : count ≤ (session.record slice).length) :
    Exists fun part => slice.toIndex count = .ok part ∧
      session.record part = (session.record slice).take count := by
  have counted : count ≤ slice.count := Nat.le_trans inside (session.length_record_le slice)
  have taken := Slice.subrange_eq_ok_iff.mpr ⟨Nat.zero_le count, counted, rfl⟩
  exact ⟨_, taken, session.record_subrange taken⟩

/-- The entries of a slice from a position on. -/
theorem exists_fromIndex (session : Session) (slice : Slice) {start : Nat}
    (inside : start ≤ (session.record slice).length) :
    Exists fun part => slice.fromIndex start = .ok part ∧
      session.record part = (session.record slice).drop start := by
  have all := session.length_record_le slice
  have taken :=
    Slice.subrange_eq_ok_iff.mpr ⟨Nat.le_trans inside all, Nat.le_refl slice.count, rfl⟩
  refine ⟨_, taken, ?_⟩
  rw [session.record_subrange taken, List.take_of_length_le all]

/-- Cells that are stored are shown by the slice that is returned. -/
theorem record_store (session : Session) (cells : List Cell) :
    ((store cells).run session).2.record ((store cells).run session).1 =
      cells.map Cell.entry := by
  cases cells with
  | nil => exact congrArg (List.map Cell.entry) (cells_empty session)
  | cons cell cells =>
      apply congrArg (List.map Cell.entry)
      change List.take (cells.length + 1) (List.drop 0
        ((session.storages.push (cell :: cells).toArray).getD session.storages.size #[]).toList) = _
      simp

end Session
end SortKey
