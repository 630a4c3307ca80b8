import Mathlib.Data.List.Forall2
import SortKey.Proofs.Nesting

namespace SortKey

/-!
# Equality of records

Equality looks at kinds, values and kept data, and never at the cause for which
an entry has no value.  `withoutCauses` puts one cause in place of all, at every
depth.  Two records are equal exactly when this makes them the same, so that
equality is an equivalence, and whatever does not look at causes respects it.
-/

/-! ## One cause in place of all -/

mutual

def Value.withoutCauses : Value -> Value
  | .record entries => .record (Entry.withoutCausesAll entries)
  | value => value

def Entry.withoutCauses : Entry -> Entry
  | .ofValue value => .ofValue value.withoutCauses
  | .undecodable kind data _ => .undecodable kind data .unexpectedEnd

def Entry.withoutCausesAll : List Entry -> List Entry
  | [] => []
  | entry :: entries => entry.withoutCauses :: Entry.withoutCausesAll entries

end

/-- A record whose entries without a value all have the same cause. -/
def Record.withoutCauses (record : Record) : Record :=
  Entry.withoutCausesAll record

theorem Record.withoutCauses_eq_map (record : Record) :
    record.withoutCauses = record.map Entry.withoutCauses := by
  unfold withoutCauses
  induction record with
  | nil => rfl
  | cons entry entries ih => rw [Entry.withoutCausesAll, ih, List.map_cons]

namespace Entry

theorem withoutCauses_record (entries : List Entry) :
    (ofValue (.record entries)).withoutCauses =
      ofValue (.record (Record.withoutCauses entries)) :=
  rfl

end Entry

/-! ## Equality at each place -/

namespace Record

theorem same_iff_forall₂ (a b : Record) :
    a.same b = true <-> List.Forall₂ (fun x y => x.same y = true) a b := by
  unfold same
  induction a generalizing b with
  | nil => cases b <;> simp [Entry.sameAll]
  | cons x a ih => cases b <;> simp [Entry.sameAll, ih]

end Record

/-- Equality of entries, once it is settled for the records that are their
values. -/
private theorem Entry.same_iff_of_nested (x y : Entry)
    (nested : forall xs ys : Record, x = .ofValue (.record xs) -> y = .ofValue (.record ys) ->
      (xs.same ys = true <-> xs.withoutCauses = ys.withoutCauses)) :
    x.same y = true <-> x.withoutCauses = y.withoutCauses := by
  cases x with
  | undecodable kind data cause =>
      cases y with
      | undecodable kind' data' cause' => simp [Entry.same, Entry.withoutCauses]
      | ofValue v => simp [Entry.same, Entry.withoutCauses]
  | ofValue u =>
      cases y with
      | undecodable kind data cause => simp [Entry.same, Entry.withoutCauses]
      | ofValue v =>
          cases u with
          | record xs =>
              cases v with
              | record ys =>
                  rw [withoutCauses_record, withoutCauses_record, ofValue.injEq, Value.record.injEq]
                  exact nested xs ys rfl rfl
              | _ => simp [Entry.same, Value.same, Entry.withoutCauses, Value.withoutCauses]
          | _ => cases v <;> simp [Entry.same, Value.same, Entry.withoutCauses, Value.withoutCauses]

namespace Record

/-- Records are equal exactly when they are the same up to causes. -/
theorem same_iff_withoutCauses_eq (a b : Record) :
    a.same b = true <-> a.withoutCauses = b.withoutCauses := by
  induction a using Record.nestedInduction generalizing b with
  | step a nested =>
      rw [withoutCauses_eq_map, withoutCauses_eq_map, same_iff_forall₂]
      induction a generalizing b with
      | nil => cases b <;> simp
      | cons x a ih =>
          cases b with
          | nil => simp
          | cons y b =>
              have first : x.same y = true <-> x.withoutCauses = y.withoutCauses := by
                apply Entry.same_iff_of_nested
                rintro xs ys rfl _
                exact nested xs List.mem_cons_self ys
              have others := ih (fun entries member => nested entries (List.mem_cons_of_mem x member)) b
              rw [List.forall₂_cons, List.map_cons, List.map_cons, List.cons.injEq, first, others]

theorem same_self (record : Record) : record.same record = true :=
  (same_iff_withoutCauses_eq record record).mpr rfl

theorem same_equivalence : Equivalence fun a b : Record => a.same b = true where
  refl := same_self
  symm := by
    intro a b equal
    rw [same_iff_withoutCauses_eq] at equal ⊢
    exact equal.symm
  trans := by
    intro a b c first second
    rw [same_iff_withoutCauses_eq] at first second ⊢
    exact first.trans second

end Record

theorem Entry.same_self (entry : Entry) : entry.same entry = true := by
  have alone := (Record.same_iff_forall₂ [entry] [entry]).mp (Record.same_self [entry])
  exact List.forall₂_same.mp alone entry List.mem_cons_self

/-- Equal entries may stand for each other. -/
theorem Record.same_of_entry_same {x y : Entry} (equal : x.same y = true) (front back : Record) :
    Record.same (front ++ x :: back) (front ++ y :: back) = true := by
  have behind : List.Forall₂ (fun a b : Entry => a.same b = true) (x :: back) (y :: back) :=
    .cons equal (List.forall₂_same.mpr fun entry _ => entry.same_self)
  rw [Record.same_iff_forall₂]
  induction front with
  | nil => exact behind
  | cons entry front ih => exact .cons entry.same_self ih

/-! ## What hash functions see -/

namespace Record

theorem hashWritesAll_eq_flatMap (record : Record) :
    Entry.hashWritesAll record = record.flatMap Entry.hashWrites := by
  induction record with
  | nil => rfl
  | cons entry entries ih => rw [Entry.hashWritesAll, ih, List.flatMap_cons]

/-- Causes are not hashed. -/
theorem hashWrites_withoutCauses (record : Record) :
    record.withoutCauses.hashWrites = record.hashWrites := by
  induction record using Record.nestedInduction with
  | step record nested =>
      have unchanged : ∀ entry ∈ record, entry.withoutCauses.hashWrites = entry.hashWrites := by
        intro entry member
        cases entry with
        | undecodable kind data cause => rfl
        | ofValue value =>
            cases value with
            | record entries =>
                exact congrArg (HashWrite.code Kind.record.code :: ·) (nested entries member)
            | _ => rfl
      rw [hashWrites, hashWrites, withoutCauses_eq_map, List.length_map, hashWritesAll_eq_flatMap,
        hashWritesAll_eq_flatMap, List.flatMap_map]
      exact congrArg _ (List.flatMap_congr unchanged)

end Record

/-! ## Records without causes -/

/-- Where every entry has a value there is no cause to replace. -/
theorem Record.Complete.withoutCauses {record : Record} (complete : record.Complete) :
    record.withoutCauses = record := by
  induction record using Record.nestedInduction with
  | step record nested =>
      have unchanged : ∀ entry ∈ record, entry.withoutCauses = id entry := by
        intro entry member
        rcases complete.of_mem member with ⟨value, rfl⟩
        cases value with
        | record entries =>
            rw [Entry.withoutCauses_record, nested entries member (complete.nested member)]
            rfl
        | _ => rfl
      rw [withoutCauses_eq_map, List.map_congr_left unchanged, List.map_id]

/-- Equality of complete records is equality of all their values. -/
theorem Record.Complete.same_iff_eq {a b : Record} (completeA : a.Complete)
    (completeB : b.Complete) : a.same b = true <-> a = b := by
  rw [Record.same_iff_withoutCauses_eq, completeA.withoutCauses, completeB.withoutCauses]

end SortKey
