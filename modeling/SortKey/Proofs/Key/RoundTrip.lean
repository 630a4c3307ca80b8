import SortKey.Proofs.Key.Reread

namespace SortKey

/-!
# Keys of records built from values

A record whose entries all have values is found again in its key, whatever
octets its data consists of and however deep it is nested.  What can go wrong
is said exactly.  The text of the character zero comes back as the empty text.
Empty octets leave no data behind the code: on the outermost level they make
the key unreadable, and deeper down they make the entry around them
undecodable, which the key as a whole survives.
-/

/-- Among entries with values, empty octets are what leaves no data. -/
theorem Record.any_isEmpty_data_iff {record : Record}
    (valued : ∀ entry ∈ record, entry.HasValue) :
    record.any (·.data.isEmpty) = true <-> Entry.ofValue (.bytes []) ∈ record := by
  rw [List.any_eq_true]
  constructor
  · rintro ⟨entry, member, empty⟩
    rcases valued entry member with ⟨value, rfl⟩
    have nothing : value.data = [] := List.isEmpty_iff.mp empty
    rw [value.data_eq_nil_iff] at nothing
    exact nothing ▸ member
  · intro member
    exact ⟨_, member, rfl⟩

/-- Entries with values are read back as these values. -/
theorem Record.map_reread_of_complete (record : Record) (complete : record.Complete)
    (filled : record.Everywhere (· ≠ .ofValue (.bytes []))) :
    record.map Entry.reread = record.withoutNul := by
  induction record using Record.nestedInduction with
  | step record ih =>
      have readEach : ∀ entry ∈ record, entry.reread = entry.withoutNul := by
        intro entry member
        rcases complete.of_mem member with ⟨value, rfl⟩
        by_cases nested : value.kind = .record
        · cases value with
          | record entries =>
              have completeInside : Record.Complete entries := complete.nested member
              have filledInside := filled.nested member
              -- A nested record is refused only for empty octets among its own entries.
              have noneEmpty : ¬ entries.any (·.data.isEmpty) = true := by
                rw [Record.any_isEmpty_data_iff fun entry inside => completeInside.of_mem inside]
                intro empty
                exact filledInside.of_mem empty rfl
              have readInside : entries.map Entry.reread = Record.withoutNul entries :=
                ih entries member completeInside filledInside
              rw [Entry.reread_record, if_neg noneEmpty, readInside]
              rfl
          | _ => cases nested
        · rw [Entry.reread_of_value_ne_record value nested]
          rfl
      rw [record.withoutNul_eq_map]
      exact List.map_congr_left readEach

/-- The replacement of texts changes no entry into one without a value. -/
theorem Record.Complete.withoutNul {record : Record} (complete : record.Complete) :
    record.withoutNul.Complete := by
  induction record using Record.nestedInduction with
  | step record ih =>
      rw [Complete, everywhere_iff_forall_mem, record.withoutNul_eq_map]
      intro entry member
      rcases List.mem_map.mp member with ⟨source, inside, rfl⟩
      rcases complete.of_mem inside with ⟨value, rfl⟩
      refine (Entry.everywhere_iff _ _).mpr ⟨⟨value.withoutNul, rfl⟩, ?_⟩
      intro entries same
      cases value with
      | record found =>
          have replaced : Record.withoutNul found = entries :=
            Value.record.inj (Entry.ofValue.inj same)
          rw [← replaced]
          exact ih found inside (complete.nested inside)
      | _ => cases same

namespace Key

/-- A record built from values is read back from its key, up to the text of
the character zero.  With empty octets inside, reading fails exactly when they
stand on the outermost level. -/
theorem decode_key_of_complete (record : Record) (complete : record.Complete) :
    (record.Everywhere (· ≠ .ofValue (.bytes [])) ->
      decode none record.key = .ok record.withoutNul ∧ record.withoutNul.Complete ∧
        (record.Everywhere (· ≠ .ofValue (.text "\x00")) -> decode none record.key = .ok record)) ∧
    ((Exists fun cause => decode none record.key = .error cause) <->
      Entry.ofValue (.bytes []) ∈ record) ∧
    (forall cause, decode none record.key = .error cause -> cause = .emptyData) := by
  have emptyIff := Record.any_isEmpty_data_iff fun entry member => complete.of_mem member
  refine ⟨?_, ?_, ?_⟩
  · intro filled
    have noneEmpty : ¬ record.any (·.data.isEmpty) = true := by
      rw [emptyIff]
      intro empty
      exact filled.of_mem empty rfl
    have read : decode none record.key = .ok record.withoutNul := by
      rw [decode_key, if_neg noneEmpty, record.map_reread_of_complete complete filled]
    refine ⟨read, complete.withoutNul, ?_⟩
    intro absent
    rw [read, record.withoutNul_eq_self absent]
  · rw [decode_key, ← emptyIff]
    split
    · next empty => exact ⟨fun _ => empty, fun _ => ⟨_, rfl⟩⟩
    · next filled => exact ⟨fun failed => (by rcases failed with ⟨_, impossible⟩; cases impossible),
        fun empty => absurd empty filled⟩
  · intro cause failed
    rw [decode_key] at failed
    split at failed
    · cases failed
      rfl
    · cases failed

/-- Separators inside nested octets and the text of the character zero. -/
theorem decode_key_of_nested_separators :
    let record : Record :=
      [.ofValue (.record [.ofValue (.bytes [separator]), .ofValue (.record [])]),
        .ofValue (.text "\x00")]
    record.Complete ∧ record.Everywhere (· ≠ .ofValue (.bytes [])) ∧
      decode none record.key =
        .ok [.ofValue (.record [.ofValue (.bytes [separator]), .ofValue (.record [])]),
          .ofValue (.text "")] := by
  intro record
  have complete : record.Complete := by
    simp [record, Record.Complete, Record.Everywhere, Entry.EverywhereIn, Entry.Everywhere,
      Value.Everywhere, Entry.HasValue]
  have filled : record.Everywhere (· ≠ .ofValue (.bytes [])) := by
    simp [record, Record.Everywhere, Entry.EverywhereIn, Entry.Everywhere, Value.Everywhere]
  exact ⟨complete, filled, ((decode_key_of_complete record complete).1 filled).1⟩

end Key
end SortKey
