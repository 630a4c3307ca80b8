import SortKey.Proofs.Stream.Form

namespace SortKey

/-!
# Writing is all or nothing

A writer is only ever added to, also where writing fails further in.  So what was
written of a record before it failed can be taken back as a whole, and nothing of
what the writer held before is lost with it.

Where counts and lengths fit their fields, the one reason to fail is an entry
without a value.  Of several such entries the first one decides, in the order in
which entries are written: each in front of those inside it.
-/

/-! ## Writers are added to -/

namespace Writer

theorem bytes_prefix_put (field : Field) (writer : Writer) :
    writer.bytes <+: (writer.put field).2.bytes := by
  rw [put, write]
  cases field.encode with
  | ok bytes => exact List.prefix_append writer.bytes bytes
  | error cause => exact List.prefix_rfl

theorem bytes_prefix_putCount (count : Nat) (writer : Writer) :
    writer.bytes <+: (writer.putCount count).2.bytes := by
  rw [putCount]
  split
  · exact List.prefix_rfl
  · exact writer.bytes_prefix_put _

/-- What was added can be taken away again. -/
theorem truncate_of_prefix {writer written : Writer} (added : writer.bytes <+: written.bytes) :
    written.truncate writer.bytes.length = writer := by
  rw [truncate, ← List.prefix_iff_eq_take.mp added]

end Writer

/-- What follows a writing that succeeded adds to the same writer. -/
private theorem prefix_of_step {start : Bytes} {outcome : Except RecordError Unit × Writer}
    {more : Writer -> Except RecordError Unit × Writer} (first : start <+: outcome.2.bytes)
    (others : forall writer : Writer, writer.bytes <+: (more writer).2.bytes) :
    start <+: (match outcome with
      | (.ok (), writer) => more writer
      | failed => failed).2.bytes := by
  rcases outcome with ⟨_ | _, writer⟩
  · exact first
  · exact first.trans (others writer)

mutual

theorem Value.bytes_prefix_writeTo (value : Value) (writer : Writer) :
    writer.bytes <+: (value.writeTo writer).2.bytes := by
  cases value with
  | record entries =>
      rw [Value.writeTo]
      exact prefix_of_step (writer.bytes_prefix_putCount _) (Entry.bytes_prefix_writeAllTo entries)
  | _ => exact writer.bytes_prefix_put _

theorem Entry.bytes_prefix_writeTo (entry : Entry) (writer : Writer) :
    writer.bytes <+: (entry.writeTo writer).2.bytes := by
  cases entry with
  | ofValue value =>
      rw [Entry.writeTo]
      exact prefix_of_step (writer.bytes_prefix_put (.octet value.kind.code))
        value.bytes_prefix_writeTo
  | undecodable kind data cause =>
      rw [Entry.writeTo]
      refine prefix_of_step (writer.bytes_prefix_put (.octet kind.code)) ?_
      exact fun _ => List.prefix_rfl

theorem Entry.bytes_prefix_writeAllTo (entries : List Entry) (writer : Writer) :
    writer.bytes <+: (Entry.writeAllTo entries writer).2.bytes := by
  cases entries with
  | nil => exact List.prefix_rfl
  | cons entry entries =>
      rw [Entry.writeAllTo]
      exact prefix_of_step (entry.bytes_prefix_writeTo writer)
        (Entry.bytes_prefix_writeAllTo entries)

end

/-! ## The first entry without a value -/

namespace Record

/-- The first entry without a value, where one is. -/
def firstMissing? (record : Record) : Option Entry :=
  record.preorder.find? fun entry => ¬ entry.HasValue

theorem firstMissing?_eq_none_iff (record : Record) :
    record.firstMissing? = none <-> record.Complete := by
  rw [firstMissing?, List.find?_eq_none, Complete, everywhere_iff_forall_mem_preorder]
  simp

/-- A record that is not complete is complete up to an entry that is not. -/
theorem exists_first_incomplete {record : Record} (incomplete : ¬ record.Complete) :
    Exists fun before => Exists fun entry => Exists fun after =>
      record = before ++ entry :: after ∧ Complete before ∧ ¬ Complete [entry] := by
  induction record with
  | nil => exact absurd trivial incomplete
  | cons entry entries ih =>
      by_cases first : Complete [entry]
      · have others : ¬ Complete entries := fun others => incomplete ⟨first.1, others⟩
        rcases ih others with ⟨before, found, after, rfl, complete, lacking⟩
        exact ⟨entry :: before, found, after, rfl, ⟨first.1, complete⟩, lacking⟩
      · exact ⟨[], entry, entries, rfl, trivial, first⟩

/-- A record that is the one entry of another is not complete either. -/
theorem exists_nested_incomplete {value : Value} (incomplete : ¬ Complete [.ofValue value]) :
    Exists fun entries => value = .record entries ∧ ¬ Complete entries := by
  cases value with
  | record entries =>
      exact ⟨entries, rfl, fun complete => incomplete ⟨⟨⟨_, rfl⟩, complete⟩, trivial⟩⟩
  | _ => exact absurd ⟨⟨⟨_, rfl⟩, trivial⟩, trivial⟩ incomplete

theorem firstMissing?_nested (entries : Record) :
    firstMissing? [.ofValue (.record entries)] = entries.firstMissing? := by
  have preorder : preorder [.ofValue (.record entries)] =
      .ofValue (.record entries) :: entries.preorder := List.append_nil _
  have valued : (Entry.ofValue (.record entries)).HasValue := ⟨_, rfl⟩
  rw [firstMissing?, preorder, List.find?_cons_of_neg (by simp [valued]), firstMissing?]

theorem firstMissing?_append_cons {before : Record} (complete : before.Complete) {entry missing : Entry}
    (first : firstMissing? [entry] = some missing) (after : Record) :
    firstMissing? (before ++ entry :: after) = some missing := by
  have preorder : (before ++ entry :: after : Record).preorder =
      before.preorder ++ (preorder [entry] ++ after.preorder) := by
    simp [preorder_eq_flatMap]
  have nothing := before.firstMissing?_eq_none_iff.mpr complete
  rw [firstMissing?] at first nothing ⊢
  rw [preorder, List.find?_append, List.find?_append, nothing, first]
  rfl

end Record

/-! ## Writing up to that entry -/

/-- Writing the entry fails, whatever was written before. -/
def Entry.Fails (entry : Entry) (cause : RecordError) : Prop :=
  forall writer : Writer, (entry.writeTo writer).1 = .error cause

/-- Entries that are written in front of one that fails do not matter. -/
theorem Entry.writeAllTo_of_fails {before : List Entry} {entry : Entry} {cause : RecordError}
    (written : ∀ other ∈ before, other.WritesForm) (fails : entry.Fails cause)
    (after : List Entry) (writer : Writer) :
    (Entry.writeAllTo (before ++ entry :: after) writer).1 = .error cause := by
  induction before generalizing writer with
  | nil =>
      rw [List.nil_append, writeAllTo]
      have outcome := fails writer
      rcases step : entry.writeTo writer with ⟨result, rest⟩
      rw [step] at outcome
      subst outcome
      rfl
  | cons other before ih =>
      rw [List.cons_append, writeAllTo, written other List.mem_cons_self writer]
      apply ih
      exact fun next member => written next (List.mem_cons_of_mem other member)

/-- An entry with a value fails as its value does. -/
theorem Entry.fails_of_value {value : Value} {cause : RecordError}
    (fails : forall writer : Writer, (value.writeTo writer).1 = .error cause) :
    (Entry.ofValue value).Fails cause := by
  intro writer
  have code : (Field.octet value.kind.code).encode = .ok [value.kind.code] := rfl
  rw [writeTo, Writer.put_of_encode code]
  exact fails _

namespace Record

theorem Sized.front {before after : Record} (sized : Sized (before ++ after)) : before.Sized := by
  constructor
  · refine Nat.le_trans ?_ sized.count
    rw [List.length_append]
    exact Nat.le_add_right _ _
  · exact sized.inside.of_subset (List.subset_append_left before after)

/-- Writing a record that is not complete fails for its first entry without a
value. -/
theorem writeTo_of_incomplete (record : Record) (incomplete : ¬ record.Complete)
    (sized : record.Sized) :
    Exists fun missing => Exists fun cause =>
      record.firstMissing? = some missing ∧ missing.value = .error cause ∧
        forall writer : Writer, ((Value.record record).writeTo writer).1 = .error cause := by
  induction record using Record.nestedInduction with
  | step record nested =>
      rcases exists_first_incomplete incomplete with ⟨before, entry, after, rfl, complete, lacking⟩
      have member : entry ∈ before ++ entry :: after := List.mem_append_right before List.mem_cons_self
      have failing : Exists fun missing => Exists fun cause =>
          firstMissing? [entry] = some missing ∧ missing.value = .error cause ∧
            entry.Fails cause := by
        cases entry with
        | undecodable kind data cause => exact ⟨_, cause, rfl, rfl, fun _ => rfl⟩
        | ofValue value =>
            rcases exists_nested_incomplete lacking with ⟨entries, rfl, inside⟩
            rcases nested entries member inside (sized.nested member) with
              ⟨missing, cause, first, noValue, fails⟩
            rw [firstMissing?_nested]
            exact ⟨missing, cause, first, noValue, Entry.fails_of_value fails⟩
      rcases failing with ⟨missing, cause, first, noValue, fails⟩
      refine ⟨missing, cause, firstMissing?_append_cons complete first after, noValue, ?_⟩
      intro writer
      have frontSized : Record.Sized before := sized.front
      have written : ∀ other ∈ before, other.WritesForm :=
        writesForm_of_nested complete frontSized fun entries inside =>
          writeTo_of_complete entries (complete.nested inside) (frontSized.nested inside)
      rw [Value.writeTo, Writer.putCount_of_le sized.count]
      exact Entry.writeAllTo_of_fails written fails after _

/-! ## All or nothing -/

theorem result_writeTo (record : Record) (writer : Writer) :
    (record.writeTo writer).1 = ((Value.record record).writeTo writer).1 := by
  rw [writeTo]
  rcases (Value.record record).writeTo writer with ⟨_ | _, _⟩ <;> rfl

theorem stream_eq_of_error {record : Record} {cause : RecordError}
    (failed : ((Value.record record).writeTo Writer.empty).1 = .error cause) :
    record.stream = .error cause := by
  rw [stream]
  rcases step : (Value.record record).writeTo Writer.empty with ⟨result, written⟩
  rw [step] at failed
  subst failed
  rfl

/-- A failure takes back what was written. -/
theorem writeTo_eq_of_error {record : Record} {writer : Writer} {cause : RecordError}
    (failed : ((Value.record record).writeTo writer).1 = .error cause) :
    record.writeTo writer = (.error cause, writer) := by
  have added := (Value.record record).bytes_prefix_writeTo writer
  rw [writeTo]
  rcases step : (Value.record record).writeTo writer with ⟨result, written⟩
  rw [step] at failed added
  subst failed
  exact congrArg _ (Writer.truncate_of_prefix added)

/-- A record that cannot be written leaves the writer as it was.  Where counts and
lengths fit their fields, a complete record is written behind what the writer
holds, in its present form, and any other fails, with the cause of its first entry
without a value. -/
theorem writeTo_all_or_nothing (record : Record) (writer : Writer) :
    (forall cause, (record.writeTo writer).1 = .error cause ->
      (record.writeTo writer).2 = writer) ∧
    (record.Sized ->
      (record.Complete -> record.stream = .ok (record.streamForm .present) ∧
        record.writeTo writer = (.ok (), ⟨writer.bytes ++ record.streamForm .present⟩)) ∧
      (¬ record.Complete -> Exists fun missing => Exists fun cause =>
        record.firstMissing? = some missing ∧ missing.value = .error cause ∧
        record.stream = .error cause ∧ record.writeTo writer = (.error cause, writer))) := by
  constructor
  · intro cause failed
    rw [result_writeTo] at failed
    exact congrArg Prod.snd (writeTo_eq_of_error failed)
  · intro sized
    constructor
    · intro complete
      refine ⟨record.stream_of_complete complete sized, ?_⟩
      rw [writeTo, record.writeTo_of_complete complete sized]
      rfl
    · intro incomplete
      rcases record.writeTo_of_incomplete incomplete sized with
        ⟨missing, cause, first, noValue, fails⟩
      exact ⟨missing, cause, first, noValue, stream_eq_of_error (fails Writer.empty),
        writeTo_eq_of_error (fails writer)⟩

/-- Text and a number are written before the entry that fails, which stands in a
nested record; the one behind that record does not get its turn. -/
theorem writeTo_all_or_nothing_nested_failure :
    let complete : Record := [.ofValue (.text "ok"), .ofValue (.record [.ofValue (.byte 7)])]
    let failing : Record := [.ofValue (.text "ok"),
      .ofValue (.record [.ofValue (.integer 1),
        .undecodable .integer [1] (.invalidLength .integer 4 1)]),
      .undecodable .record [9] (.invalidCode 9)]
    let octets : Bytes := [0, 0, 0, 2, 5, 2, 0x6F, 0x6B, 6, 0, 0, 0, 1, 0, 7]
    complete.Sized ∧ complete.Complete ∧
      complete.stream = .ok octets ∧ complete.writeTo ⟨[0x42]⟩ = (.ok (), ⟨0x42 :: octets⟩) ∧
      failing.Sized ∧ ¬ failing.Complete ∧
      failing.stream = .error (.invalidLength .integer 4 1) ∧
      failing.writeTo ⟨[0x42]⟩ = (.error (.invalidLength .integer 4 1), ⟨[0x42]⟩) := by
  intro complete failing octets
  have form : complete.streamForm .present = octets := by decide
  have sized : complete.Sized := ⟨by decide, by decide⟩
  have whole : complete.Complete := by decide
  have failingSized : failing.Sized := ⟨by decide, by decide⟩
  have lacking : ¬ failing.Complete := by decide
  rcases ((writeTo_all_or_nothing complete ⟨[0x42]⟩).2 sized).1 whole with ⟨stream, written⟩
  rw [form] at stream written
  rcases ((writeTo_all_or_nothing failing ⟨[0x42]⟩).2 failingSized).2 lacking with
    ⟨missing, cause, first, noValue, refused, unchanged⟩
  cases first
  cases noValue
  exact ⟨sized, whole, stream, written, failingSized, lacking, refused, unchanged⟩

end Record

end SortKey
