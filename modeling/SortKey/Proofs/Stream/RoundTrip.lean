import SortKey.Proofs.Stream.Form
import SortKey.Proofs.Stream.Steps

namespace SortKey
namespace Stream

/-!
# Streams are read back up to the limit of nesting

A complete record is read from its form, with anything behind it, and what is
behind it is left.  Reading asks for nothing but codes that mean the kinds that
they were written for.  The one thing that can go wrong is the depth: a record
nested more deeply than the reader has levels is refused, and then no entry in
front of it is, because all of these are read as they were written.
-/

/-! ## Codings and dialects -/

/-- An entry written in the coding has a code that the dialect understands, and
its text is read as it was written. -/
def Coding.Suits (coding : Coding) (dialect : Option Dialect) : Entry -> Prop
  | .ofValue (.text content) => Exists fun wire =>
      Wire.ofCode dialect (coding.code .text) = .ok wire ∧ forall nested rest,
        (readValue nested (coding.code .text) wire (coding.text content ++ rest)).Yields
          (.text content) rest
  | .ofValue value => Wire.ofCode dialect (coding.code value.kind) = .ok (.kind value.kind)
  | .undecodable _ _ _ => False

/-- The present coding is read without a dialect. -/
theorem present_suits (value : Value) (sized : (Entry.ofValue value).Sized) :
    Coding.present.Suits none (.ofValue value) := by
  cases value with
  | text content =>
      exact ⟨.kind .text, rfl, fun nested rest =>
        fieldStep_of_read (Reading.text_append sized rest)⟩
  | _ => rfl

section Reading

variable {coding : Coding} {dialect : Option Dialect} {nested : Bytes -> Step Record}

/-- A value that is no record is read from its form. -/
private theorem readEntry_of_ne_record {value : Value} (plain : value.kind ≠ .record)
    (suits : coding.Suits dialect (.ofValue value)) (sized : (Entry.ofValue value).Sized)
    (rest : Bytes) :
    (readEntry nested dialect ((Entry.ofValue value).streamForm coding ++ rest)).Yields
      (.ofValue value) rest := by
  cases value with
  | byte b => exact readEntry_of_yields suits (fieldStep_of_read rfl)
  | bytes content =>
      exact readEntry_of_yields suits (fieldStep_of_read (Reading.buffer_append sized rest))
  | double bits =>
      exact readEntry_of_yields suits (fieldStep_of_read (Reading.double_append bits rest))
  | integer n => exact readEntry_of_yields suits (fieldStep_of_read (Reading.int32_append n rest))
  | long n => exact readEntry_of_yields suits (fieldStep_of_read (Reading.int64_append n rest))
  | text content =>
      rcases suits with ⟨wire, meaning, found⟩
      exact readEntry_of_yields meaning (found nested rest)
  | record entries => exact absurd rfl plain

private theorem readEntry_record_yields {entries : Record} {rest : Bytes}
    (suits : coding.Suits dialect (.ofValue (.record entries)))
    (found : (nested (entries.streamForm coding ++ rest)).Yields entries rest) :
    (readEntry nested dialect ((Entry.ofValue (.record entries)).streamForm coding ++ rest)).Yields
      (.ofValue (.record entries)) rest := by
  refine readEntry_of_yields suits ⟨?_, found.rest⟩
  exact congrArg (Except.map Value.record) found.result

private theorem readEntry_record_refused {entries : Record} {rest : Bytes} {cause : RecordError}
    (suits : coding.Suits dialect (.ofValue (.record entries)))
    (refused : (nested (entries.streamForm coding ++ rest)).result = .error cause) :
    (readEntry nested dialect
      ((Entry.ofValue (.record entries)).streamForm coding ++ rest)).result = .error cause := by
  apply readEntry_of_refused suits
  exact congrArg (Except.map Value.record) refused

/-! ## Entries in a row -/

/-- The entry is read from its form, with anything behind it. -/
def ReadsForm (coding : Coding) (dialect : Option Dialect) (nested : Bytes -> Step Record)
    (entry : Entry) : Prop :=
  forall rest, (readEntry nested dialect (entry.streamForm coding ++ rest)).Yields entry rest

theorem accepted_streamForms {entries : List Entry}
    (each : ∀ entry ∈ entries, ReadsForm coding dialect nested entry) (rest : Bytes) :
    Accepted nested dialect entries (Entry.streamForms coding entries ++ rest) rest := by
  induction entries with
  | nil => exact Accepted.none rest
  | cons entry entries ih =>
      rw [Entry.streamForms, List.append_assoc]
      exact Accepted.next (each entry List.mem_cons_self _)
        (ih fun other member => each other (List.mem_cons_of_mem entry member))

/-- Among entries that are read or refused, one that is refused is reached. -/
theorem readEntriesOnto_streamForms_refused {entries : List Entry} {cause : RecordError}
    (each : ∀ entry ∈ entries, ReadsForm coding dialect nested entry ∨ forall rest,
      (readEntry nested dialect (entry.streamForm coding ++ rest)).result = .error cause)
    (some : Exists fun entry => entry ∈ entries ∧ forall rest,
      (readEntry nested dialect (entry.streamForm coding ++ rest)).result = .error cause)
    (read : List Entry) (reported : List Event) (rest : Bytes) :
    (readEntriesOnto nested dialect entries.length read reported
      (Entry.streamForms coding entries ++ rest)).result = .error cause := by
  induction entries generalizing read reported with
  | nil =>
      rcases some with ⟨entry, member, _⟩
      cases member
  | cons entry entries ih =>
      rw [Entry.streamForms, List.append_assoc, List.length_cons]
      rcases each entry List.mem_cons_self with reads | refused
      · rw [readEntriesOnto_succ_of_yields (reads _)]
        apply ih fun other member => each other (List.mem_cons_of_mem entry member)
        rcases some with ⟨other, member, refused⟩
        rcases List.mem_cons.mp member with rfl | member
        · have impossible := refused (Entry.streamForms coding entries ++ rest)
          rw [(reads _).result] at impossible
          cases impossible
        · exact ⟨other, member, refused⟩
      · exact readEntriesOnto_succ_of_refused (refused _) _ read reported

end Reading

/-! ## Records -/

section Records

variable {coding : Coding} {dialect : Option Dialect}

/-- The count of a form is read as it was written. -/
private theorem readRecord_succ_of_form {count : Nat} (few : count ≤ mostEntries) (levels : Nat)
    (behind : Bytes) :
    readRecord dialect (levels + 1) (Bytes.ofNat 4 count ++ behind) =
      readEntriesOnto (readRecord dialect levels) dialect count []
        [.decodingStream (UInt32.ofNat count).toInt32 dialect] behind := by
  have fits : count < 2 ^ 31 := Nat.lt_of_le_of_lt few (by decide)
  have octets : Bytes.ofNat 4 count =
      Bytes.ofNat 4 (UInt32.ofNat count).toInt32.toUInt32.toNat := by
    rw [toNat_count few]
  have number : (UInt32.ofNat count).toInt32.toInt = count := by
    rw [UInt32.toInt32_ofNat']
    exact Int32.toInt_ofNat_of_lt fits
  have positive : ¬ (UInt32.ofNat count).toInt32 < 0 := by
    rw [Int32.lt_iff_toInt_lt, number]
    exact Int.not_lt.mpr (Int.natCast_nonneg count)
  rw [octets, readRecord_succ_of_count (Reading.int32_append _ behind) positive, number,
    Int.toNat_natCast]

/-- What is read of a record in front of other octets is decided by its depth:
the record, or the refusal of its depth. -/
def ReadsToDepth (coding : Coding) (dialect : Option Dialect) (levels : Nat) (record : Record) :
    Prop :=
  forall rest,
    (record.depth < levels ->
      (readRecord dialect levels (record.streamForm coding ++ rest)).Yields record rest) ∧
    (levels ≤ record.depth ->
      (readRecord dialect levels (record.streamForm coding ++ rest)).result =
        .error (.tooDeep maxDepth))

/-- An entry is read, or refused for its depth, as its record is. -/
private theorem readEntry_streamForm {entry : Entry} {levels : Nat}
    (suits : coding.Suits dialect entry) (sized : entry.Sized)
    (inside : forall entries, entry = .ofValue (.record entries) ->
      ReadsToDepth coding dialect levels entries) :
    (entry.depth ≤ levels -> ReadsForm coding dialect (readRecord dialect levels) entry) ∧
    (levels < entry.depth -> forall rest,
      (readEntry (readRecord dialect levels) dialect (entry.streamForm coding ++ rest)).result =
        .error (.tooDeep maxDepth)) := by
  cases entry with
  | undecodable kind data cause => exact suits.elim
  | ofValue value =>
      cases value with
      | record entries =>
          have read := inside entries rfl
          rw [Entry.depth_record]
          exact ⟨fun shallow rest => readEntry_record_yields suits ((read rest).1 shallow),
            fun deep rest =>
              readEntry_record_refused suits ((read rest).2 (Nat.le_of_lt_succ deep))⟩
      | _ =>
          exact ⟨fun _ => readEntry_of_ne_record (by rintro ⟨⟩) suits sized,
            fun deep => absurd deep (Nat.not_lt_zero levels)⟩

/-- A record is read back where its depth is within the levels, and refused as
too deep otherwise. -/
theorem readRecord_streamForm (record : Record) (suits : record.Everywhere (coding.Suits dialect))
    (sized : record.Sized) (levels : Nat) : ReadsToDepth coding dialect levels record := by
  induction record using Record.nestedInduction generalizing levels with
  | step record nested =>
      cases levels with
      | zero =>
          exact fun rest => ⟨fun impossible => absurd impossible (Nat.not_lt_zero _),
            fun _ => readRecord_zero dialect _⟩
      | succ levels =>
          have each : ∀ entry ∈ record, _ := fun entry member =>
            readEntry_streamForm (suits.of_mem member) (sized.inside.of_mem member)
              fun entries same => nested entries (same ▸ member) (suits.nested (same ▸ member))
                (sized.nested (same ▸ member)) levels
          intro rest
          rw [Record.streamForm, List.append_assoc, readRecord_succ_of_form sized.count]
          constructor
          · intro shallow
            have shallowEntries := (record.depth_le_iff levels).mp (Nat.le_of_lt_succ shallow)
            apply Accepted.yields
            apply accepted_streamForms
            exact fun entry member => (each entry member).1 (shallowEntries entry member)
          · intro deep
            have tooDeep : ¬ record.depth ≤ levels := Nat.not_le.mpr deep
            simp only [record.depth_le_iff, not_forall, Nat.not_le] at tooDeep
            rcases tooDeep with ⟨deepest, member, deepEntry⟩
            apply readEntriesOnto_streamForms_refused
            · intro entry member
              rcases Nat.lt_or_ge levels entry.depth with deep | shallow
              · exact Or.inr ((each entry member).2 deep)
              · exact Or.inl ((each entry member).1 shallow)
            · exact ⟨deepest, member, (each deepest member).2 deepEntry⟩

end Records

/-- A complete record with counts and lengths that fit is written.  Where its
records are nested at most 512 deep, it is read from what was written and all
that stands behind is left; otherwise reading fails for the depth. -/
theorem read_stream (record : Record) (complete : record.Complete) (sized : record.Sized) :
    Exists fun bytes => record.stream = .ok bytes ∧
      (record.depth ≤ 512 -> forall rest,
        (read none (bytes ++ rest)).result = .ok record ∧ (read none (bytes ++ rest)).rest = rest) ∧
      (512 < record.depth -> forall rest,
        (read none (bytes ++ rest)).result = .error (.tooDeep 512)) := by
  have suits : record.Everywhere (Coding.present.Suits none) := by
    refine Record.Everywhere.mono ?_ (complete.and sized.inside)
    rintro entry ⟨⟨value, rfl⟩, sized⟩
    exact present_suits value sized
  have reads := readRecord_streamForm record suits sized (maxDepth + 1)
  refine ⟨_, record.stream_of_complete complete sized, ?_, ?_⟩
  · intro shallow rest
    have found := (reads rest).1 (Nat.lt_succ_of_le shallow)
    exact ⟨found.result, found.rest⟩
  · intro deep rest
    exact (reads rest).2 deep

/-- A NaN with a payload, the text of the character zero and empty octets, with
512 records around them, and with one more. -/
theorem read_stream_at_the_limit :
    let inner : Record := [.ofValue (.double 0x7FF0000000000001), .ofValue (.text "\x00"),
      .ofValue (.bytes [])]
    (Exists fun bytes => (inner.wrapped 512).stream = .ok bytes ∧ forall rest,
      (read none (bytes ++ rest)).result = .ok (inner.wrapped 512) ∧
        (read none (bytes ++ rest)).rest = rest) ∧
    (Exists fun bytes => (inner.wrapped 513).stream = .ok bytes ∧ forall rest,
      (read none (bytes ++ rest)).result = .error (.tooDeep 512)) := by
  intro inner
  have complete : inner.Complete := by decide
  have sized : inner.Sized := ⟨by decide, by decide⟩
  have flat : inner.depth = 0 := rfl
  have deep : forall times, (inner.wrapped times).depth = times := by
    intro times
    rw [inner.depth_wrapped, flat, Nat.zero_add]
  rcases read_stream _ (complete.wrapped 512) (sized.wrapped 512) with ⟨form, written, found, _⟩
  rcases read_stream _ (complete.wrapped 513) (sized.wrapped 513) with
    ⟨longForm, longWritten, _, refused⟩
  exact ⟨⟨form, written, found (Nat.le_of_eq (deep 512))⟩,
    ⟨longForm, longWritten, refused (by rw [deep 513]; decide)⟩⟩

end Stream
end SortKey
