import SortKey.Proofs.Equality
import SortKey.Proofs.Key.Reading
import SortKey.Proofs.Key.Reread

namespace SortKey

/-!
# Records that leave a dialect

A record that was read in a dialect is written with the present codes, so that
it can be read without the dialect from then on.  One thing stands in the way.
Data of a nested record that the dialect could not read is written as it
stood, in the codes of the dialect, and without the dialect a record may be
found in it.  Then the entry has become another one, and so may its key.

That is the only obstacle, and its exact extent is stated here.  It never
arises for `legacyStrings`, which reads the same keys as no dialect does.
-/

/-! ## Entries that were kept as they stood -/

namespace Entry

/-- The property holds of the data of a nested record that was kept because no
record could be read in it. -/
def Kept (P : Bytes -> Prop) : Entry -> Prop
  | undecodable .record data _ => P data
  | _ => True

theorem kept_of_other {P : Bytes -> Prop} {entry : Entry}
    (other : forall data cause, entry ≠ undecodable .record data cause) : entry.Kept P := by
  unfold Kept
  split
  · exact absurd rfl (other _ _)
  · trivial

theorem Kept.mono {P Q : Bytes -> Prop} (weaker : forall data, P data -> Q data) {entry : Entry}
    (holds : entry.Kept P) : entry.Kept Q := by
  unfold Kept
  split
  · exact weaker _ holds
  · trivial

/-- Data of a nested record that was kept is no record without a dialect
either. -/
def Settled : Entry -> Prop :=
  Kept fun data => Exists fun cause => Key.decode none data = .error cause

/-- Data of a nested record that was kept is the key of the record that is
found in it without a dialect, if one is. -/
def SelfKeyed : Entry -> Prop :=
  Kept fun data => forall found, Key.decode none data = .ok found -> Record.key found = data

theorem Settled.selfKeyed {entry : Entry} (settled : entry.Settled) : entry.SelfKeyed := by
  refine settled.mono ?_
  rintro data ⟨cause, refused⟩ found read
  rw [refused] at read
  cases read

end Entry

/-! ## Reading entries again -/

namespace Entry

theorem kind_reread (entry : Entry) : entry.reread.kind = entry.kind :=
  Key.kind_entryOfData entry.kind entry.data _

/-- Entries of other kinds are read back as they are. -/
theorem AsRead.reread_of_kind_ne_record {dialect : Option Dialect} {entry : Entry}
    (asRead : entry.AsRead dialect) (plain : entry.kind ≠ .record) : entry.reread = entry := by
  cases entry with
  | undecodable kind data cause =>
      have refused : Key.Frame.value none (undecodable kind data cause).frame = .error cause :=
        (Key.valueOfData_of_ne_record plain data _ _).trans asRead.2
      exact congrArg (Key.entryOfData kind data) refused
  | ofValue value =>
      rw [reread_of_value_ne_record value plain]
      cases value with
      | text content =>
          have other : content ≠ "\x00" := by
            intro same
            exact asRead.2 (by rw [same])
          rw [Value.withoutNul, if_neg other]
      | record entries => exact absurd rfl plain
      | _ => rfl

theorem reread_kept_of_ok {data : Bytes} {found : Record} (read : Key.decode none data = .ok found)
    (cause : RecordError) : (undecodable .record data cause).reread = ofValue (.record found) :=
  Key.Frame.entry_of_ok rfl read

theorem reread_kept_of_error {data : Bytes} {refusal : RecordError}
    (refused : Key.decode none data = .error refusal) (cause : RecordError) :
    (undecodable .record data cause).reread = undecodable .record data refusal :=
  Key.Frame.entry_of_error rfl refused

end Entry

namespace Record

variable {dialect : Option Dialect}

/-- What reading again does to the entries of a record is decided by the data
that was kept for nested records, when it is decided inside a nested record by
the entries of that record. -/
private theorem forall_reread_iff_everywhere (Related : Entry -> Entry -> Prop)
    {P : Bytes -> Prop} (own : forall entry, Related entry entry)
    (nested : forall entries : Record, entries.any (·.data.isEmpty) = false ->
      (Related (.ofValue (.record (entries.map Entry.reread))) (.ofValue (.record entries)) <->
        ∀ entry ∈ entries, Related entry.reread entry))
    (kept : forall data cause, Related (Entry.undecodable .record data cause).reread
        (.undecodable .record data cause) <-> P data)
    (record : Record) (asRead : record.Everywhere (Entry.AsRead dialect)) :
    (∀ entry ∈ record, Related entry.reread entry) <-> record.Everywhere (Entry.Kept P) := by
  induction record using Record.nestedInduction with
  | step record ih =>
      rw [everywhere_iff_forall_mem]
      refine forall₂_congr fun entry member => ?_
      rw [Entry.everywhere_iff]
      by_cases isRecord : entry.kind = .record
      · cases entry with
        | undecodable kind data cause =>
            cases isRecord
            rw [kept]
            simp [Entry.Kept]
        | ofValue value =>
            cases value with
            | record entries =>
                have filled := any_isEmpty_of_asRead (asRead.nested member)
                have inside := ih entries member (asRead.nested member)
                rw [Entry.reread_record, if_neg (Bool.eq_false_iff.mp filled),
                  nested entries filled, inside]
                simp [Entry.Kept]
            | _ => cases isRecord
      · have unchanged := (asRead.of_mem member).reread_of_kind_ne_record isRecord
        have isOther : entry.Kept P := by
          apply Entry.kept_of_other
          rintro data cause rfl
          exact isRecord rfl
        rw [unchanged]
        refine iff_of_true (own entry) ⟨isOther, ?_⟩
        rintro entries rfl
        exact absurd rfl isRecord

/-- A record is found again exactly when all of it is settled. -/
theorem same_map_reread_iff (record : Record)
    (asRead : record.Everywhere (Entry.AsRead dialect)) :
    Record.same (record.map Entry.reread) record = true <-> record.Everywhere Entry.Settled := by
  have byEntries : forall entries : Record,
      Record.same (entries.map Entry.reread) entries = true <->
        ∀ entry ∈ entries, entry.reread.same entry = true := by
    intro entries
    rw [same_iff_forall₂, List.forall₂_map_left_iff, List.forall₂_same]
  rw [byEntries]
  apply forall_reread_iff_everywhere (fun again entry => again.same entry = true)
    Entry.same_self (fun entries _ => byEntries entries) _ record asRead
  intro data cause
  cases read : Key.decode none data with
  | ok found =>
      rw [Entry.reread_kept_of_ok read]
      simp [Entry.same]
  | error refusal =>
      rw [Entry.reread_kept_of_error read]
      simp [Entry.same]

theorem key_map_reread_eq_iff (record : Record) :
    Record.key (record.map Entry.reread) = record.key <->
      ∀ entry ∈ record, entry.reread.data = entry.data := by
  rw [key_eq_key_iff, List.map_map, List.map_inj_left]
  refine forall₂_congr fun entry _ => ?_
  simp only [Function.comp_apply, Entry.frame, Key.Frame.mk.injEq, entry.kind_reread, true_and]

/-- A key is written again exactly when all kept data of nested records is the
key of what is found in it. -/
theorem key_map_reread_iff (record : Record)
    (asRead : record.Everywhere (Entry.AsRead dialect)) :
    Record.key (record.map Entry.reread) = record.key <-> record.Everywhere Entry.SelfKeyed := by
  rw [key_map_reread_eq_iff]
  apply forall_reread_iff_everywhere (fun again entry => again.data = entry.data)
    (fun _ => rfl) (fun entries _ => key_map_reread_eq_iff entries) _ record asRead
  intro data cause
  cases read : Key.decode none data with
  | ok found =>
      rw [Entry.reread_kept_of_ok read]
      simp only [Except.ok.injEq, forall_eq']
      exact Iff.rfl
  | error refusal =>
      rw [Entry.reread_kept_of_error read]
      simp [Entry.data]

end Record

/-! ## Codes that are written -/

namespace Key

/-- Only codes that are written today are found in the octets, at every depth
to which a reader without a dialect gets. -/
inductive PresentCodes : Bytes -> Prop
  | intro {bytes : Bytes} (unmarked : bytes.head? ≠ some emptyMarker)
      (codes : forall found, frames none bytes = .ok found ->
        ∀ frame ∈ found, frame.code = frame.kind.code)
      (inside : forall found, frames none bytes = .ok found ->
        ∀ frame ∈ found, frame.kind = .record -> PresentCodes frame.data) :
      PresentCodes bytes

theorem presentCodes_iff {bytes : Bytes} (unmarked : bytes.head? ≠ some emptyMarker)
    {found : List Frame} (accepted : frames none bytes = .ok found) :
    PresentCodes bytes <->
      ∀ frame ∈ found, frame.code = frame.kind.code ∧
        (frame.kind = .record -> PresentCodes frame.data) := by
  constructor
  · rintro ⟨_, codes, inside⟩ frame member
    exact ⟨codes found accepted frame member, inside found accepted frame member⟩
  · intro each
    refine PresentCodes.intro unmarked ?_ ?_
    · intro other again frame member
      rw [accepted] at again
      cases again
      exact (each frame member).1
    · intro other again frame member
      rw [accepted] at again
      cases again
      exact (each frame member).2

theorem presentCodes_of_refused {bytes : Bytes} {cause : RecordError}
    (refused : decode none bytes = .error cause) : PresentCodes bytes := by
  have nothing : forall found, frames none bytes ≠ .ok found := by
    intro found accepted
    have read := decode_eq_ok_iff.mpr ⟨found, accepted, rfl⟩
    rw [refused] at read
    cases read
  refine PresentCodes.intro ?_ ?_ ?_
  · intro marked
    rcases bytes with _ | ⟨code, rest⟩
    · cases marked
    · cases marked
      exact nothing [] rfl
  · intro found accepted
    exact absurd accepted (nothing found)
  · intro found accepted
    exact absurd accepted (nothing found)

end Key

/-- Data that was kept for a nested record holds no codes that are not written
today. -/
def Entry.PresentlyCoded : Entry -> Prop :=
  Kept Key.PresentCodes

theorem Entry.Settled.presentlyCoded {entry : Entry} (settled : entry.Settled) :
    entry.PresentlyCoded := by
  refine settled.mono ?_
  rintro data ⟨cause, refused⟩
  exact Key.presentCodes_of_refused refused

namespace Record

theorem head?_key_ne_emptyMarker (record : Record) : record.key.head? ≠ some emptyMarker := by
  cases record with
  | nil => decide
  | cons entry entries =>
      have filled : entry :: entries ≠ [] := List.cons_ne_nil _ _
      rw [key_eq_closed filled, closed_cons, List.head?_cons]
      cases entry.kind <;> decide

theorem presentCodes_key_iff {dialect : Option Dialect} (record : Record)
    (asRead : record.Everywhere (Entry.AsRead dialect)) :
    Key.PresentCodes record.key <-> record.Everywhere Entry.PresentlyCoded := by
  induction record using Record.nestedInduction with
  | step record ih =>
      have accepted : Key.frames none record.key = .ok (record.map Entry.frame) := by
        rw [Key.frames_key, any_isEmpty_of_asRead asRead, if_neg Bool.false_ne_true]
      rw [Key.presentCodes_iff record.head?_key_ne_emptyMarker accepted, List.forall_mem_map,
        everywhere_iff_forall_mem]
      refine forall₂_congr fun entry member => ?_
      rw [Entry.everywhere_iff]
      cases entry with
      | undecodable kind data cause =>
          cases kind <;> simp [Entry.frame, Entry.kind, Entry.data, Entry.PresentlyCoded, Entry.Kept]
      | ofValue value =>
          cases value with
          | record entries =>
              have inside := ih entries member (asRead.nested member)
              have ownData : Entry.data (.ofValue (.record entries)) = Record.key entries := rfl
              simp [Entry.frame, Entry.kind, Value.kind, Entry.PresentlyCoded, Entry.Kept, ownData,
                inside]
          | _ => simp [Entry.frame, Entry.kind, Value.kind, Entry.PresentlyCoded, Entry.Kept]

end Record

/-! ## Out of a dialect -/

theorem Entry.AsRead.settled {entry : Entry} (asRead : entry.AsRead none) : entry.Settled := by
  unfold Settled Kept
  split
  · next data cause =>
      cases read : Key.decode none data with
      | error refusal => exact ⟨refusal, read⟩
      | ok found =>
          have refused := asRead.2
          rw [Key.valueOfData, read] at refused
          cases refused
  · trivial

namespace Key

/-- A record that was read in a dialect is read from its key without one.  It
is the same record with the same key exactly when no nested record that the
dialect could not read can be read without the dialect.  For `legacyStrings`
this is always so. -/
theorem decode_key_of_dialect (dialect : Dialect) (bytes : Bytes) (record : Record)
    (read : decode (some dialect) bytes = .ok record) :
    (Exists fun again => decode none record.key = .ok again ∧
      (again.same record = true <-> record.Everywhere Entry.Settled) ∧
      (again.key = record.key <-> record.Everywhere Entry.SelfKeyed) ∧
      (PresentCodes record.key <-> record.Everywhere Entry.PresentlyCoded) ∧
      ((again.same record = true ∧ again.key = record.key ∧
          again.stableHash = record.stableHash ∧ PresentCodes record.key) <->
        record.Everywhere Entry.Settled)) ∧
    (dialect = .legacyStrings -> record.Everywhere Entry.Settled) := by
  have asRead := asRead_of_decode read
  have sameIff := record.same_map_reread_iff asRead
  have keyIff := record.key_map_reread_iff asRead
  have codesIff := record.presentCodes_key_iff asRead
  constructor
  · refine ⟨record.map Entry.reread, ?_, sameIff, keyIff, codesIff, ?_⟩
    · rw [decode_key, Record.any_isEmpty_of_asRead asRead, if_neg Bool.false_ne_true]
    · constructor
      · rintro ⟨same, _⟩
        exact sameIff.mp same
      · intro settled
        have sameKey := keyIff.mpr (settled.mono fun _ => Entry.Settled.selfKeyed)
        have codes := codesIff.mpr (settled.mono fun _ => Entry.Settled.presentlyCoded)
        exact ⟨sameIff.mpr settled, sameKey, congrArg Xxh3.hash sameKey, codes⟩
  · rintro rfl
    rw [agree_legacyStrings.decode_eq] at read
    exact (asRead_of_decode read).mono fun _ => Entry.AsRead.settled

/-- A nested record that could be read, and data that is no record in any
dialect. -/
theorem decode_key_of_sherlock_settled :
    let record : Record :=
      [.ofValue (.record [.ofValue (.bytes [65])]), .undecodable .record [8] (.invalidCode 8)]
    decode (some .sherlock) [5, 0, 65, separator, separator, separator, 5, 8, separator] =
        .ok record ∧
      Exists fun again => decode none record.key = .ok again ∧ again.same record = true ∧
        again.key = record.key ∧ again.stableHash = record.stableHash ∧
        PresentCodes record.key := by
  intro record
  have nested : decode (some .sherlock) [0, 65, separator] = .ok [.ofValue (.bytes [65])] :=
    decode_eq_ok_iff.mpr ⟨[⟨0, .bytes, [65]⟩], by decide +kernel, rfl⟩
  have refused : decode (some .sherlock) [8] = .error (.invalidCode 8) :=
    decode_eq_error_iff.mpr (by decide +kernel)
  have refusedAgain : decode none [8] = .error (.invalidCode 8) :=
    decode_eq_error_iff.mpr (by decide +kernel)
  have read : decode (some .sherlock)
      [5, 0, 65, separator, separator, separator, 5, 8, separator] = .ok record := by
    refine decode_eq_ok_iff.mpr
      ⟨[⟨5, .record, [0, 65, separator]⟩, ⟨5, .record, [8]⟩], by decide +kernel, ?_⟩
    rw [List.map_cons, List.map_singleton, Frame.entry_of_ok rfl nested,
      Frame.entry_of_error rfl refused]
  have settled : record.Everywhere Entry.Settled := by
    simp [record, Record.Everywhere, Entry.EverywhereIn, Entry.Everywhere, Value.Everywhere,
      Entry.Settled, Entry.Kept, refusedAgain]
  rcases (decode_key_of_dialect .sherlock _ record read).1 with ⟨again, written, _, _, _, whole⟩
  exact ⟨read, again, written, whole.mpr settled⟩

/-- Octets and an empty marker in old codes look like an octet and an empty
record in present ones. -/
theorem decode_key_of_sherlock_unsettled :
    let record : Record := [.undecodable .record [0, 1, separator, 6, emptyMarker] (.invalidCode 6)]
    let again : Record := [.ofValue (.record [.ofValue (.byte 1), .ofValue (.record [])])]
    decode (some .sherlock) [5, 0, 1, separator, separator, 6, emptyMarker, separator] =
        .ok record ∧
      decode none record.key = .ok again ∧ again.same record = false ∧
      again.key ≠ record.key := by
  intro record again
  have refused : decode (some .sherlock) [0, 1, separator, 6, emptyMarker] =
      .error (.invalidCode 6) := decode_eq_error_iff.mpr (by decide +kernel)
  have read : decode (some .sherlock)
      [5, 0, 1, separator, separator, 6, emptyMarker, separator] = .ok record := by
    refine decode_eq_ok_iff.mpr
      ⟨[⟨5, .record, [0, 1, separator, 6, emptyMarker]⟩], by decide +kernel, ?_⟩
    rw [List.map_singleton, Frame.entry_of_error rfl refused]
  have marker : Frame.entry none ⟨6, .record, [emptyMarker]⟩ = .ofValue (.record []) :=
    Frame.entry_of_ok rfl (decode_eq_ok_iff.mpr ⟨[], rfl, rfl⟩)
  have found : decode none [0, 1, separator, 6, emptyMarker] =
      .ok [.ofValue (.byte 1), .ofValue (.record [])] := by
    refine decode_eq_ok_iff.mpr
      ⟨[⟨0, .byte, [1]⟩, ⟨6, .record, [emptyMarker]⟩], by decide +kernel, ?_⟩
    rw [List.map_cons, List.map_singleton, marker]
    rfl
  refine ⟨read, ?_, rfl, by decide⟩
  have filled : record.any (·.data.isEmpty) = false := rfl
  rw [decode_key, filled, if_neg Bool.false_ne_true, List.map_singleton,
    Entry.reread_kept_of_ok found]

end Key
end SortKey
