import SortKey.Proofs.Key.Agreement
import SortKey.Proofs.Key.Migration

namespace SortKey

/-!
# Writing and reading again and again

Octets that can be read need not be what is written.  Separators may be missing
at the end, an empty record may be spelled by the old marker, and both may
happen inside entries.  What is read is written in the one present form, and
from then on nothing changes: the same record is found, its key is the same
octets, and so is its stable hash.

A record built from values need not be found again, because of the text of the
character zero and of empty octets inside nested records.  Its key still is.
What is read in place of such a value has the same data.
-/

/-! ## Data that is kept -/

/-- An entry that was built from a value, or read without a dialect. -/
def Entry.WithoutDialect (entry : Entry) : Prop :=
  entry.HasValue ∨ entry.AsRead none

theorem Record.Complete.withoutDialect {record : Record} (complete : record.Complete) :
    record.Everywhere Entry.WithoutDialect :=
  Record.Everywhere.mono (fun _ => Or.inl) complete

namespace Entry

theorem data_reread_of_value_ne_record (value : Value) (plain : value.kind ≠ .record) :
    (ofValue value).reread.data = (ofValue value).data := by
  rw [reread_of_value_ne_record value plain]
  cases value with
  | text content => exact Value.data_withoutNul_text content
  | record entries => exact absurd rfl plain
  | _ => rfl

/-- A nested record keeps its data when its entries do, also when it is not
found in it. -/
theorem data_reread_record {entries : Record}
    (inside : ∀ entry ∈ entries, entry.reread.data = entry.data) :
    (ofValue (.record entries)).reread.data = (ofValue (.record entries)).data := by
  rw [reread_record]
  split
  · rfl
  · exact (Record.key_map_reread_eq_iff entries).mpr inside

/-- Without a dialect the same data is refused again. -/
theorem AsRead.data_reread_undecodable {kind : Kind} {data : Bytes} {cause : RecordError}
    (asRead : (undecodable kind data cause).AsRead none) :
    (undecodable kind data cause).reread.data = data := by
  by_cases isRecord : kind = .record
  · subst isRecord
    rcases asRead.settled with ⟨refusal, refused⟩
    rw [reread_kept_of_error refused]
    rfl
  · rw [asRead.reread_of_kind_ne_record isRecord]
    rfl

end Entry

namespace Record

/-- Reading again keeps the data of every entry. -/
theorem data_reread (record : Record) (known : record.Everywhere Entry.WithoutDialect) :
    ∀ entry ∈ record, entry.reread.data = entry.data := by
  induction record using Record.nestedInduction with
  | step record nested =>
      intro entry member
      cases entry with
      | undecodable kind data cause =>
          rcases known.of_mem member with ⟨value, impossible⟩ | asRead
          · cases impossible
          · exact asRead.data_reread_undecodable
      | ofValue value =>
          rcases value.record_or_plain with ⟨entries, rfl⟩ | plain
          · exact Entry.data_reread_record (nested entries member (known.nested member))
          · exact Entry.data_reread_of_value_ne_record value plain

theorem any_isEmpty_of_withoutDialect {record : Record}
    (known : record.Everywhere Entry.WithoutDialect)
    (filled : Entry.ofValue (.bytes []) ∉ record) : record.any (·.data.isEmpty) = false := by
  rw [List.any_eq_false]
  intro entry member empty
  have nothing : entry.data = [] := List.isEmpty_iff.mp empty
  rcases known.of_mem member with ⟨value, rfl⟩ | asRead
  · exact filled ((value.data_eq_nil_iff.mp nothing) ▸ member)
  · exact asRead.data_ne_nil nothing

end Record

/-! ## Rounds -/

namespace Key

/-- Write a record and read it without a dialect, several times. -/
def recode : (rounds : Nat) -> Record -> Except RecordError Record
  | 0, record => .ok record
  | rounds + 1, record =>
      match recode rounds record with
      | .ok again => decode none again.key
      | .error cause => .error cause

/-- A round that keeps the key is the last one that changes anything. -/
theorem recode_succ_of_key_eq {record again : Record} (read : decode none record.key = .ok again)
    (keys : again.key = record.key) (rounds : Nat) : recode (rounds + 1) record = .ok again := by
  induction rounds with
  | zero => exact read
  | succ rounds ih =>
      rw [recode, ih]
      exact (congrArg (decode none) keys).trans read

/-- What is read without a dialect is found again under the same key, after any
number of rounds.  A record that was built from values, or from what was read
without a dialect, keeps its key in the same way when no empty octets stand on
its outermost level. -/
theorem recode_settles :
    (forall (bytes : Bytes) (record : Record), decode none bytes = .ok record ->
      Exists fun again => (forall rounds, recode (rounds + 1) record = .ok again) ∧
        again.same record = true ∧ again.key = record.key ∧
        again.stableHash = record.stableHash) ∧
    (forall record : Record, record.Everywhere Entry.WithoutDialect ->
      Entry.ofValue (.bytes []) ∉ record ->
      Exists fun again => (forall rounds, recode (rounds + 1) record = .ok again) ∧
        again.key = record.key ∧ again.stableHash = record.stableHash) := by
  have settles : forall record : Record, record.any (·.data.isEmpty) = false ->
      Record.key (record.map Entry.reread) = record.key -> forall rounds,
        recode (rounds + 1) record = .ok (record.map Entry.reread) := by
    intro record filled keys
    have read : decode none record.key = .ok (record.map Entry.reread) := by
      rw [decode_key, filled, if_neg Bool.false_ne_true]
    exact recode_succ_of_key_eq read keys
  constructor
  · intro bytes record read
    have asRead := asRead_of_decode read
    have settled : record.Everywhere Entry.Settled := asRead.mono fun _ => Entry.AsRead.settled
    have keys := (record.key_map_reread_iff asRead).mpr
      (settled.mono fun _ => Entry.Settled.selfKeyed)
    refine ⟨record.map Entry.reread, ?_, (record.same_map_reread_iff asRead).mpr settled, keys,
      congrArg Xxh3.hash keys⟩
    exact settles record (Record.any_isEmpty_of_asRead asRead) keys
  · intro record known filled
    have keys := (Record.key_map_reread_eq_iff record).mpr (record.data_reread known)
    refine ⟨record.map Entry.reread, ?_, keys, congrArg Xxh3.hash keys⟩
    exact settles record (Record.any_isEmpty_of_withoutDialect known filled) keys

/-- A nested record without its last separator and an integer of one octet, as
read; and empty octets inside a record beside the text of the character zero,
as built. -/
theorem recode_settles_unusual :
    let read : Record := [.ofValue (.record [.ofValue (.bytes [65])]),
      .undecodable .integer [1] (.invalidLength .integer 4 1)]
    let built : Record := [.ofValue (.record [.ofValue (.bytes [])]), .ofValue (.text "\x00")]
    decode none [6, 1, 65, separator, 3, 1] = .ok read ∧
      (Exists fun again => recode 2 read = .ok again ∧ again.same read = true ∧
        again.key = read.key) ∧
      built.Everywhere Entry.WithoutDialect ∧ Entry.ofValue (.bytes []) ∉ built ∧
      (Exists fun again => recode 2 built = .ok again ∧ again.key = built.key) := by
  intro read built
  have nested : decode none [1, 65] = .ok [.ofValue (.bytes [65])] :=
    decode_eq_ok_iff.mpr ⟨[⟨1, .bytes, [65]⟩], by decide +kernel, rfl⟩
  have accepted : decode none [6, 1, 65, separator, 3, 1] = .ok read := by
    refine decode_eq_ok_iff.mpr
      ⟨[⟨6, .record, [1, 65]⟩, ⟨3, .integer, [1]⟩], by decide +kernel, ?_⟩
    rw [List.map_cons, List.map_singleton, Frame.entry_of_ok rfl nested]
    rfl
  have known : built.Everywhere Entry.WithoutDialect :=
    Record.Complete.withoutDialect (by decide)
  have filled : Entry.ofValue (.bytes []) ∉ built := by simp [built]
  rcases recode_settles.1 _ read accepted with ⟨again, rounds, same, keys, _⟩
  rcases recode_settles.2 built known filled with ⟨kept, keptRounds, keptKeys, _⟩
  exact ⟨accepted, ⟨again, rounds 1, same, keys⟩, known, filled, kept, keptRounds 1, keptKeys⟩

end Key
end SortKey
