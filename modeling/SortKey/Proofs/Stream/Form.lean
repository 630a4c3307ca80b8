import SortKey.Proofs.Cursor
import SortKey.Proofs.Nesting
import SortKey.Stream.Write

namespace SortKey

/-!
# The octets of the stream form

The stream form of a record is its count and then, for each entry, a code and
the octets of the value.  `streamForm` gives these octets for a complete record.
Writers of different times have chosen different codes, and different lengths in
front of texts; a `Coding` is such a choice, and everything else is common to
them.

Writing adds the form in the present coding to what the writer holds, and
nothing else.  All that it asks for is that each entry has a value and that
counts and lengths fit their fields.
-/

namespace Stream

/-- What writers have chosen differently. -/
structure Coding where
  code : Kind -> UInt8
  /-- A text with its length. -/
  text : String -> Bytes

/-- What is written today. -/
def Coding.present : Coding where
  code := Kind.code
  text content :=
    VarInt.octets (Text.Modified.encodedLength content) ++ Text.Modified.encode content

end Stream

/-! ## The form -/

mutual

/-- A value without its code. -/
def Value.streamForm (coding : Stream.Coding) : Value -> Bytes
  | .byte b => [b]
  | .bytes content => VarInt.octets content.length ++ content
  | .double bits => Bytes.ofNat 8 bits.toNat
  | .integer n => Bytes.ofNat 4 n.toUInt32.toNat
  | .long n => Bytes.ofNat 8 n.toUInt64.toNat
  | .text content => coding.text content
  | .record entries => Bytes.ofNat 4 entries.length ++ Entry.streamForms coding entries

/-- An entry with its code.  Without a value there is nothing to write. -/
def Entry.streamForm (coding : Stream.Coding) : Entry -> Bytes
  | .ofValue value => coding.code value.kind :: value.streamForm coding
  | .undecodable _ _ _ => []

def Entry.streamForms (coding : Stream.Coding) : List Entry -> Bytes
  | [] => []
  | entry :: entries => entry.streamForm coding ++ Entry.streamForms coding entries

end

/-- The form of a whole record. -/
def Record.streamForm (coding : Stream.Coding) (record : Record) : Bytes :=
  Bytes.ofNat 4 record.length ++ Entry.streamForms coding record

/-! ## Counts and lengths -/

/-- What is announced by a count or a length fits its field. -/
def Entry.Sized : Entry -> Prop
  | .ofValue (.bytes content) => content.length ≤ VarInt.largest
  | .ofValue (.text content) => Text.Modified.encodedLength content ≤ VarInt.largest
  | .ofValue (.record entries) => entries.length ≤ mostEntries
  | _ => True

instance : DecidablePred Entry.Sized
  | .ofValue (.bytes content) => inferInstanceAs (Decidable (content.length ≤ VarInt.largest))
  | .ofValue (.text content) =>
      inferInstanceAs (Decidable (Text.Modified.encodedLength content ≤ VarInt.largest))
  | .ofValue (.record entries) => inferInstanceAs (Decidable (entries.length ≤ mostEntries))
  | .ofValue (.byte _) | .ofValue (.double _) | .ofValue (.integer _) | .ofValue (.long _)
  | .undecodable _ _ _ => isTrue trivial

/-- Counts and lengths fit their fields, at every depth. -/
structure Record.Sized (record : Record) : Prop where
  count : record.length ≤ mostEntries
  inside : record.Everywhere Entry.Sized

theorem Record.Sized.nested {record : Record} (sized : record.Sized) {entries : List Entry}
    (member : Entry.ofValue (.record entries) ∈ record) : Record.Sized entries :=
  ⟨sized.inside.of_mem member, sized.inside.nested member⟩

theorem Record.Sized.wrapped {record : Record} (sized : record.Sized) (times : Nat) :
    (record.wrapped times).Sized := by
  have counts : forall times, (record.wrapped times).length ≤ mostEntries := by
    rintro (_ | times)
    · exact sized.count
    · exact (by decide : 1 ≤ mostEntries)
  exact ⟨counts times, sized.inside.wrapped counts times⟩

/-- A count that fits its field is the number in it. -/
theorem toNat_count {count : Nat} (few : count ≤ mostEntries) :
    (UInt32.ofNat count).toInt32.toUInt32.toNat = count := by
  have fits : count < UInt32.size := Nat.lt_of_le_of_lt few (by decide)
  rw [UInt32.toUInt32_toInt32, UInt32.toNat_ofNat_of_lt' fits]

/-! ## Writing -/

namespace Writer

theorem put_of_encode {field : Field} {bytes : Bytes} (encoded : field.encode = .ok bytes)
    (writer : Writer) : writer.put field = (.ok (), writer.append bytes) := by
  rw [put, write, encoded]
  rfl

theorem putCount_of_le {count : Nat} (few : count ≤ mostEntries) (writer : Writer) :
    writer.putCount count = (.ok (), writer.append (Bytes.ofNat 4 count)) := by
  have encoded : (Field.int32 (UInt32.ofNat count).toInt32).encode =
      .ok (Bytes.ofNat 4 count) := by
    rw [Field.encode, toNat_count few]
  rw [putCount, if_neg (Nat.not_lt.mpr few), put_of_encode encoded]

end Writer

theorem Value.writeTo_of_ne_record (value : Value) (plain : value.kind ≠ .record)
    (sized : (Entry.ofValue value).Sized) (writer : Writer) :
    value.writeTo writer = (.ok (), writer.append (value.streamForm .present)) := by
  cases value with
  | bytes content =>
      rw [writeTo, Writer.put_of_encode (Field.encode_buffer_of_le sized), streamForm]
  | text content =>
      rw [writeTo, Writer.put_of_encode (Field.encode_text_of_le sized), streamForm]
      rfl
  | record entries => exact absurd rfl plain
  | _ => rfl

namespace Entry

/-- The writer adds the form of the entry to what it holds. -/
def WritesForm (entry : Entry) : Prop :=
  forall writer : Writer,
    entry.writeTo writer = (.ok (), writer.append (entry.streamForm .present))

theorem writesForm_of_value {value : Value}
    (written : forall writer : Writer,
      value.writeTo writer = (.ok (), writer.append (value.streamForm .present))) :
    (ofValue value).WritesForm := by
  intro writer
  have code : (Field.octet value.kind.code).encode = .ok [value.kind.code] := rfl
  rw [writeTo, Writer.put_of_encode code]
  simp only [written, Writer.append_append]
  rfl

theorem writeAllTo_of_each {entries : List Entry} (each : ∀ entry ∈ entries, entry.WritesForm)
    (writer : Writer) :
    Entry.writeAllTo entries writer = (.ok (), writer.append (streamForms .present entries)) := by
  induction entries generalizing writer with
  | nil => simp [writeAllTo, streamForms, Writer.append]
  | cons entry entries ih =>
      have others := ih fun other member => each other (List.mem_cons_of_mem entry member)
      rw [writeAllTo, each entry List.mem_cons_self writer]
      simp only [others, Writer.append_append]
      rfl

end Entry

namespace Record

/-- Entries of a complete record are written in their form, once the records in
them are. -/
theorem writesForm_of_nested {record : Record} (complete : record.Complete)
    (sized : record.Sized)
    (nested : forall entries : Record, Entry.ofValue (.record entries) ∈ record ->
      forall writer : Writer, (Value.record entries).writeTo writer =
        (.ok (), writer.append (entries.streamForm .present))) :
    ∀ entry ∈ record, entry.WritesForm := by
  intro entry member
  rcases complete.of_mem member with ⟨value, rfl⟩
  apply Entry.writesForm_of_value
  rcases value.record_or_plain with ⟨entries, rfl⟩ | plain
  · exact nested entries member
  · exact value.writeTo_of_ne_record plain (sized.inside.of_mem member)

/-- A complete record is written in its form behind what was written before. -/
theorem writeTo_of_complete (record : Record) (complete : record.Complete)
    (sized : record.Sized) (writer : Writer) :
    (Value.record record).writeTo writer =
      (.ok (), writer.append (record.streamForm .present)) := by
  induction record using Record.nestedInduction generalizing writer with
  | step record nested =>
      have each : ∀ entry ∈ record, entry.WritesForm :=
        writesForm_of_nested complete sized fun entries member =>
          nested entries member (complete.nested member) (sized.nested member)
      rw [Value.writeTo, Writer.putCount_of_le sized.count]
      simp only [Entry.writeAllTo_of_each each, Writer.append_append]
      rfl

theorem stream_of_complete (record : Record) (complete : record.Complete)
    (sized : record.Sized) : record.stream = .ok (record.streamForm .present) := by
  rw [stream, record.writeTo_of_complete complete sized]
  rfl

end Record
end SortKey
