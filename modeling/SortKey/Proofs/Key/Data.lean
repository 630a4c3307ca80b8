import SortKey.Key.Decode
import SortKey.Proofs.Nesting
import SortKey.Proofs.Octets

namespace SortKey

/-!
# Values and their data

Only empty octets have no data.  Every value except a record is found again
in its data, with one exception: the text of the single character zero has the
data that is reserved for the empty text, and is read as that.  `withoutNul`
makes this replacement at every depth of a value, so that later statements can
name what is read instead of saying that it is nearly the same.
-/

/-! ## The two texts that share their data -/

mutual

/-- The empty text in place of the text of the character zero, at every
depth. -/
def Value.withoutNul : Value -> Value
  | .text content => .text (if content = "\x00" then "" else content)
  | .record entries => .record (Entry.withoutNulAll entries)
  | value => value

/-- The replacement in the value of an entry. -/
def Entry.withoutNul : Entry -> Entry
  | .ofValue value => .ofValue value.withoutNul
  | .undecodable kind data cause => .undecodable kind data cause

/-- The replacement in a sequence of entries. -/
def Entry.withoutNulAll : List Entry -> List Entry
  | [] => []
  | entry :: entries => entry.withoutNul :: Entry.withoutNulAll entries

end

/-- The replacement in a record. -/
def Record.withoutNul (record : Record) : Record :=
  Entry.withoutNulAll record

theorem Record.withoutNul_eq_map (record : Record) :
    record.withoutNul = record.map Entry.withoutNul := by
  unfold withoutNul
  induction record with
  | nil => rfl
  | cons entry entries ih => rw [Entry.withoutNulAll, ih, List.map_cons]

/-- Without the text of the character zero there is nothing to replace. -/
theorem Record.withoutNul_eq_self (record : Record)
    (absent : record.Everywhere (· ≠ .ofValue (.text "\x00"))) : record.withoutNul = record := by
  induction record using Record.nestedInduction with
  | step record ih =>
      have unchanged : ∀ entry ∈ record, entry.withoutNul = id entry := by
        intro entry member
        have own : entry ≠ .ofValue (.text "\x00") := absent.of_mem member
        cases entry with
        | undecodable kind data cause => rfl
        | ofValue value =>
            cases value with
            | text content =>
                have other : content ≠ "\x00" := by
                  intro same
                  exact own (by rw [same])
                rw [Entry.withoutNul, Value.withoutNul, if_neg other]
                rfl
            | record entries =>
                have inside : Record.withoutNul entries = entries :=
                  ih entries member (absent.nested member)
                exact congrArg (fun found => Entry.ofValue (.record found)) inside
            | _ => rfl
      rw [withoutNul_eq_map, List.map_congr_left unchanged, List.map_id]

/-! ## Data -/

namespace Text
namespace Utf8

theorem encode_injective {a b : String} (same : encode a = encode b) : a = b := by
  have decoded := congrArg decode? same
  rw [decode?_encode, decode?_encode] at decoded
  exact Option.some.inj decoded

theorem encode_empty : encode "" = [] :=
  rfl

theorem encode_nul : encode "\x00" = emptyTextData :=
  rfl

end Utf8
end Text

theorem keyOfFrames_ne_nil (frames : List Bytes) : keyOfFrames frames ≠ [] := by
  cases frames <;> simp [keyOfFrames]

theorem Value.data_eq_nil_iff (value : Value) : value.data = [] <-> value = .bytes [] := by
  cases value with
  | byte b => simp [Value.data]
  | bytes content => simp [Value.data]
  | double bits => simp [Value.data, Bytes.ofNat]
  | integer n => simp [Value.data, Bytes.ofNat]
  | long n => simp [Value.data, Bytes.ofNat]
  | text content =>
      by_cases empty : content.isEmpty
      · simp [Value.data, empty, emptyTextData]
      · have filled : Text.Utf8.encode content ≠ [] := by
          intro none
          rw [Text.Utf8.encode_injective (none.trans Text.Utf8.encode_empty.symm)] at empty
          exact empty rfl
        simp [Value.data, empty, filled]
  | record entries => simp [Value.data, keyOfFrames_ne_nil]

namespace Key

/-- Octets of a number that fits them are read as that number. -/
theorem fixedWidth_ofNat (kind : Kind) (width n : Nat) (fits : n < 256 ^ width) :
    fixedWidth kind width (Bytes.ofNat width n) = .ok n := by
  rw [fixedWidth, if_pos (Bytes.length_ofNat width n), Bytes.toNat_ofNat, Nat.mod_eq_of_lt fits]

theorem textOfData_data (content : String) :
    textOfData (Value.data (.text content)) = .ok (Value.withoutNul (.text content)) := by
  rw [Value.data, Value.withoutNul]
  by_cases empty : content.isEmpty
  · rw [if_pos empty, textOfData, if_pos rfl]
    rw [String.isEmpty_iff] at empty
    rw [empty]
    rfl
  · rw [if_neg empty, textOfData]
    by_cases nul : content = "\x00"
    · rw [if_pos nul, nul, if_pos Text.Utf8.encode_nul]
    · have different : Text.Utf8.encode content ≠ emptyTextData := by
        intro same
        exact nul (Text.Utf8.encode_injective (same.trans Text.Utf8.encode_nul.symm))
      rw [if_neg nul, if_neg different, Text.Utf8.decode?_encode]

/-- A value that is no record is found again in its data. -/
theorem valueOfData_data (value : Value) (plain : value.kind ≠ .record)
    (nested : Unit -> Except RecordError Record) :
    valueOfData value.kind value.data nested = .ok value.withoutNul := by
  cases value with
  | byte b => simp [Value.kind, Value.data, valueOfData, fixedWidth, Bytes.toNat, Value.withoutNul, Except.map]
  | bytes content => rfl
  | double bits =>
      have fits : bits.toNat < 256 ^ 8 := bits.toNat_lt
      simp [Value.kind, Value.data, valueOfData, fixedWidth_ofNat _ _ _ fits, Value.withoutNul, Except.map]
  | integer n =>
      have fits : n.toUInt32.toNat < 256 ^ 4 := n.toUInt32.toNat_lt
      simp [Value.kind, Value.data, valueOfData, fixedWidth_ofNat _ _ _ fits, Value.withoutNul, Except.map]
  | long n =>
      have fits : n.toUInt64.toNat < 256 ^ 8 := n.toUInt64.toNat_lt
      simp [Value.kind, Value.data, valueOfData, fixedWidth_ofNat _ _ _ fits, Value.withoutNul, Except.map]
  | text content => exact textOfData_data content
  | record entries => exact absurd rfl plain

/-- A frame with the data of a value that is no record has this value. -/
theorem Frame.entry_of_data {dialect : Option Dialect} {frame : Frame} {value : Value}
    (plain : value.kind ≠ .record) (kind : value.kind = frame.kind)
    (data : value.data = frame.data) : frame.entry dialect = .ofValue value.withoutNul := by
  have read : frame.value dialect = .ok value.withoutNul := by
    rw [Frame.value, ← kind, ← data]
    exact valueOfData_data value plain _
  rw [entry, read]
  rfl

end Key

/-- Values that are no records and share their data are the same, up to the
text of the character zero. -/
theorem Value.withoutNul_eq_of_data_eq {u v : Value} (plain : u.kind ≠ .record)
    (kinds : u.kind = v.kind) (data : u.data = v.data) : u.withoutNul = v.withoutNul := by
  have readU := Key.valueOfData_data u plain fun _ => .ok []
  have readV := Key.valueOfData_data v (kinds ▸ plain) fun _ => .ok []
  rw [kinds, data, readV] at readU
  exact (Except.ok.inj readU).symm

/-- The replacement does not change the data of a text. -/
theorem Value.data_withoutNul_text (content : String) :
    (Value.text content).withoutNul.data = (Value.text content).data := by
  rw [Value.withoutNul]
  by_cases nul : content = "\x00"
  · rw [if_pos nul, nul]
    rfl
  · rw [if_neg nul]

end SortKey
