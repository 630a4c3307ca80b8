import SortKey.Proofs.Key.Data
import SortKey.Proofs.Key.Framing
import SortKey.Proofs.Nesting

namespace SortKey

/-!
# What reading a key leaves

Nothing is known about the octets here: they may have been written in any
dialect, or by nobody.  Still the entries that are read from them are not
arbitrary.  None of them is without data, none is the text of the character
zero, and an entry without a value has data that its dialect could not read.
This holds at every depth.

A value that is no record has one spelling: it is written in the data from which it
was read.  So such an entry keeps its data, whether there is a value for it or not.

A dialect enters reading through the kinds that its codes announce, and through
nothing else.  Two dialects that agree on these read the same records.
-/

namespace Key

/-- To prove something of octets, it may be assumed of the data of the frames
that are read in them. -/
@[elab_as_elim]
theorem framesInduction (dialect : Option Dialect) {motive : Bytes -> Prop}
    (step : forall bytes : Bytes,
      (forall found, frames dialect bytes = .ok found -> ∀ frame ∈ found, motive frame.data) ->
        motive bytes)
    (bytes : Bytes) : motive bytes :=
  step bytes fun _ accepted frame member =>
    have := length_data_lt_of_mem_frames accepted member
    framesInduction dialect step frame.data
termination_by bytes.length

theorem map_eq_ok_iff {α β : Type} {result : Except RecordError α} {make : α -> β} {made : β} :
    result.map make = .ok made <-> Exists fun content => result = .ok content ∧ make content = made := by
  cases result <;> simp [Except.map]

theorem decode_eq_ok_iff {dialect : Option Dialect} {bytes : Bytes} {record : Record} :
    decode dialect bytes = .ok record <->
      Exists fun found => frames dialect bytes = .ok found ∧
        found.map (Frame.entry dialect) = record := by
  rw [decode_eq_map_frames, map_eq_ok_iff]

theorem decode_eq_error_iff {dialect : Option Dialect} {bytes : Bytes} {cause : RecordError} :
    decode dialect bytes = .error cause <-> frames dialect bytes = .error cause := by
  rw [decode_eq_map_frames]
  cases frames dialect bytes <;> simp [Except.map]

theorem filled_of_mem_frames {dialect : Option Dialect} {bytes : Bytes} {found : List Frame}
    (accepted : frames dialect bytes = .ok found) {frame : Frame} (member : frame ∈ found) :
    frame.data ≠ [] := by
  cases bytes with
  | nil =>
      cases accepted
      cases member
  | cons code rest =>
      intro empty
      have filled := (found_of_mem_frames accepted member).filled
      rw [empty] at filled
      cases filled

/-! ## Values of data -/

theorem kind_of_valueOfData {kind : Kind} {data : Bytes}
    {nested : Unit -> Except RecordError Record} {value : Value}
    (read : valueOfData kind data nested = .ok value) : value.kind = kind := by
  cases kind with
  | bytes =>
      cases read
      rfl
  | text =>
      rw [valueOfData, textOfData] at read
      split at read
      · cases read
        rfl
      · split at read
        · cases read
          rfl
        · cases read
  | _ =>
      rcases map_eq_ok_iff.mp read with ⟨content, _, rfl⟩
      rfl

/-- What is nested matters for a record only. -/
theorem valueOfData_of_ne_record {kind : Kind} (plain : kind ≠ .record) (data : Bytes)
    (nested other : Unit -> Except RecordError Record) :
    valueOfData kind data nested = valueOfData kind data other := by
  cases kind with
  | record => exact absurd rfl plain
  | _ => rfl

theorem valueOfData_eq_record_iff {kind : Kind} {data : Bytes}
    {nested : Unit -> Except RecordError Record} {entries : List Entry} :
    valueOfData kind data nested = .ok (.record entries) <->
      kind = .record ∧ nested () = .ok entries := by
  constructor
  · intro read
    have same : Kind.record = kind := kind_of_valueOfData read
    subst same
    rcases map_eq_ok_iff.mp read with ⟨found, inside, made⟩
    rw [← Value.record.inj made]
    exact ⟨rfl, inside⟩
  · rintro ⟨rfl, inside⟩
    exact map_eq_ok_iff.mpr ⟨entries, inside, rfl⟩

theorem valueOfData_ne_empty {kind : Kind} {data : Bytes} (filled : data ≠ [])
    (nested : Unit -> Except RecordError Record) :
    valueOfData kind data nested ≠ .ok (.bytes []) := by
  intro read
  have same : Kind.bytes = kind := kind_of_valueOfData read
  subst same
  cases read
  exact filled rfl

/-- The data of the text of the character zero is read as the empty text. -/
theorem valueOfData_ne_nul {kind : Kind} (data : Bytes)
    (nested : Unit -> Except RecordError Record) :
    valueOfData kind data nested ≠ .ok (.text "\x00") := by
  intro read
  have same : Kind.text = kind := kind_of_valueOfData read
  subst same
  rw [valueOfData, textOfData] at read
  split at read
  · have texts : "" = "\x00" := Value.text.inj (Except.ok.inj read)
    exact absurd texts (by decide)
  · next different =>
      split at read
      · next content decoded =>
          cases read
          exact different (Text.Utf8.eq_encode_of_decode? decoded)
      · cases read

theorem kind_entryOfData (kind : Kind) (data : Bytes)
    (nested : Unit -> Except RecordError Record) :
    (entryOfData kind data (valueOfData kind data nested)).kind = kind := by
  cases read : valueOfData kind data nested with
  | error cause => rfl
  | ok value => exact kind_of_valueOfData read

/-! ## One spelling for each value -/

theorem fixedWidth_eq_ok_iff {kind : Kind} {width : Nat} {data : Bytes} {n : Nat} :
    fixedWidth kind width data = .ok n <-> data.length = width ∧ n = data.toNat := by
  unfold fixedWidth
  split
  · next fits => simp [fits, eq_comm]
  · next other => simp [other]

/-- Data of fixed width is the number that it is read as, in that width. -/
theorem ofNat_of_fixedWidth {kind : Kind} {width : Nat} {data : Bytes} {n : Nat}
    (read : fixedWidth kind width data = .ok n) :
    n < 256 ^ width ∧ Bytes.ofNat width n = data := by
  rcases fixedWidth_eq_ok_iff.mp read with ⟨rfl, rfl⟩
  exact ⟨data.toNat_lt_pow, data.ofNat_toNat⟩

theorem data_of_textOfData {data : Bytes} (filled : data ≠ []) {value : Value}
    (read : textOfData data = .ok value) : value.data = data := by
  rw [textOfData] at read
  split at read
  · next reserved =>
      cases read
      exact reserved.symm
  · split at read
    · next content decoded =>
        cases read
        have spelled := Text.Utf8.eq_encode_of_decode? decoded
        have someText : ¬ content.isEmpty = true := by
          intro empty
          rw [String.isEmpty_iff] at empty
          rw [empty] at spelled
          exact filled spelled
        rw [Value.data, if_neg someText, spelled]
    · cases read

/-- A value that is no record is written in the data from which it was read. -/
theorem data_of_valueOfData {kind : Kind} (plain : kind ≠ .record) {data : Bytes}
    (filled : data ≠ []) {nested : Unit -> Except RecordError Record} {value : Value}
    (read : valueOfData kind data nested = .ok value) : value.data = data := by
  cases kind with
  | byte =>
      rcases map_eq_ok_iff.mp read with ⟨n, number, rfl⟩
      exact (ofNat_of_fixedWidth number).2
  | bytes =>
      cases read
      rfl
  | double =>
      rcases map_eq_ok_iff.mp read with ⟨n, number, rfl⟩
      rcases ofNat_of_fixedWidth number with ⟨fits, spelled⟩
      rw [Value.data, UInt64.toNat_ofNat_of_lt' fits, spelled]
  | integer =>
      rcases map_eq_ok_iff.mp read with ⟨n, number, rfl⟩
      rcases ofNat_of_fixedWidth number with ⟨fits, spelled⟩
      rw [Value.data, UInt32.toUInt32_toInt32, UInt32.toNat_ofNat_of_lt' fits, spelled]
  | long =>
      rcases map_eq_ok_iff.mp read with ⟨n, number, rfl⟩
      rcases ofNat_of_fixedWidth number with ⟨fits, spelled⟩
      rw [Value.data, UInt64.toUInt64_toInt64, UInt64.toNat_ofNat_of_lt' fits, spelled]
  | text => exact data_of_textOfData filled read
  | record => exact absurd rfl plain

/-! ## Entries of frames -/

namespace Frame

variable {dialect : Option Dialect} {frame : Frame}

theorem kind_entry (dialect : Option Dialect) (frame : Frame) :
    (frame.entry dialect).kind = frame.kind :=
  kind_entryOfData frame.kind frame.data _

theorem entry_eq_ofValue_iff {value : Value} :
    frame.entry dialect = .ofValue value <-> frame.value dialect = .ok value := by
  rw [entry]
  cases frame.value dialect <;> simp [entryOfData]

/-- The entry of a frame keeps its data, unless this is read as a record. -/
theorem data_entry (plain : frame.kind ≠ .record) (filled : frame.data ≠ []) :
    (frame.entry dialect).data = frame.data := by
  rw [entry]
  cases read : frame.value dialect with
  | error cause => rfl
  | ok value => exact data_of_valueOfData plain filled read

theorem entry_of_ok (isRecord : frame.kind = .record) {found : Record}
    (read : decode dialect frame.data = .ok found) :
    frame.entry dialect = .ofValue (.record found) := by
  have value : frame.value dialect = .ok (.record found) :=
    valueOfData_eq_record_iff.mpr ⟨isRecord, read⟩
  rw [entry, value]
  rfl

theorem entry_of_error (isRecord : frame.kind = .record) {cause : RecordError}
    (refused : decode dialect frame.data = .error cause) :
    frame.entry dialect = .undecodable .record frame.data cause := by
  have value : frame.value dialect = .error cause := by
    rw [Frame.value, isRecord, valueOfData, refused]
    rfl
  rw [entry, value, isRecord]
  rfl

end Frame
end Key

/-! ## Entries that were read -/

/-- What every entry satisfies that was read from a key. -/
def Entry.AsRead (dialect : Option Dialect) : Entry -> Prop
  | .ofValue value => value ≠ .bytes [] ∧ value ≠ .text "\x00"
  | .undecodable kind data cause =>
      data ≠ [] ∧ Key.valueOfData kind data (fun _ => Key.decode dialect data) = .error cause

theorem Entry.AsRead.data_ne_nil {dialect : Option Dialect} {entry : Entry}
    (asRead : entry.AsRead dialect) : entry.data ≠ [] := by
  cases entry with
  | undecodable kind data cause => exact asRead.1
  | ofValue value =>
      intro empty
      exact asRead.1 ((value.data_eq_nil_iff).mp empty)

theorem Record.any_isEmpty_of_asRead {dialect : Option Dialect} {record : Record}
    (asRead : record.Everywhere (Entry.AsRead dialect)) :
    record.any (·.data.isEmpty) = false := by
  rw [List.any_eq_false]
  intro entry member empty
  exact (asRead.of_mem member).data_ne_nil (List.isEmpty_iff.mp empty)

namespace Key

theorem asRead_of_decode {dialect : Option Dialect} {bytes : Bytes} {record : Record}
    (read : decode dialect bytes = .ok record) : record.Everywhere (Entry.AsRead dialect) := by
  induction bytes using framesInduction dialect generalizing record with
  | step bytes ih =>
      rcases decode_eq_ok_iff.mp read with ⟨found, accepted, rfl⟩
      rw [Record.everywhere_iff_forall_mem]
      intro entry member
      rcases List.mem_map.mp member with ⟨frame, inside, rfl⟩
      have filled := filled_of_mem_frames accepted inside
      rw [Entry.everywhere_iff, Frame.entry]
      cases result : frame.value dialect with
      | error cause =>
          refine ⟨⟨filled, result⟩, ?_⟩
          intro entries impossible
          cases impossible
      | ok value =>
          have notEmpty : value ≠ .bytes [] := by
            intro same
            exact valueOfData_ne_empty filled _ (same ▸ result)
          have notNul : value ≠ .text "\x00" := by
            intro same
            exact valueOfData_ne_nul frame.data _ (same ▸ result)
          refine ⟨⟨notEmpty, notNul⟩, ?_⟩
          intro entries same
          cases same
          exact ih found accepted frame inside (valueOfData_eq_record_iff.mp result).2

/-! ## Dialects that read the same -/

/-- The dialects announce the same kinds with the same codes, and refuse the
same codes. -/
def Agree (dialect other : Option Dialect) : Prop :=
  forall code, (Wire.ofCode dialect code).map Wire.entryKind? =
    (Wire.ofCode other code).map Wire.entryKind?

namespace Agree

variable {dialect other : Option Dialect}

theorem announced?_eq (agree : Agree dialect other) (code : UInt8) :
    announced? dialect code = announced? other code := by
  have through : forall result : Except RecordError Wire,
      result.toOption.bind Wire.entryKind? = (result.map Wire.entryKind?).toOption.join := by
    intro result
    cases result <;> rfl
  rw [announced?, announced?, through, through, agree code]

theorem isOk_eq (agree : Agree dialect other) (code : UInt8) :
    (Wire.ofCode dialect code).isOk = (Wire.ofCode other code).isOk := by
  have through : forall result : Except RecordError Wire,
      result.isOk = (result.map Wire.entryKind?).isOk := by
    intro result
    cases result <;> rfl
  rw [through, through, agree code]

theorem scanOnto_eq (agree : Agree dialect other) (read : List Frame) (code : UInt8)
    (rest : Bytes) : scanOnto dialect read code rest = scanOnto other read code rest := by
  induction size : rest.length using Nat.strongRecOn generalizing read code rest with
  | ind size ih =>
      subst size
      cases known : announced? dialect code with
      | none =>
          have knownOther := (agree.announced?_eq code).symm.trans known
          rw [scanOnto_of_unannounced known, scanOnto_of_unannounced knownOther,
            agree.isOk_eq code]
      | some kind =>
          have knownOther := (agree.announced?_eq code).symm.trans known
          rw [scanOnto_of_announced known, scanOnto_of_announced knownOther]
          have behind : forall before,
              scanBehind dialect before (rest.drop (Escape.findSeparator separator rest)) =
                scanBehind other before (rest.drop (Escape.findSeparator separator rest)) := by
            intro before
            rcases tail : rest.drop (Escape.findSeparator separator rest) with _ | ⟨_, _ | ⟨next, more⟩⟩
            · rfl
            · rfl
            · have shorter := congrArg List.length tail
              simp only [List.length_drop, List.length_cons] at shorter
              exact ih more.length (by omega) before next more rfl
          simp only [behind]

theorem frames_eq (agree : Agree dialect other) (bytes : Bytes) :
    frames dialect bytes = frames other bytes := by
  cases bytes with
  | nil => rfl
  | cons code rest => rw [frames, frames, scan, scan, agree.scanOnto_eq]

/-- Dialects that agree read the same records. -/
theorem decode_eq (agree : Agree dialect other) (bytes : Bytes) :
    decode dialect bytes = decode other bytes := by
  induction bytes using framesInduction dialect with
  | step bytes ih =>
      rw [decode_eq_map_frames, decode_eq_map_frames, ← agree.frames_eq]
      cases accepted : frames dialect bytes with
      | error cause => rfl
      | ok found =>
          have sameEntries : ∀ frame ∈ found, Frame.entry dialect frame = Frame.entry other frame := by
            intro frame member
            rw [Frame.entry, Frame.entry, Frame.value, Frame.value,
              ih found accepted frame member]
          exact congrArg Except.ok (List.map_congr_left sameEntries)

end Agree

/-- Long and short texts are of the same kind, so that keys do not tell them
apart. -/
theorem agree_legacyStrings : Agree (some .legacyStrings) none := by
  intro code
  by_cases isText : code = Kind.text.code
  · subst isText
    rfl
  · have unchanged : Dialect.legacyStrings.convert code = code := by
      have notMentioned : (5 : UInt8) ≠ code := Ne.symm isText
      simp [Dialect.convert, Dialect.table, notMentioned]
    rw [Wire.ofCode, Wire.ofCode, Wire.presentCode, Wire.presentCode, unchanged]

end Key
end SortKey
