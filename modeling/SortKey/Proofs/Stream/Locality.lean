import SortKey.Proofs.Locality
import SortKey.Proofs.Stream.Steps

namespace SortKey
namespace Stream

/-!
# The stream form is read locally

A record is read from a front of the octets, and what stands behind that front is
not looked at.  A part of the front is never taken for something else: whatever
is missing, the reading runs out of octets before it can find fault with what it
has.  So no accepted form begins another one.

This holds for everything that is accepted and not only for what is written, as
lengths and characters can be spelled in more than one way.  It follows the
reader: fields are local, and whatever is put together from local readings is
local as well, at every depth.
-/

variable {α : Type}

/-- What a step finds and leaves; failures without what they leave and report. -/
def parse (step : Bytes -> Step α) : Parse RecordError α := fun bytes =>
  (step bytes).result.map fun content => (content, (step bytes).rest)

/-- A success depends on the octets that it takes, and fewer of them are too
few. -/
def Local (step : Bytes -> Step α) : Prop :=
  Parse.Local .unexpectedEnd (parse step)

theorem parse_eq_ok_iff {step : Bytes -> Step α} {bytes rest : Bytes} {content : α} :
    parse step bytes = .ok (content, rest) <-> (step bytes).Yields content rest := by
  constructor
  · intro found
    cases result : (step bytes).result with
    | error cause =>
        rw [parse, result] at found
        cases found
    | ok other =>
        rw [parse, result] at found
        cases found
        exact ⟨result, rfl⟩
  · rintro ⟨result, rfl⟩
    rw [parse, result]
    rfl

theorem parse_eq_error_iff {step : Bytes -> Step α} {bytes : Bytes} {cause : RecordError} :
    parse step bytes = .error cause <-> (step bytes).result = .error cause := by
  rw [parse]
  cases (step bytes).result <;> simp [Except.map]

/-! ## The reader, put together from readings in a row -/

theorem parse_fieldStep (reading : Reading α) (make : α -> Value) :
    parse (fieldStep reading make) = reading.parse.translated make RecordError.ofByteError := by
  funext bytes
  rw [parse, fieldStep, Parse.translated, Reading.parse]
  rcases reading bytes with ⟨_ | _, _⟩ <;> rfl

section Nested

variable (nested : Bytes -> Step Record) (dialect : Option Dialect)

theorem parse_readValue_record (code : UInt8) :
    parse (readValue nested code (.kind .record)) =
      (parse nested).translated Value.record id := by
  funext bytes
  rw [parse, readValue, Parse.translated, parse]
  cases (nested bytes).result <;> rfl

/-- An entry is a code, what it stands for, and a value. -/
theorem parse_readEntry :
    parse (readEntry nested dialect) =
      (Reading.octet.parse.translated id RecordError.ofByteError).andThen fun code =>
        (Parse.given (Wire.ofCode dialect code)).andThen fun wire =>
          (parse (readValue nested code wire)).translated Entry.ofValue id := by
  funext bytes
  rcases bytes with _ | ⟨code, bytes⟩
  · rfl
  · rw [parse, readEntry, Parse.andThen, Parse.translated, Reading.parse, Reading.octet]
    cases meaning : Wire.ofCode dialect code with
    | error cause => simp [Except.map, meaning, Parse.given, Parse.andThen]
    | ok wire =>
        cases result : (readValue nested code wire bytes).result <;>
          simp [Except.map, meaning, result, Parse.given, Parse.andThen, Parse.translated, parse]

/-- Entries in a row behind others, whatever is reported about them. -/
def parseEntries : (count : Nat) -> (read : List Entry) -> Parse RecordError Record
  | 0, read => Parse.given (.ok read.reverse)
  | count + 1, read =>
      (parse (readEntry nested dialect)).andThen fun entry => parseEntries count (entry :: read)

theorem parse_readEntriesOnto (count : Nat) (read : List Entry) (reported : List Event) :
    parse (readEntriesOnto nested dialect count read reported) =
      parseEntries nested dialect count read := by
  induction count generalizing read reported with
  | zero => rfl
  | succ count ih =>
      funext bytes
      rw [parseEntries]
      cases step : readEntry nested dialect bytes with
      | mk result rest events =>
          cases result with
          | error cause => simp [parse, readEntriesOnto, step, Parse.andThen, Except.map]
          | ok entry =>
              have others := congrFun (ih (entry :: read) (events.reverse ++ reported)) rest
              simpa only [parse, readEntriesOnto, step, Parse.andThen, Except.map] using others

end Nested

/-- A record is a count and that many entries, one level further in. -/
theorem parse_readRecord_succ (dialect : Option Dialect) (levels : Nat) :
    parse (readRecord dialect (levels + 1)) =
      (Reading.int32.parse.translated id RecordError.ofByteError).andThen fun count =>
        if count < 0 then Parse.given (.error (.negativeCount count))
        else parseEntries (readRecord dialect levels) dialect count.toInt.toNat [] := by
  funext bytes
  rw [parse, readRecord, Parse.andThen, Parse.translated, Reading.parse]
  rcases Reading.int32 bytes with ⟨cause | count, rest⟩
  · rfl
  · by_cases negative : count < 0
    · simp [negative, Except.map, Parse.given]
    · simp only [negative, Except.map, id, if_false]
      exact congrFun (parse_readEntriesOnto _ dialect _ [] [.decodingStream count dialect]) rest

/-! ## The reader is local -/

theorem local_fieldStep {reading : Reading α} (isLocal : reading.Local) (make : α -> Value) :
    Local (fieldStep reading make) := by
  rw [Local, parse_fieldStep]
  exact Parse.Local.translated isLocal make RecordError.ofByteError

section Nested

variable {nested : Bytes -> Step Record}

theorem local_readValue (isLocal : Local nested) (code : UInt8) (wire : Wire) :
    Local (readValue nested code wire) := by
  cases wire with
  | kind kind =>
      cases kind with
      | byte => exact local_fieldStep Reading.local_octet Value.byte
      | bytes => exact local_fieldStep Reading.local_buffer Value.bytes
      | double => exact local_fieldStep Reading.local_double Value.double
      | integer => exact local_fieldStep Reading.local_int32 Value.integer
      | long => exact local_fieldStep Reading.local_int64 Value.long
      | text => exact local_fieldStep Reading.local_text Value.text
      | record =>
          rw [Local, parse_readValue_record]
          exact Parse.Local.translated isLocal Value.record id
  | shortText => exact local_fieldStep Reading.local_shortText Value.text
  | emptyRecord => exact Parse.local_given (.error (RecordError.invalidCode code))

theorem local_readEntry (isLocal : Local nested) (dialect : Option Dialect) :
    Local (readEntry nested dialect) := by
  rw [Local, parse_readEntry]
  refine (Parse.Local.translated Reading.local_octet id RecordError.ofByteError).andThen ?_
  intro code
  refine (Parse.local_given (Wire.ofCode dialect code)).andThen ?_
  intro wire
  exact Parse.Local.translated (local_readValue isLocal code wire) Entry.ofValue id

theorem local_parseEntries (isLocal : Local nested) (dialect : Option Dialect) (count : Nat)
    (read : List Entry) : Parse.Local .unexpectedEnd (parseEntries nested dialect count read) := by
  induction count generalizing read with
  | zero => exact Parse.local_given (.ok read.reverse)
  | succ count ih => exact (local_readEntry isLocal dialect).andThen fun entry => ih (entry :: read)

end Nested

/-- A record is local at every depth, because the records in it are. -/
theorem local_readRecord (dialect : Option Dialect) (levels : Nat) :
    Local (readRecord dialect levels) := by
  induction levels with
  | zero => exact Parse.local_given (.error (RecordError.tooDeep maxDepth))
  | succ levels ih =>
      rw [Local, parse_readRecord_succ]
      refine (Parse.Local.translated Reading.local_int32 id RecordError.ofByteError).andThen ?_
      intro count
      split
      · exact Parse.local_given (.error (RecordError.negativeCount count))
      · exact local_parseEntries ih dialect count.toInt.toNat []

/-! ## Whole records -/

/-- Octets behind a record are refused where the record has to be all there is. -/
theorem readExact_of_yields {bytes rest : Bytes} {record : Record}
    (found : (read none bytes).Yields record rest) :
    (readExact bytes).result =
      if rest = [] then .ok record else .error (.trailingBytes rest.length) := by
  cases step : read none bytes with
  | mk result left events =>
      rw [step] at found
      rcases found with ⟨rfl, rfl⟩
      rw [readExact, step]
      cases left <;> rfl

/-- A record that is found is found in a front of the octets.  With anything else
behind that front the same record is found and that is left, and a part of the
front ends too early.  So the front by itself is a whole record, and anything
behind it is refused where a whole record is asked for. -/
theorem read_prefix_free {dialect : Option Dialect} {bytes rest : Bytes} {record : Record}
    (found : (read dialect bytes).Yields record rest) :
    Exists fun front => bytes = front ++ rest ∧
      (forall behind, (read dialect (front ++ behind)).Yields record behind) ∧
      (forall k, k < front.length ->
        (read dialect (bytes.take k)).result = .error .unexpectedEnd) ∧
      (dialect = none ->
        (readExact front).result = .ok record ∧
        forall behind, behind ≠ [] ->
          (readExact (front ++ behind)).result = .error (.trailingBytes behind.length)) := by
  have isLocal : Local (read dialect) := local_readRecord dialect (maxDepth + 1)
  rcases isLocal bytes record rest (parse_eq_ok_iff.mpr found) with ⟨front, rfl, takes⟩
  have again : forall behind, (read dialect (front ++ behind)).Yields record behind :=
    fun behind => parse_eq_ok_iff.mp (takes.found behind)
  refine ⟨front, rfl, again, ?_, ?_⟩
  · intro k fewer
    rw [List.take_append_of_le_length (Nat.le_of_lt fewer)]
    apply parse_eq_error_iff.mp
    apply takes.cutOff _ (List.take_prefix k front)
    intro whole
    have length := congrArg List.length whole
    rw [List.length_take, Nat.min_eq_left (Nat.le_of_lt fewer)] at length
    exact absurd length (Nat.ne_of_lt fewer)
  · rintro rfl
    constructor
    · have alone := readExact_of_yields (again [])
      rwa [List.append_nil, if_pos rfl] at alone
    · intro behind more
      rw [readExact_of_yields (again behind), if_neg more]

/-- Text in a nested record whose length and character are spelled with more
octets than they need, and one octet behind it. -/
theorem read_prefix_free_of_longer_spelling :
    let form : Bytes := [0, 0, 0, 1, 6, 0, 0, 0, 1, 5, 0x82, 0, 0xC1, 0xA1]
    let record : Record := [.ofValue (.record [.ofValue (.text "a")])]
    (forall behind, (read none (form ++ behind)).Yields record behind) ∧
    (forall k, k < form.length ->
      (read none ((form ++ [42]).take k)).result = .error .unexpectedEnd) ∧
    (readExact form).result = .ok record ∧
    forall behind, behind ≠ [] ->
      (readExact (form ++ behind)).result = .error (.trailingBytes behind.length) := by
  intro form record
  have found : (read none (form ++ [42])).Yields record [42] := by
    exact ⟨rfl, rfl⟩
  rcases read_prefix_free found with ⟨front, same, again, cutOff, exact⟩
  rcases List.append_cancel_right same with rfl
  exact ⟨again, cutOff, exact rfl⟩

end Stream
end SortKey
