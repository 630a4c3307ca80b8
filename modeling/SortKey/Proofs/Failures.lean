import SortKey.Proofs.Field.Extent
import SortKey.Proofs.Key.FrameViews
import SortKey.Proofs.Stream.Steps

namespace SortKey

/-!
# How reading can fail

Reading a key, finding the value of an entry, and reading a stream form each have a
few causes of failure, and all of them say that the octets are malformed.  What can
only go wrong by a mistake of the reader, such as asking a view for a position that it
does not have, never does.

The causes follow the recursion.  Data fails for its own kind, or like a key if it is a
nested record.  A stream form fails at one of its fields, at a code, at a count, or at
the limit of nesting, on whatever level that is.
-/

namespace RecordError

/-- What can be wrong with the data of an entry. -/
inductive OfData : RecordError -> Prop
  | invalidLength (kind : Kind) (expected actual : Nat) :
      OfData (.invalidLength kind expected actual)
  | malformedText : OfData .malformedText
  | nested {cause : RecordError} (framing : cause.OfFraming) : OfData cause

/-- What can be wrong with a stream form. -/
inductive OfStream : RecordError -> Prop
  | unexpectedEnd : OfStream .unexpectedEnd
  | malformedVarInt : OfStream .malformedVarInt
  | malformedText : OfStream .malformedText
  | invalidCode (code : UInt8) : OfStream (.invalidCode code)
  | negativeCount (count : Int32) : OfStream (.negativeCount count)
  | tooDeep (max : Nat) : OfStream (.tooDeep max)

/-- A result that is there, or is missing for one of these causes. -/
def FailsOnly {α : Type} (causes : RecordError -> Prop) : Except RecordError α -> Prop
  | .ok _ => True
  | .error cause => causes cause

variable {α β : Type} {causes : RecordError -> Prop} {result : Except RecordError α}

theorem failsOnly_iff :
    FailsOnly causes result <-> forall cause, result = .error cause -> causes cause := by
  cases result <;> simp [FailsOnly]

theorem FailsOnly.mono {weaker : RecordError -> Prop} (fails : FailsOnly causes result)
    (implies : forall cause, causes cause -> weaker cause) : FailsOnly weaker result :=
  failsOnly_iff.mpr fun cause refused => implies cause (failsOnly_iff.mp fails cause refused)

theorem FailsOnly.map (fails : FailsOnly causes result) (make : α -> β) :
    FailsOnly causes (result.map make) := by
  cases result with
  | ok content => trivial
  | error cause => exact fails

end RecordError

open RecordError

/-! ## Keys -/

namespace Key

theorem Scan.failsOnly_outcome (scan : Scan) : FailsOnly OfFraming scan.outcome := by
  unfold outcome
  split
  · trivial
  · trivial
  · trivial
  · next code _ => exact .invalidCode code
  · exact .emptyData

theorem failsOnly_decode (dialect : Option Dialect) (bytes : Bytes) :
    FailsOnly OfFraming (decode dialect bytes) := by
  rw [decode_eq_map_frames]
  refine FailsOnly.map ?_ _
  cases bytes with
  | nil => trivial
  | cons code rest =>
      rw [frames]
      split
      · trivial
      · exact (scan dialect code rest).failsOnly_outcome

/-- Data of a kind fails for its width or as a text, or like what is nested in it. -/
theorem failsOnly_valueOfData (kind : Kind) (data : Bytes)
    (nested : Unit -> Except RecordError Record) (inside : FailsOnly OfFraming (nested ())) :
    FailsOnly OfData (valueOfData kind data nested) := by
  have fixed : forall kind width, FailsOnly OfData (fixedWidth kind width data) := by
    intro kind width
    unfold fixedWidth
    split
    · trivial
    · exact .invalidLength kind width data.length
  cases kind with
  | byte | double | integer | long => exact (fixed _ _).map _
  | bytes => trivial
  | text =>
      rw [valueOfData, textOfData]
      split
      · trivial
      · split
        · trivial
        · exact .malformedText
  | record => exact (inside.mono fun _ framing => .nested framing).map _

end Key

/-- An entry that was read has a value, or data that is malformed. -/
theorem Entry.AsRead.failsOnly_value {dialect : Option Dialect} {entry : Entry}
    (asRead : entry.AsRead dialect) : FailsOnly OfData entry.value := by
  cases entry with
  | ofValue value => trivial
  | undecodable kind data cause =>
      have fails := Key.failsOnly_valueOfData kind data (fun _ => Key.decode dialect data)
        (Key.failsOnly_decode dialect data)
      rwa [asRead.2] at fails

/-! ## Streams -/

/-- Octets are cut off, or spell no length or no text. -/
theorem Reading.Spanned.failsOnly {α : Type} (shape : Field.Shape) {bytes : Bytes}
    {found : Except ByteError α × Bytes} (spanned : Spanned (shape.extent bytes) bytes found) :
    FailsOnly OfStream (found.1.mapError RecordError.ofByteError) := by
  cases spanned with
  | untold untold =>
      rcases Field.Shape.extent_error untold with rfl | rfl
      · exact .unexpectedEnd
      · exact .malformedVarInt
  | cutOff => exact .unexpectedEnd
  | @taken count result told enough onText =>
      cases result with
      | ok content => trivial
      | error cause =>
          rw [onText cause rfl]
          exact .malformedText

namespace Stream

theorem failsOnly_fieldStep {α : Type} (shape : Field.Shape) {reading : Reading α} {bytes : Bytes}
    (spanned : Reading.Spanned (shape.extent bytes) bytes (reading bytes)) (make : α -> Value) :
    FailsOnly OfStream (fieldStep reading make bytes).result := by
  have fails := spanned.failsOnly shape
  rw [fieldStep]
  rcases found : reading bytes with ⟨_ | _, _⟩
  · rwa [found] at fails
  · trivial

section Nested

variable {nested : Bytes -> Step Record}
  (inside : forall bytes, FailsOnly OfStream (nested bytes).result)

include inside

theorem failsOnly_readValue (code : UInt8) (wire : Wire) (bytes : Bytes) :
    FailsOnly OfStream (readValue nested code wire bytes).result := by
  have reads := readsValue_readValue nested code wire bytes
  generalize readValue nested code wire bytes = step at reads ⊢
  cases reads with
  | field shape spanned => exact failsOnly_fieldStep shape spanned _
  | record => exact (inside bytes).map _
  | refused => exact .invalidCode code

theorem failsOnly_readEntry (dialect : Option Dialect) (bytes : Bytes) :
    FailsOnly OfStream (readEntry nested dialect bytes).result := by
  cases bytes with
  | nil => exact .unexpectedEnd
  | cons code rest =>
      cases meaning : Wire.ofCode dialect code with
      | error cause =>
          rw [readEntry_of_meaningless meaning, Wire.ofCode_error meaning]
          exact .invalidCode code
      | ok wire =>
          rw [(readEntry_of_meaning nested meaning rest).1]
          exact (failsOnly_readValue inside code wire rest).map _

end Nested

theorem failsOnly_readRecord (dialect : Option Dialect) (levels : Nat) (bytes : Bytes) :
    FailsOnly OfStream (readRecord dialect levels bytes).result := by
  induction levels generalizing bytes with
  | zero => exact .tooDeep maxDepth
  | succ levels ih =>
      have counts := (Reading.spanned_int32 bytes).failsOnly .int32
      rcases counted : Reading.int32 bytes with ⟨cause | count, rest⟩
      · rw [counted] at counts
        rw [readRecord, counted]
        exact counts
      · by_cases negative : count < 0
        · rw [readRecord, counted]
          simp only [negative, if_true]
          exact .negativeCount count
        · rw [readRecord_succ_of_count counted negative, failsOnly_iff]
          intro cause refused
          -- The entry that is refused was reached behind others, on the level below.
          rcases (readEntriesOnto_eq_error_iff _).mp refused with ⟨_, left, _, _, entry⟩
          exact failsOnly_iff.mp (failsOnly_readEntry ih dialect left) cause entry

/-- Octets behind an accepted form are one more cause where they are not allowed. -/
theorem failsOnly_readExact (bytes : Bytes) :
    FailsOnly (fun cause => cause.OfStream ∨ Exists fun len => cause = .trailingBytes len)
      (readExact bytes).result := by
  have fails := failsOnly_readRecord none (maxDepth + 1) bytes
  unfold readExact
  split
  · trivial
  · exact Or.inr ⟨_, rfl⟩
  · exact fails.mono fun _ => Or.inl

end Stream

/-! ## All readers -/

/-- A key fails at its frames, the value of an entry that was read fails because of its
data, and a stream form fails at what it is made of.  A key that is cut from a view
fails where the frames do: no turn asks the view for a position that it does not have,
and every turn that goes on leaves less for the next one, but never nothing. -/
theorem reading_fails_only_on_malformed (dialect : Option Dialect) :
    (forall bytes, FailsOnly OfFraming (Key.decode dialect bytes)) ∧
    (forall bytes record, Key.decode dialect bytes = .ok record ->
      record.Everywhere fun entry => FailsOnly OfData entry.value) ∧
    (forall bytes, FailsOnly OfStream (Stream.read dialect bytes).result) ∧
    (forall pool view,
      (Key.frameViews dialect pool view).map Key.framesOf = Key.frames dialect view.bytes) ∧
    (forall pool atFront view, 0 < view.length ->
      Key.Advances view (Key.turn dialect pool atFront view)) := by
  refine ⟨Key.failsOnly_decode dialect, ?_, ?_, Key.framesOf_frameViews dialect, ?_⟩
  · intro bytes record read
    exact (Key.asRead_of_decode read).mono fun _ asRead => asRead.failsOnly_value
  · exact fun bytes => Stream.failsOnly_readRecord dialect (Stream.maxDepth + 1) bytes
  · exact fun pool atFront _ filled => Key.advances_turn dialect pool atFront filled

/-- In old codes, a number with one octet inside a record, and octets behind it. -/
theorem reading_fails_only_on_malformed_in_a_nested_number :
    let view := View.ofBuffer ⟨0, [5, 2, 1, separator, separator, separator, 0, 65]⟩
    let left : View := ⟨view.buffer, 6, 8, by decide, by decide⟩
    let record : Record :=
      [.ofValue (.record [.undecodable .integer [1] (.invalidLength .integer 4 1)]),
        .ofValue (.bytes [65])]
    Key.decode (some .sherlock) view.bytes = .ok record ∧
      (record.Everywhere fun entry => FailsOnly OfData entry.value) ∧
      (Exists fun found => Key.turn (some .sherlock) ⟨1⟩ true view = .ok found ∧
        found.1 = .next ⟨5, .record, View.ofBuffer ⟨1, [2, 1, separator]⟩⟩ left) ∧
      Key.Advances view (Key.turn (some .sherlock) ⟨1⟩ true view) := by
  intro view left record
  have nested : Key.decode (some .sherlock) [2, 1, separator] =
      .ok [.undecodable .integer [1] (.invalidLength .integer 4 1)] :=
    Key.decode_eq_ok_iff.mpr ⟨[⟨2, .integer, [1]⟩], by decide +kernel, rfl⟩
  have read : Key.decode (some .sherlock) view.bytes = .ok record := by
    refine Key.decode_eq_ok_iff.mpr
      ⟨[⟨5, .record, [2, 1, separator]⟩, ⟨0, .bytes, [65]⟩], by decide +kernel, ?_⟩
    rw [List.map_cons, Key.Frame.entry_of_ok rfl nested]
    rfl
  rcases reading_fails_only_on_malformed (some .sherlock) with ⟨_, values, _, _, turns⟩
  exact ⟨read, values view.bytes record read, ⟨_, rfl, by decide⟩, turns ⟨1⟩ true view (by decide)⟩

end SortKey
