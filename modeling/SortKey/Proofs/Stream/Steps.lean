import SortKey.Proofs.Field.Extent
import SortKey.Proofs.Octets
import SortKey.Stream.Read

namespace SortKey
namespace Stream

/-!
# Reading a stream form step by step

A record is read entry by entry.  What happens to the entries that are left
depends on the octets that are left, and on nothing that was read or reported
before.  So reading can be followed through any number of entries that are
accepted, up to the end of the record or to the first entry that is refused,
and an entry that is refused decides the outcome of the record.
-/

/-- The step succeeds with some content and leaves some octets. -/
structure Step.Yields {α : Type} (step : Step α) (content : α) (left : Bytes) : Prop where
  result : step.result = .ok content
  rest : step.rest = left

/-- What is found in other words was found as it is. -/
theorem Step.Yields.of_map {α β : Type} {step : Step α} {make : α -> β} {events : List Event}
    {content : β} {left : Bytes}
    (found : Step.Yields ⟨step.result.map make, step.rest, events⟩ content left) :
    Exists fun inner => content = make inner ∧ step.Yields inner left := by
  rcases step with ⟨cause | inner, rest, _⟩
  · cases found.result
  · cases found.result
    exact ⟨inner, rfl, rfl, found.rest⟩

/-! ## One entry -/

section Entry

variable {dialect : Option Dialect} {nested : Bytes -> Step Record}

theorem fieldStep_of_read {α : Type} {reading : Reading α} {make : α -> Value} {bytes rest : Bytes}
    {content : α} (read : reading bytes = (.ok content, rest)) :
    (fieldStep reading make bytes).Yields (make content) rest := by
  rw [fieldStep, read]
  exact ⟨rfl, rfl⟩

/-- A field that is read is what its reading finds, made a value. -/
theorem exists_of_fieldStep_yields {α : Type} {reading : Reading α} {make : α -> Value}
    {bytes rest : Bytes} {value : Value} (found : (fieldStep reading make bytes).Yields value rest) :
    Exists fun content => value = make content ∧ reading bytes = (.ok content, rest) := by
  rcases found with ⟨result, left⟩
  rw [fieldStep] at result left
  rcases read : reading bytes with ⟨cause | content, behind⟩
  · rw [read] at result
    cases result
  · rw [read] at result left
    cases result
    cases left
    exact ⟨content, rfl, rfl⟩

/-- How a value is read: as a field of a shape that takes octets, as a record one level
further in, or not at all. -/
inductive ReadsValue (nested : Bytes -> Step Record) (code : UInt8) (bytes : Bytes) :
    Step Value -> Prop
  | field {α : Type} {reading : Reading α} {make : α -> Value} (shape : Field.Shape)
      (spanned : Reading.Spanned (shape.extent bytes) bytes (reading bytes))
      (sized : forall count, shape ≠ .raw count)
      (plain : forall content, (make content).kind ≠ .record) :
      ReadsValue nested code bytes (fieldStep reading make bytes)
  | record : ReadsValue nested code bytes
      ⟨(nested bytes).result.map .record, (nested bytes).rest, (nested bytes).events⟩
  | refused : ReadsValue nested code bytes ⟨.error (.invalidCode code), bytes, []⟩

theorem readsValue_readValue (nested : Bytes -> Step Record) (code : UInt8) (wire : Wire)
    (bytes : Bytes) : ReadsValue nested code bytes (readValue nested code wire bytes) := by
  have announced := Reading.spanned_counted (Reading.told_varInt bytes)
  cases wire with
  | emptyRecord => exact .refused
  | shortText =>
      exact .field .shortText (Reading.spanned_counted (Reading.told_number bytes)).textOf
        nofun nofun
  | kind kind =>
      cases kind with
      | byte => exact .field .octet (Reading.spanned_octet bytes) nofun nofun
      | bytes => exact .field .buffer announced nofun nofun
      | double => exact .field .double (Reading.spanned_double bytes) nofun nofun
      | integer => exact .field .int32 (Reading.spanned_int32 bytes) nofun nofun
      | long => exact .field .int64 (Reading.spanned_int64 bytes) nofun nofun
      | text => exact .field .text announced.textOf nofun nofun
      | record => exact .record

theorem readEntry_of_meaning (nested : Bytes -> Step Record) {code : UInt8} {wire : Wire}
    (meaning : Wire.ofCode dialect code = .ok wire) (behind : Bytes) :
    (readEntry nested dialect (code :: behind)).result =
        (readValue nested code wire behind).result.map .ofValue ∧
      (readEntry nested dialect (code :: behind)).rest =
        (readValue nested code wire behind).rest := by
  rw [readEntry, Reading.octet]
  simp only [meaning, and_self]

theorem readEntry_of_yields {code : UInt8} {wire : Wire} {behind rest : Bytes} {value : Value}
    (meaning : Wire.ofCode dialect code = .ok wire)
    (found : (readValue nested code wire behind).Yields value rest) :
    (readEntry nested dialect (code :: behind)).Yields (.ofValue value) rest := by
  rcases readEntry_of_meaning nested meaning behind with ⟨result, left⟩
  refine ⟨?_, left.trans found.rest⟩
  rw [result, found.result]
  rfl

theorem readEntry_of_refused {code : UInt8} {wire : Wire} {behind : Bytes} {cause : RecordError}
    (meaning : Wire.ofCode dialect code = .ok wire)
    (refused : (readValue nested code wire behind).result = .error cause) :
    (readEntry nested dialect (code :: behind)).result = .error cause := by
  rw [(readEntry_of_meaning nested meaning behind).1, refused]
  rfl

theorem readEntry_of_meaningless {code : UInt8} {cause : RecordError}
    (meaning : Wire.ofCode dialect code = .error cause) (behind : Bytes) :
    (readEntry nested dialect (code :: behind)).result = .error cause := by
  rw [readEntry, Reading.octet]
  simp only [meaning]

/-- An entry that is read is a code that means something, and a value. -/
theorem exists_of_readEntry_yields {bytes rest : Bytes} {entry : Entry}
    (found : (readEntry nested dialect bytes).Yields entry rest) :
    Exists fun code => Exists fun behind => Exists fun wire => Exists fun value =>
      bytes = code :: behind ∧ Wire.ofCode dialect code = .ok wire ∧ entry = .ofValue value ∧
        (readValue nested code wire behind).Yields value rest := by
  cases bytes with
  | nil => cases found.result
  | cons code behind =>
      rw [readEntry, Reading.octet] at found
      cases meaning : Wire.ofCode dialect code with
      | error cause =>
          simp only [meaning] at found
          cases found.result
      | ok wire =>
          simp only [meaning] at found
          rcases found.of_map with ⟨value, rfl, inside⟩
          exact ⟨code, behind, wire, value, rfl, meaning, rfl, inside⟩

end Entry

/-! ## Entries in a row -/

/-- Entries that are accepted one after the other, and what they leave. -/
inductive Accepted (nested : Bytes -> Step Record) (dialect : Option Dialect) :
    List Entry -> Bytes -> Bytes -> Prop
  | none (bytes : Bytes) : Accepted nested dialect [] bytes bytes
  | next {entry : Entry} {entries : List Entry} {bytes middle rest : Bytes}
      (first : (readEntry nested dialect bytes).Yields entry middle)
      (others : Accepted nested dialect entries middle rest) :
      Accepted nested dialect (entry :: entries) bytes rest

section Entries

variable {nested : Bytes -> Step Record} {dialect : Option Dialect}

theorem readEntriesOnto_succ_of_yields {entry : Entry} {bytes middle : Bytes}
    (first : (readEntry nested dialect bytes).Yields entry middle) (count : Nat)
    (read : List Entry) (reported : List Event) :
    readEntriesOnto nested dialect (count + 1) read reported bytes =
      readEntriesOnto nested dialect count (entry :: read)
        ((readEntry nested dialect bytes).events.reverse ++ reported) middle := by
  have whole : readEntry nested dialect bytes =
      ⟨.ok entry, middle, (readEntry nested dialect bytes).events⟩ := by
    cases step : readEntry nested dialect bytes
    rw [step] at first
    rw [← first.result, ← first.rest]
  rw [readEntriesOnto, whole]

/-- An entry that is refused decides the outcome. -/
theorem readEntriesOnto_succ_of_refused {cause : RecordError} {bytes : Bytes}
    (refused : (readEntry nested dialect bytes).result = .error cause) (count : Nat)
    (read : List Entry) (reported : List Event) :
    (readEntriesOnto nested dialect (count + 1) read reported bytes).result = .error cause := by
  rw [readEntriesOnto]
  cases step : readEntry nested dialect bytes with
  | mk result rest events =>
      rw [step] at refused
      subst refused
      rfl

/-- Reading goes on behind entries that are accepted. -/
theorem Accepted.readEntriesOnto_add {entries : List Entry} {bytes rest : Bytes}
    (accepted : Accepted nested dialect entries bytes rest) (more : Nat) (read : List Entry)
    (reported : List Event) :
    Exists fun after => readEntriesOnto nested dialect (entries.length + more) read reported bytes =
      readEntriesOnto nested dialect more (entries.reverse ++ read) after rest := by
  induction accepted generalizing read reported with
  | none bytes => exact ⟨reported, by simp⟩
  | @next entry entries bytes middle rest first others ih =>
      have length : (entry :: entries).length + more = (entries.length + more) + 1 := by
        rw [List.length_cons]
        omega
      rcases ih (entry :: read) ((readEntry nested dialect bytes).events.reverse ++ reported) with
        ⟨after, goesOn⟩
      refine ⟨after, ?_⟩
      rw [length, readEntriesOnto_succ_of_yields first, goesOn]
      simp

private theorem exists_refused {count : Nat} {bytes : Bytes} {cause : RecordError}
    (read : List Entry) (reported : List Event)
    (refused : (readEntriesOnto nested dialect count read reported bytes).result = .error cause) :
    Exists fun entries => Exists fun rest => Accepted nested dialect entries bytes rest ∧
      entries.length < count ∧ (readEntry nested dialect rest).result = .error cause := by
  induction count generalizing read reported bytes with
  | zero => cases refused
  | succ count ih =>
      cases result : (readEntry nested dialect bytes).result with
      | error other =>
          rw [readEntriesOnto_succ_of_refused result] at refused
          cases refused
          exact ⟨[], bytes, Accepted.none bytes, Nat.zero_lt_succ count, result⟩
      | ok entry =>
          have first : (readEntry nested dialect bytes).Yields entry _ := ⟨result, rfl⟩
          rw [readEntriesOnto_succ_of_yields first] at refused
          rcases ih _ _ refused with ⟨entries, rest, accepted, wanted, last⟩
          exact ⟨entry :: entries, rest, Accepted.next first accepted, Nat.succ_lt_succ wanted, last⟩

private theorem exists_accepted {count : Nat} {bytes rest : Bytes} {record : Record}
    (read : List Entry) (reported : List Event)
    (found : (readEntriesOnto nested dialect count read reported bytes).Yields record rest) :
    Exists fun entries => record = read.reverse ++ entries ∧ entries.length = count ∧
      Accepted nested dialect entries bytes rest := by
  induction count generalizing read reported bytes with
  | zero =>
      rcases found with ⟨result, left⟩
      cases result
      cases left
      exact ⟨[], (List.append_nil _).symm, rfl, Accepted.none bytes⟩
  | succ count ih =>
      cases result : (readEntry nested dialect bytes).result with
      | error cause =>
          have refused := readEntriesOnto_succ_of_refused result count read reported
          rw [found.result] at refused
          cases refused
      | ok entry =>
          have first : (readEntry nested dialect bytes).Yields entry _ := ⟨result, rfl⟩
          rw [readEntriesOnto_succ_of_yields first] at found
          rcases ih _ _ found with ⟨entries, whole, length, others⟩
          refine ⟨entry :: entries, ?_, congrArg (· + 1) length, Accepted.next first others⟩
          rw [whole, List.reverse_cons, List.append_assoc]
          rfl

/-- As many entries as were announced are the record. -/
theorem Accepted.yields {entries : List Entry} {bytes rest : Bytes}
    (accepted : Accepted nested dialect entries bytes rest) (reported : List Event) :
    (readEntriesOnto nested dialect entries.length [] reported bytes).Yields entries rest := by
  rcases accepted.readEntriesOnto_add 0 [] reported with ⟨after, ends⟩
  rw [Nat.add_zero] at ends
  rw [ends, readEntriesOnto]
  exact ⟨by simp, rfl⟩

/-- An entry that is refused behind others that are accepted decides the
outcome, if the count asks for it. -/
theorem Accepted.refused {entries : List Entry} {bytes rest : Bytes} {cause : RecordError}
    (accepted : Accepted nested dialect entries bytes rest)
    (refused : (readEntry nested dialect rest).result = .error cause) {count : Nat}
    (wanted : entries.length < count) (reported : List Event) :
    (readEntriesOnto nested dialect count [] reported bytes).result = .error cause := by
  rcases Nat.exists_eq_add_of_lt wanted with ⟨more, rfl⟩
  rcases accepted.readEntriesOnto_add (more + 1) [] reported with ⟨after, goesOn⟩
  rw [Nat.add_assoc, goesOn]
  exact readEntriesOnto_succ_of_refused refused more _ _

/-- Entries in a row are refused for an entry that is reached and refused. -/
theorem readEntriesOnto_eq_error_iff {count : Nat} {bytes : Bytes} {cause : RecordError}
    (reported : List Event) :
    (readEntriesOnto nested dialect count [] reported bytes).result = .error cause <->
      Exists fun entries => Exists fun rest => Accepted nested dialect entries bytes rest ∧
        entries.length < count ∧ (readEntry nested dialect rest).result = .error cause := by
  constructor
  · exact exists_refused [] reported
  · rintro ⟨entries, rest, accepted, wanted, refused⟩
    exact accepted.refused refused wanted reported

/-- What holds of every entry that is read holds of all that are accepted. -/
theorem Accepted.forall_mem {P : Entry -> Prop}
    (each : forall bytes entry rest, (readEntry nested dialect bytes).Yields entry rest -> P entry)
    {entries : List Entry} {bytes rest : Bytes}
    (accepted : Accepted nested dialect entries bytes rest) : ∀ entry ∈ entries, P entry := by
  induction accepted with
  | none bytes => simp
  | next first _ ih => exact List.forall_mem_cons.mpr ⟨each _ _ _ first, ih⟩

end Entries

/-! ## A record -/

theorem readRecord_zero (dialect : Option Dialect) (bytes : Bytes) :
    (readRecord dialect 0 bytes).result = .error (.tooDeep maxDepth) :=
  rfl

/-- A record is its count and that many entries, one level further in. -/
theorem readRecord_succ_of_count {dialect : Option Dialect} {count : Int32} {bytes rest : Bytes}
    (counted : Reading.int32 bytes = (.ok count, rest)) (positive : ¬ count < 0) (levels : Nat) :
    readRecord dialect (levels + 1) bytes =
      readEntriesOnto (readRecord dialect levels) dialect count.toInt.toNat []
        [.decodingStream count dialect] rest := by
  rw [readRecord, counted]
  simp only [positive, if_false]

/-- A record that is read consists of as many entries as its count says, which were
accepted one level further in. -/
theorem exists_of_readRecord_yields {dialect : Option Dialect} {levels : Nat} {bytes rest : Bytes}
    {record : Record} (found : (readRecord dialect levels bytes).Yields record rest) :
    Exists fun inner => Exists fun count => Exists fun left =>
      levels = inner + 1 ∧ Reading.int32 bytes = (.ok count, left) ∧
        record.length = count.toInt.toNat ∧
        Accepted (readRecord dialect inner) dialect record left rest := by
  cases levels with
  | zero => cases found.result
  | succ inner =>
      rcases counted : Reading.int32 bytes with ⟨cause | count, left⟩
      · have refused := found.result
        rw [readRecord, counted] at refused
        cases refused
      · by_cases negative : count < 0
        · have refused := found.result
          rw [readRecord, counted] at refused
          simp only [negative, if_true] at refused
          cases refused
        · rw [readRecord_succ_of_count counted negative] at found
          rcases exists_accepted _ _ found with ⟨entries, rfl, length, accepted⟩
          exact ⟨inner, count, left, rfl, rfl, length, accepted⟩

end Stream
end SortKey
