import Mathlib.Data.List.Forall2
import SortKey.Proofs.Key.Agreement
import SortKey.Proofs.Key.Grammar
import SortKey.Proofs.Stream.RoundTrip

namespace SortKey

/-!
# What earlier writers wrote

A dialect is there to read what was written before the present codes and lengths
were settled.  Such a form is the present one with other choices, throughout the
record: which code a kind has, which key an empty record has, which length stands
in front of a text.  A `Coding` says what was chosen, for keys and for streams
apart, and the forms in it are defined without looking at what readers do.

Reading such a form in its dialect finds the record that was written, at every
depth, and the record found is written in the present form from then on.
-/

/-! ## Codes lowered by one -/

/-- The code of a kind before octets had one, when all codes were lower by one. -/
def Kind.loweredCode (kind : Kind) : UInt8 :=
  kind.code - 1

theorem Wire.ofCode_loweredCode {kind : Kind} (coded : kind ≠ .byte) :
    Wire.ofCode (some .sherlock) kind.loweredCode = .ok (.kind kind) := by
  cases kind with
  | byte => exact absurd rfl coded
  | _ => rfl

namespace Key

/-! ## Keys in a coding -/

/-- What writers of keys have chosen differently. -/
structure Coding where
  code : Kind -> UInt8
  /-- The keys that an empty record may have. -/
  empty : List Bytes

namespace Coding

/-- What is written today. -/
def present : Coding where
  code := Kind.code
  empty := [[separator]]

/-- Codes are lower by one.  The code that follows those of the kinds, which now
is that of records, stood for an empty record by itself. -/
def lowered : Coding where
  code := Kind.loweredCode
  empty := [[Kind.record.code], [separator]]

mutual

/-- Octets in which a record is written.  Of several keys of the empty record, any
may stand at each place. -/
inductive Writes (coding : Coding) : Record -> Bytes -> Prop
  | empty {bytes : Bytes} (spelled : bytes ∈ coding.empty) : Writes coding [] bytes
  | entries {record : Record} {frames : List Frame} (filled : record ≠ [])
      (each : List.Forall₂ (WritesAs coding) record frames) :
      Writes coding record (Frame.closed frames)

/-- The frame as which an entry is written. -/
inductive WritesAs (coding : Coding) : Entry -> Frame -> Prop
  | plain {value : Value} (plain : value.kind ≠ .record) :
      WritesAs coding (.ofValue value) ⟨coding.code value.kind, value.kind, value.data⟩
  | nested {entries : Record} {data : Bytes} (inside : Writes coding entries data) :
      WritesAs coding (.ofValue (.record entries)) ⟨coding.code .record, .record, data⟩

end

/-! ### Frames and entries in pairs -/

private theorem forall_right_of_each {α β : Type} {R : α -> β -> Prop} {Q : β -> Prop}
    {as : List α} {bs : List β} (each : List.Forall₂ R as bs)
    (holds : ∀ a ∈ as, forall b, R a b -> Q b) : ∀ b ∈ bs, Q b := by
  induction each with
  | nil => simp
  | cons first _ ih =>
      rw [List.forall_mem_cons] at holds ⊢
      exact ⟨holds.1 _ first, ih holds.2⟩

private theorem map_eq_map_of_each {α β γ : Type} {R : α -> β -> Prop} {f : α -> γ} {g : β -> γ}
    {as : List α} {bs : List β} (each : List.Forall₂ R as bs)
    (same : ∀ a ∈ as, forall b, R a b -> g b = f a) : bs.map g = as.map f := by
  induction each with
  | nil => rfl
  | cons first _ ih =>
      rw [List.forall_mem_cons] at same
      rw [List.map_cons, List.map_cons, same.1 _ first, ih same.2]

private theorem exists_each {α β : Type} {R : α -> β -> Prop} {as : List α}
    (some : ∀ a ∈ as, Exists fun b => R a b) : Exists fun bs => List.Forall₂ R as bs := by
  induction as with
  | nil => exact ⟨[], List.Forall₂.nil⟩
  | cons a as ih =>
      rw [List.forall_mem_cons] at some
      rcases some.1 with ⟨b, first⟩
      rcases ih some.2 with ⟨bs, others⟩
      exact ⟨b :: bs, List.Forall₂.cons first others⟩

/-! ### What there is to read -/

/-- Every complete record is written somehow. -/
theorem exists_writes (coding : Coding) (some : coding.empty ≠ []) (record : Record)
    (complete : record.Complete) : Exists fun bytes => coding.Writes record bytes := by
  induction record using Record.nestedInduction with
  | step record nested =>
      by_cases filled : record = []
      · subst filled
        rcases List.exists_mem_of_ne_nil _ some with ⟨bytes, spelled⟩
        exact ⟨bytes, Writes.empty spelled⟩
      · have framed : ∀ entry ∈ record, Exists fun frame => coding.WritesAs entry frame := by
          intro entry member
          rcases complete.of_mem member with ⟨value, rfl⟩
          rcases value.record_or_plain with ⟨entries, rfl⟩ | plain
          · rcases nested entries member (complete.nested member) with ⟨data, inside⟩
            exact ⟨_, WritesAs.nested inside⟩
          · exact ⟨_, WritesAs.plain plain⟩
        rcases exists_each framed with ⟨frames, each⟩
        exact ⟨_, Writes.entries filled each⟩

theorem Writes.eq_key {record : Record} {bytes : Bytes}
    (written : present.Writes record bytes) : bytes = record.key := by
  induction record using Record.nestedInduction generalizing bytes with
  | step record nested =>
      cases written with
      | empty spelled => exact List.mem_singleton.mp spelled
      | @entries _ frames filled each =>
          have same : frames.map id = record.map Entry.frame := by
            apply map_eq_map_of_each each
            intro entry member frame as
            cases as with
            | plain plain => rfl
            | nested inside => exact congrArg (Frame.mk _ _) (nested _ member inside)
          rw [Record.key_eq_closed filled, Record.closed, ← same, List.map_id]

/-- In the present coding a record is written as its key, and as nothing else. -/
theorem writes_present_iff {record : Record} (complete : record.Complete) (bytes : Bytes) :
    present.Writes record bytes <-> bytes = record.key := by
  constructor
  · exact Writes.eq_key
  · rintro rfl
    rcases present.exists_writes (List.cons_ne_nil _ _) record complete with ⟨bytes, written⟩
    exact written.eq_key ▸ written

/-! ### Reading -/

/-- The code in which the entry is written announces its kind. -/
def Suits (coding : Coding) (dialect : Option Dialect) (entry : Entry) : Prop :=
  announced? dialect (coding.code entry.kind) = some entry.kind

theorem lowered_suits {entry : Entry} (coded : entry.kind ≠ .byte) :
    lowered.Suits (some .sherlock) entry :=
  announced?_eq_some_iff.mpr ⟨.kind entry.kind, Wire.ofCode_loweredCode coded, rfl⟩

/-- The keys of an empty record are read as one. -/
def ReadsEmpty (coding : Coding) (dialect : Option Dialect) : Prop :=
  ∀ bytes ∈ coding.empty, bytes ≠ [] ∧ AnnouncesEmpty dialect bytes

instance (coding : Coding) (dialect : Option Dialect) : Decidable (coding.ReadsEmpty dialect) :=
  inferInstanceAs (Decidable (∀ bytes ∈ coding.empty, bytes ≠ [] ∧ AnnouncesEmpty dialect bytes))

section Reading

variable {coding : Coding} {dialect : Option Dialect}

theorem Writes.ne_nil (empties : coding.ReadsEmpty dialect) {record : Record} {bytes : Bytes}
    (written : coding.Writes record bytes) : bytes ≠ [] := by
  cases written with
  | empty spelled => exact (empties bytes spelled).1
  | entries filled each =>
      cases each with
      | nil => exact absurd rfl filled
      | cons first others =>
          rw [Frame.closed_cons]
          exact List.cons_ne_nil _ _

theorem WritesAs.readable (empties : coding.ReadsEmpty dialect) {entry : Entry} {frame : Frame}
    (written : coding.WritesAs entry frame) (suits : coding.Suits dialect entry)
    (filled : entry ≠ .ofValue (.bytes [])) : frame.Readable dialect := by
  cases written with
  | @plain value plain =>
      refine ⟨suits, ?_⟩
      intro nothing
      rw [value.data_eq_nil_iff] at nothing
      exact filled (congrArg Entry.ofValue nothing)
  | nested inside => exact ⟨suits, inside.ne_nil empties⟩

/-- A record is read from every key in a coding that suits it. -/
theorem Writes.decode_eq (empties : coding.ReadsEmpty dialect) {record : Record} {bytes : Bytes}
    (written : coding.Writes record bytes) (suits : record.Everywhere (coding.Suits dialect))
    (filled : record.Everywhere (· ≠ .ofValue (.bytes []))) :
    decode dialect bytes = .ok record.withoutNul := by
  induction record using Record.nestedInduction generalizing bytes with
  | step record nested =>
      cases written with
      | empty spelled =>
          have found := frames_of_announcesEmpty (empties bytes spelled).2
          exact decode_eq_ok_iff.mpr ⟨[], found, rfl⟩
      | @entries _ written some each =>
          -- What is read of the frames is said first, and then what each of them holds.
          have readable : ∀ frame ∈ written, frame.Readable dialect := by
            refine forall_right_of_each each ?_
            intro entry member frame as
            exact as.readable empties (suits.of_mem member) (filled.of_mem member)
          have entries : written.map (Frame.entry dialect) = record.map Entry.withoutNul := by
            apply map_eq_map_of_each each
            intro entry member frame as
            cases as with
            | plain plain => exact Frame.entry_of_data plain rfl rfl
            | nested inside =>
                -- The key inside is one of the keys in the coding, whichever was chosen.
                have read := nested _ member inside (suits.nested member) (filled.nested member)
                exact Frame.entry_of_ok rfl read
          rw [record.withoutNul_eq_map, ← entries]
          exact decode_eq_ok_iff.mpr ⟨written, frames_closed readable, rfl⟩

end Reading

end Coding

/-- A complete record without single octets and without empty octets has keys in
the lowered codes, and from any of them it is read, up to the text of the
character zero.  The key of what is read is that of the record. -/
theorem decode_of_lowered_codes (record : Record) (complete : record.Complete)
    (coded : record.Everywhere (·.kind ≠ .byte))
    (filled : record.Everywhere (· ≠ .ofValue (.bytes []))) :
    (forall bytes, Coding.present.Writes record bytes <-> bytes = record.key) ∧
    (Exists fun bytes => Coding.lowered.Writes record bytes) ∧
    (forall bytes, Coding.lowered.Writes record bytes ->
      decode (some .sherlock) bytes = .ok record.withoutNul ∧
        record.withoutNul.key = record.key) := by
  refine ⟨Coding.writes_present_iff complete, ?_, ?_⟩
  · exact Coding.lowered.exists_writes (List.cons_ne_nil _ _) record complete
  · intro bytes written
    have empties : Coding.lowered.ReadsEmpty (some .sherlock) := by decide
    have suits : record.Everywhere (Coding.lowered.Suits (some .sherlock)) :=
      coded.mono fun _ => Coding.lowered_suits
    exact ⟨written.decode_eq empties suits filled, record.key_withoutNul⟩

/-- An empty record inside another, by its old key, and a second one, further
inside, by the present key. -/
theorem decode_of_lowered_codes_with_both_empty_keys :
    let inner : Record := [.ofValue (.record []), .ofValue (.bytes [separator])]
    let record : Record :=
      [.ofValue (.record []), .ofValue (.record inner), .ofValue (.text "\x00")]
    let written : List Frame :=
      [⟨5, .record, [6]⟩,
        ⟨5, .record, Frame.closed [⟨5, .record, [separator]⟩, ⟨0, .bytes, [separator]⟩]⟩,
        ⟨4, .text, [0]⟩]
    record.Complete ∧ Coding.lowered.Writes record (Frame.closed written) ∧
      decode (some .sherlock) (Frame.closed written) = .ok record.withoutNul ∧
      record.withoutNul.key = record.key := by
  intro inner record written
  have complete : record.Complete := by decide
  have coded : record.Everywhere (·.kind ≠ .byte) := by decide
  have filled : record.Everywhere (· ≠ .ofValue (.bytes [])) := by
    simp [record, inner, Record.Everywhere, Entry.EverywhereIn, Entry.Everywhere, Value.Everywhere]
  have old : Coding.lowered.Writes [] [6] := Coding.Writes.empty (by decide)
  have present : Coding.lowered.Writes [] [separator] := Coding.Writes.empty (by decide)
  have inside : Coding.lowered.Writes inner
      (Frame.closed [⟨5, .record, [separator]⟩, ⟨0, .bytes, [separator]⟩]) := by
    apply Coding.Writes.entries (List.cons_ne_nil _ _)
    apply List.Forall₂.cons (Coding.WritesAs.nested present)
    apply List.Forall₂.cons (Coding.WritesAs.plain (by decide))
    exact List.Forall₂.nil
  have whole : Coding.lowered.Writes record (Frame.closed written) := by
    apply Coding.Writes.entries (List.cons_ne_nil _ _)
    apply List.Forall₂.cons (Coding.WritesAs.nested old)
    apply List.Forall₂.cons (Coding.WritesAs.nested inside)
    apply List.Forall₂.cons (Coding.WritesAs.plain (by decide))
    exact List.Forall₂.nil
  have read := (decode_of_lowered_codes record complete coded filled).2.2 _ whole
  exact ⟨complete, whole, read⟩

end Key

/-! ## Streams in a coding -/

/-- A text is not longer than can be said in 16 bits. -/
def Entry.ShortText : Entry -> Prop
  | .ofValue (.text content) => Text.Modified.encodedLength content ≤ Field.longestShort
  | _ => True

instance : DecidablePred Entry.ShortText
  | .ofValue (.text content) =>
      inferInstanceAs (Decidable (Text.Modified.encodedLength content ≤ Field.longestShort))
  | .ofValue (.byte _) | .ofValue (.bytes _) | .ofValue (.double _) | .ofValue (.integer _)
  | .ofValue (.long _) | .ofValue (.record _) | .undecodable _ _ _ => isTrue trivial

theorem Field.octets_shortText {content : String} (short : (Entry.ofValue (.text content)).ShortText) :
    (Field.shortText content).octets =
      Bytes.ofNat 2 (Text.Modified.encodedLength content) ++ Text.Modified.encode content := by
  rw [octets, encode, if_neg (Nat.not_lt.mpr short)]
  rfl

namespace Stream
namespace Coding

/-- Texts are written behind a length of 16 bits, and the rest as it is today. -/
def shortTexts : Coding :=
  { present with text := fun content => (Field.shortText content).octets }

/-- Codes are lower by one, and the rest is written as it is today. -/
def lowered : Coding :=
  { present with code := Kind.loweredCode }

theorem shortTexts_suits (value : Value) (short : (Entry.ofValue value).ShortText) :
    shortTexts.Suits (some .legacyStrings) (.ofValue value) := by
  cases value with
  | text content =>
      refine ⟨.shortText, rfl, fun nested rest => ?_⟩
      have form : shortTexts.text content = _ := Field.octets_shortText short
      rw [form]
      exact fieldStep_of_read (Reading.shortText_append short rest)
  | _ => rfl

theorem lowered_suits (value : Value) (coded : value.kind ≠ .byte)
    (sized : (Entry.ofValue value).Sized) :
    lowered.Suits (some .sherlock) (.ofValue value) := by
  cases value with
  | text content =>
      exact ⟨.kind .text, Wire.ofCode_loweredCode coded, fun nested rest =>
        fieldStep_of_read (Reading.text_append sized rest)⟩
  | _ => exact Wire.ofCode_loweredCode coded

end Coding

/-- A complete record that is not nested too deeply is read back from both
former stream forms, with anything behind them: from the one with short texts, if
its texts are short, and from the one with lowered codes, if it has no single
octets.  The present form, in which it is written, differs from them in these
choices alone. -/
theorem read_former_streams (record : Record) (complete : record.Complete) (sized : record.Sized)
    (shallow : record.depth ≤ 512) :
    record.stream = .ok (record.streamForm .present) ∧
    (record.Everywhere Entry.ShortText -> forall rest,
      (read (some .legacyStrings) (record.streamForm .shortTexts ++ rest)).Yields record rest) ∧
    (record.Everywhere (·.kind ≠ .byte) -> forall rest,
      (read (some .sherlock) (record.streamForm .lowered ++ rest)).Yields record rest) := by
  have levels : record.depth < maxDepth + 1 := Nat.lt_succ_of_le shallow
  refine ⟨record.stream_of_complete complete sized, ?_, ?_⟩
  · intro short rest
    have suits : record.Everywhere (Coding.shortTexts.Suits (some .legacyStrings)) := by
      apply Record.Everywhere.mono _ (complete.and short)
      rintro entry ⟨⟨value, rfl⟩, short⟩
      exact Coding.shortTexts_suits value short
    exact (readRecord_streamForm record suits sized (maxDepth + 1) rest).1 levels
  · intro coded rest
    have suits : record.Everywhere (Coding.lowered.Suits (some .sherlock)) := by
      apply Record.Everywhere.mono _ (complete.and (coded.and sized.inside))
      rintro entry ⟨⟨value, rfl⟩, coded, sized⟩
      exact Coding.lowered_suits value coded sized
    exact (readRecord_streamForm record suits sized (maxDepth + 1) rest).1 levels

/-- The text of the character zero and empty octets, at the greatest depth. -/
theorem read_former_streams_at_the_limit :
    let record : Record := Record.wrapped 512 [.ofValue (.double 0x7FF0000000000001),
      .ofValue (.text "\x00"), .ofValue (.bytes [])]
    (forall rest,
      (read (some .legacyStrings) (record.streamForm .shortTexts ++ rest)).Yields record rest) ∧
    (forall rest,
      (read (some .sherlock) (record.streamForm .lowered ++ rest)).Yields record rest) := by
  intro record
  have complete : record.Complete := by
    apply Record.Complete.wrapped
    decide
  have sized : record.Sized := by
    apply Record.Sized.wrapped
    exact ⟨by decide, by decide⟩
  have depth : record.depth = 512 := Record.depth_wrapped 512 _
  have short : record.Everywhere Entry.ShortText := by
    apply Record.Everywhere.wrapped _ fun _ => trivial
    decide
  have coded : record.Everywhere (·.kind ≠ .byte) := by
    apply Record.Everywhere.wrapped _ fun _ => by rintro ⟨⟩
    decide
  have read := read_former_streams record complete sized (Nat.le_of_eq depth)
  exact ⟨read.2.1 short, read.2.2 coded⟩

end Stream
end SortKey
