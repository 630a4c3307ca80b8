import SortKey.Proofs.Key.Reading
import SortKey.Proofs.Stream.Steps

namespace SortKey

/-!
# Codes that stand for nothing

A code is reached when everything in front of it is accepted, so that reading
has to make sense of it next.  `Key.Reaches` and `Stream.Reaches` say so for
the two forms, and nothing is assumed of the octets behind the code.  Reading
fails for a code exactly when it reaches the code and the code announces no
entry, in every dialect and, for streams, at every depth.

The codes above those of the kinds are unassigned.  No dialect mentions them,
and reading refuses them with one exception: the code for text with a short
length is understood without a dialect as well.
-/

/-! ## Meanings -/

/-- Dialects mention none but the codes of kinds. -/
theorem Dialect.table_le (dialect : Dialect) : ∀ row ∈ dialect.table, row.1 ≤ 6 := by
  have low : dialect.table.all (fun row => row.1 ≤ 6) = true := by cases dialect <;> rfl
  intro row member
  exact of_decide_eq_true (List.all_eq_true.mp low row member)

theorem Kind.code_le (kind : Kind) : kind.code ≤ 6 := by
  cases kind <;> decide

theorem Kind.ofCode?_of_unassigned {code : UInt8} (unassigned : 6 < code) :
    Kind.ofCode? code = none := by
  rw [Kind.ofCode?, List.find?_eq_none]
  intro kind _ same
  have small := kind.code_le
  rw [of_decide_eq_true same] at small
  exact absurd small (UInt8.not_le.mpr unassigned)

namespace Wire

variable {dialect : Option Dialect} {code : UInt8}

/-- A code that is not understood is named as it was written. -/
theorem ofCode_error {cause : RecordError} (meaningless : ofCode dialect code = .error cause) :
    cause = .invalidCode code := by
  simp only [ofCode] at meaningless
  split at meaningless
  · cases meaningless
  · split at meaningless
    · cases meaningless
    · split at meaningless <;> cases meaningless
      rfl

/-- Dialects leave codes alone that are above those of the kinds. -/
theorem presentCode_of_unassigned (unassigned : 6 < code) : presentCode dialect code = code := by
  rcases dialect with _ | dialect
  · rfl
  · have unmentioned : dialect.table.find? (fun row => row.1 = code) = none := by
      rw [List.find?_eq_none]
      intro row member same
      have small := dialect.table_le row member
      rw [of_decide_eq_true same] at small
      exact absurd small (UInt8.not_le.mpr unassigned)
    rw [presentCode, Dialect.convert, unmentioned]

end Wire

namespace Key

variable {dialect : Option Dialect} {code : UInt8}

theorem announced?_eq_none_iff :
    announced? dialect code = none <->
      Wire.ofCode dialect code = .error (.invalidCode code) ∨
        Wire.ofCode dialect code = .ok .emptyRecord := by
  unfold announced?
  cases meaning : Wire.ofCode dialect code with
  | error cause =>
      rw [Wire.ofCode_error meaning]
      simp [Except.toOption]
  | ok wire => cases wire <;> simp [Except.toOption, Wire.entryKind?]

/-- Of the unassigned codes one announces entries. -/
theorem announced?_of_unassigned (unassigned : 6 < code) :
    announced? dialect code = none <-> code ≠ shortTextCode := by
  have unchanged : Wire.presentCode dialect code = code :=
    Wire.presentCode_of_unassigned unassigned
  rw [announced?, Wire.ofCode, unchanged, Kind.ofCode?_of_unassigned unassigned]
  by_cases short : code = shortTextCode
  · simp [short, Except.toOption, Wire.entryKind?]
  · by_cases marker : code = emptyMarker
    · simp [marker, Except.toOption, Wire.entryKind?]
      decide
    · simp [short, marker, Except.toOption]

/-! ## Codes in a key -/

/-- A code stands in a key behind frames that are accepted.  A separator there
would be half of an escape, or else the key of the empty record, and a marker
in front is such a key as well. -/
structure Follows (dialect : Option Dialect) (bytes : Bytes) (read : List Frame) (code : UInt8)
    (rest : Bytes) : Prop where
  cut : bytes = Frame.closed read ++ code :: rest
  accepted : ∀ frame ∈ read, frame.Announced dialect ∧ frame.data ≠ []
  ordinary : code ≠ separator
  noMarker : read = [] -> code ≠ emptyMarker

/-- Reading comes to the code as that of an entry.  A code in front is none if
the dialect reads it as the empty record. -/
def Reaches (dialect : Option Dialect) (bytes : Bytes) (code : UInt8) : Prop :=
  Exists fun read => (Exists fun rest => Follows dialect bytes read code rest) ∧
    (read = [] -> Wire.ofCode dialect code ≠ .ok .emptyRecord)

namespace Follows

variable {bytes rest : Bytes} {read : List Frame}

/-- A frame in front of others is accepted, whatever its data holds. -/
private theorem scanOnto_accepted {frame : Frame} {others : List Frame}
    (accepted : ∀ other ∈ frame :: others, other.Announced dialect ∧ other.data ≠ [])
    (ordinary : code ≠ separator) (before : List Frame) (rest : Bytes) :
    scanOnto dialect before frame.code (Escape.escape separator frame.data ++
        separator :: (Frame.closed others ++ code :: rest)) =
      scanBehind dialect (frame :: before)
        (separator :: (Frame.closed others ++ code :: rest)) := by
  rcases accepted frame List.mem_cons_self with ⟨known, filled⟩
  have ends : Escape.Ends separator (separator :: (Frame.closed others ++ code :: rest)) :=
    Frame.ends_closed_append
      (fun other member => (accepted other (List.mem_cons_of_mem frame member)).1)
      (by simpa using ordinary)
  rw [scanOnto_octets known before ends, if_neg (by simpa using filled)]

/-- Reading passes over accepted frames. -/
private theorem scanBehind_closed {others : List Frame}
    (accepted : ∀ frame ∈ others, frame.Announced dialect ∧ frame.data ≠ [])
    (ordinary : code ≠ separator) (before : List Frame) (rest : Bytes) :
    scanBehind dialect before (separator :: (Frame.closed others ++ code :: rest)) =
      scanOnto dialect (others.reverse ++ before) code rest := by
  induction others generalizing before with
  | nil => rfl
  | cons frame others ih =>
      rw [Frame.closed_cons, List.cons_append, List.append_assoc, List.cons_append, scanBehind,
        scanOnto_accepted accepted ordinary,
        ih fun other member => accepted other (List.mem_cons_of_mem frame member)]
      simp

/-- What becomes of the key depends on the octets from the code on. -/
theorem frames_eq (follows : Follows dialect bytes read code rest) :
    frames dialect bytes = (scanOnto dialect read.reverse code rest).outcome := by
  rw [follows.cut]
  cases read with
  | nil =>
      have front : ¬ (code = separator ∨ code = emptyMarker) :=
        not_or.mpr ⟨follows.ordinary, follows.noMarker rfl⟩
      rw [Frame.closed_nil, List.nil_append, frames, if_neg front, scan, List.reverse_nil]
  | cons first others =>
      have known := (follows.accepted first List.mem_cons_self).1
      have front : ¬ (first.code = separator ∨ first.code = emptyMarker) :=
        not_or.mpr ⟨known.code_ne_separator, known.code_ne_emptyMarker⟩
      have acceptedOthers : ∀ frame ∈ others, frame.Announced dialect ∧ frame.data ≠ [] :=
        fun frame member => follows.accepted frame (List.mem_cons_of_mem first member)
      rw [Frame.closed_cons, List.cons_append, List.append_assoc, List.cons_append, frames,
        if_neg front, scan, scanOnto_accepted follows.accepted follows.ordinary,
        scanBehind_closed acceptedOthers follows.ordinary, List.reverse_cons]

/-- Behind a frame with data, the next code stands behind one more accepted
frame. -/
theorem next (follows : Follows dialect bytes read code rest) {kind : Kind}
    (known : announced? dialect code = some kind) {data more : Bytes} (filled : data ≠ [])
    {following : UInt8} (different : following ≠ separator)
    (written : rest = Escape.escape separator data ++ separator :: following :: more) :
    Follows dialect bytes (read ++ [⟨code, kind, data⟩]) following more := by
  refine ⟨?_, ?_, different, by simp⟩
  · rw [follows.cut, written]
    simp [Frame.closed, Frame.octets]
  · intro frame member
    rcases List.mem_append.mp member with before | last
    · exact follows.accepted frame before
    · rw [List.mem_singleton.mp last]
      exact ⟨known, filled⟩

private theorem next_of_drop (follows : Follows dialect bytes read code rest) {kind : Kind}
    (known : announced? dialect code = some kind)
    (filled : Escape.unescape separator (rest.take (Escape.findSeparator separator rest)) ≠ [])
    {lone following : UInt8} {more : Bytes}
    (tail : rest.drop (Escape.findSeparator separator rest) = lone :: following :: more) :
    Follows dialect bytes
      (read ++ [⟨code, kind,
        Escape.unescape separator (rest.take (Escape.findSeparator separator rest))⟩])
      following more := by
  rcases Escape.cut_findSeparator separator rest with ⟨cut, ends⟩
  rw [tail] at cut ends
  rcases ends with impossible | ⟨behind, separated, different⟩
  · cases impossible
  · rcases List.cons.inj separated with ⟨rfl, rfl⟩
    exact follows.next known filled (by simpa using different) cut

/-- A code that announces entries is reached where it stands. -/
theorem reaches_of_announced (follows : Follows dialect bytes read code rest) {kind : Kind}
    (known : announced? dialect code = some kind) : Reaches dialect bytes code := by
  refine ⟨read, ⟨rest, follows⟩, fun _ marker => ?_⟩
  rw [announced?_eq_none_iff.mpr (Or.inr marker)] at known
  cases known

/-- The codes of the frames of a scan are reached. -/
private theorem reaches_of_mem_scanOnto (follows : Follows dialect bytes read.reverse code rest)
    (before : ∀ frame ∈ read, Reaches dialect bytes frame.code) :
    ∀ frame ∈ (scanOnto dialect read code rest).frames, Reaches dialect bytes frame.code := by
  fun_induction scanOnto dialect read code rest with
  | case1 | case3 | case4 => simpa using before
  | case2 => simp
  | case5 read code rest wire meaning kind ofKind pos data filled frames _
  | case6 read code rest wire meaning kind ofKind pos data filled frames _ _ =>
      have last := follows.reaches_of_announced (announced?_eq_some_iff.mpr ⟨wire, meaning, ofKind⟩)
      have both : ∀ frame ∈ frames, Reaches dialect bytes frame.code :=
        List.forall_mem_cons.mpr ⟨last, before⟩
      simpa only [List.mem_reverse] using both
  | case7 read code rest wire meaning kind ofKind pos data filled frames lone next more tail ih =>
      have known : announced? dialect code = some kind :=
        announced?_eq_some_iff.mpr ⟨wire, meaning, ofKind⟩
      apply ih
      · rw [List.reverse_cons]
        exact follows.next_of_drop known (by simpa using filled) tail
      · exact List.forall_mem_cons.mpr ⟨follows.reaches_of_announced known, before⟩

/-- A code for which a scan ends is reached and announces nothing. -/
private theorem reaches_of_scanOnto {found : UInt8}
    (follows : Follows dialect bytes read.reverse code rest)
    (refused : (scanOnto dialect read code rest).ending = .invalidCode found) :
    Reaches dialect bytes found ∧ announced? dialect found = none := by
  fun_induction scanOnto dialect read code rest with
  | case1 read code rest cause meaningless =>
      cases refused
      have named := Wire.ofCode_error meaningless
      subst named
      refine ⟨⟨_, ⟨_, follows⟩, ?_⟩, announced?_eq_none_iff.mpr (Or.inl meaningless)⟩
      rw [meaningless]
      simp
  | case2 | case4 | case5 | case6 => cases refused
  | case3 read code rest wire meaning noKind notFirst =>
      have unknown : announced? dialect code = none := by
        rw [announced?, meaning]
        exact noKind
      cases refused
      refine ⟨⟨_, ⟨_, follows⟩, ?_⟩, unknown⟩
      intro first
      rw [List.reverse_eq_nil_iff] at first
      simp [first] at notFirst
  | case7 read code rest wire meaning kind ofKind pos data filled frames lone next more tail ih =>
      have known : announced? dialect code = some kind :=
        announced?_eq_some_iff.mpr ⟨wire, meaning, ofKind⟩
      apply ih _ refused
      rw [List.reverse_cons]
      exact follows.next_of_drop known (by simpa using filled) tail

end Follows

/-- A key is empty, or its first code stands behind nothing. -/
theorem frames_nil_or_follows (dialect : Option Dialect) (bytes : Bytes) :
    frames dialect bytes = .ok [] ∨
      Exists fun code => Exists fun rest => Follows dialect bytes [] code rest := by
  cases bytes with
  | nil => exact Or.inl rfl
  | cons code rest =>
      by_cases front : code = separator ∨ code = emptyMarker
      · exact Or.inl (if_pos front)
      · rcases not_or.mp front with ⟨ordinary, noMarker⟩
        exact Or.inr ⟨code, rest, rfl, by simp, ordinary, fun _ => noMarker⟩

/-- The codes of accepted frames are reached. -/
theorem reaches_of_mem_frames {bytes : Bytes} {found : List Frame}
    (accepted : frames dialect bytes = .ok found) {frame : Frame} (member : frame ∈ found) :
    Reaches dialect bytes frame.code := by
  rcases frames_nil_or_follows dialect bytes with empty | ⟨code, rest, follows⟩
  · rw [empty] at accepted
    cases accepted
    cases member
  · rw [follows.frames_eq] at accepted
    have start : Follows dialect bytes (List.reverse []) code rest := follows
    apply start.reaches_of_mem_scanOnto (by simp)
    unfold Scan.outcome at accepted
    split at accepted <;> cases accepted
    · exact member
    · exact member
    · cases member

theorem Scan.outcome_eq_invalidCode_iff {scan : Scan} :
    scan.outcome = .error (.invalidCode code) <-> scan.ending = .invalidCode code := by
  unfold Scan.outcome
  cases scan.ending <;> simp

/-- Reading a key fails for a code exactly when it reaches the code and the
code announces nothing. -/
theorem decode_eq_invalidCode_iff {bytes : Bytes} :
    decode dialect bytes = .error (.invalidCode code) <->
      Reaches dialect bytes code ∧ announced? dialect code = none := by
  rw [decode_eq_error_iff]
  constructor
  · intro refused
    rcases frames_nil_or_follows dialect bytes with empty | ⟨first, rest, follows⟩
    · rw [empty] at refused
      cases refused
    · rw [follows.frames_eq, Scan.outcome_eq_invalidCode_iff] at refused
      have start : Follows dialect bytes (List.reverse []) first rest := follows
      exact start.reaches_of_scanOnto refused
  · rintro ⟨⟨read, ⟨rest, follows⟩, entry⟩, unknown⟩
    have refused : ¬ (read.reverse.isEmpty && (Wire.ofCode dialect code).isOk) = true := by
      intro marker
      rcases Bool.and_eq_true_iff.mp marker with ⟨front, meant⟩
      rcases announced?_eq_none_iff.mp unknown with meaningless | meaning
      · rw [meaningless] at meant
        cases meant
      · exact entry (by simpa using front) meaning
    rw [follows.frames_eq, Scan.outcome_eq_invalidCode_iff, scanOnto_of_unannounced unknown,
      if_neg refused]

/-- A frame of kind record is undecodable for the cause for which its data is
refused. -/
theorem Frame.entry_eq_undecodable_iff {frame : Frame} (isRecord : frame.kind = .record)
    {cause : RecordError} :
    frame.entry dialect = .undecodable .record frame.data cause <->
      decode dialect frame.data = .error cause := by
  cases read : decode dialect frame.data with
  | error other => simp [frame.entry_of_error isRecord read]
  | ok record => simp [frame.entry_of_ok isRecord read]

end Key

/-! ## Codes in a stream -/

theorem RecordError.ofByteError_ne_invalidCode (cause : ByteError) (code : UInt8) :
    ofByteError cause ≠ .invalidCode code := by
  cases cause <;> simp [ofByteError]

namespace Stream

variable {dialect : Option Dialect} {nested : Bytes -> Step Record}

/-- Reading comes to the code as that of an entry, of the record itself or of
one nested in it.  The octets are those from the count of the record on. -/
inductive Reaches (dialect : Option Dialect) : Nat -> Bytes -> UInt8 -> Prop
  | own {levels : Nat} {count : Int32} {bytes behind rest : Bytes} {entries : List Entry}
      {code : UInt8} (counted : Reading.int32 bytes = (.ok count, behind))
      (accepted : Accepted (readRecord dialect levels) dialect entries behind (code :: rest))
      (wanted : entries.length < count.toInt.toNat) : Reaches dialect (levels + 1) bytes code
  | nested {levels : Nat} {count : Int32} {bytes behind rest : Bytes} {entries : List Entry}
      {outer code : UInt8} (counted : Reading.int32 bytes = (.ok count, behind))
      (accepted : Accepted (readRecord dialect levels) dialect entries behind (outer :: rest))
      (wanted : entries.length < count.toInt.toNat)
      (isRecord : Wire.ofCode dialect outer = .ok (.kind .record))
      (inside : Reaches dialect levels rest code) : Reaches dialect (levels + 1) bytes code

theorem fieldStep_ne_invalidCode {α : Type} (reading : Reading α) (make : α -> Value)
    (bytes : Bytes) (code : UInt8) :
    (fieldStep reading make bytes).result ≠ .error (.invalidCode code) := by
  rcases read : reading bytes with ⟨content | cause, rest⟩
  · simp [fieldStep, read, RecordError.ofByteError_ne_invalidCode]
  · simp [fieldStep, read]

/-- A value is refused for a code if its own code stands for an empty record,
or if it is a record that is refused for the code. -/
theorem readValue_eq_invalidCode_iff {own code : UInt8} {wire : Wire} {bytes : Bytes} :
    (readValue nested own wire bytes).result = .error (.invalidCode code) <->
      wire = .emptyRecord ∧ own = code ∨
        wire = .kind .record ∧ (nested bytes).result = .error (.invalidCode code) := by
  cases wire with
  | shortText => simp [readValue, fieldStep_ne_invalidCode]
  | emptyRecord => simp [readValue]
  | kind kind =>
      cases kind with
      | record =>
          cases read : (nested bytes).result <;> simp [readValue, read, Except.map]
      | _ => simp [readValue, fieldStep_ne_invalidCode]

/-- An entry is refused for its own code, or for one inside its record. -/
theorem readEntry_eq_invalidCode_iff {own code : UInt8} {rest : Bytes} :
    (readEntry nested dialect (own :: rest)).result = .error (.invalidCode code) <->
      own = code ∧ Key.announced? dialect code = none ∨
        Wire.ofCode dialect own = .ok (.kind .record) ∧
          (nested rest).result = .error (.invalidCode code) := by
  cases meaning : Wire.ofCode dialect own with
  | error cause =>
      have named := Wire.ofCode_error meaning
      subst named
      rw [readEntry_of_meaningless meaning]
      constructor
      · intro refused
        cases refused
        exact Or.inl ⟨rfl, Key.announced?_eq_none_iff.mpr (Or.inl meaning)⟩
      · rintro (⟨rfl, _⟩ | ⟨impossible, _⟩)
        · rfl
        · cases impossible
  | ok wire =>
      have through : (readEntry nested dialect (own :: rest)).result = .error (.invalidCode code) <->
          (readValue nested own wire rest).result = .error (.invalidCode code) := by
        rw [(readEntry_of_meaning nested meaning rest).1]
        cases (readValue nested own wire rest).result <;> simp [Except.map]
      rw [through, readValue_eq_invalidCode_iff, Except.ok.injEq, and_comm]
      apply or_congr _ Iff.rfl
      apply and_congr_right
      rintro rfl
      simp [Key.announced?_eq_none_iff, meaning]

theorem readEntry_nil_ne_invalidCode (code : UInt8) :
    (readEntry nested dialect []).result ≠ .error (.invalidCode code) := by
  simp [readEntry, Reading.octet, RecordError.ofByteError_ne_invalidCode]

private theorem not_neg_of_wanted {count : Int32} {read : Nat} (wanted : read < count.toInt.toNat) :
    ¬ count < 0 := by
  rw [Int32.lt_iff_toInt_lt, Int32.toInt_zero]
  omega

/-- Reading a stream fails for a code exactly when it reaches the code and the
code announces nothing. -/
theorem readRecord_eq_invalidCode_iff {levels : Nat} {bytes : Bytes} {code : UInt8} :
    (readRecord dialect levels bytes).result = .error (.invalidCode code) <->
      Reaches dialect levels bytes code ∧ Key.announced? dialect code = none := by
  constructor
  · intro refused
    induction levels generalizing bytes with
    | zero => cases refused
    | succ levels ih =>
        rcases counted : Reading.int32 bytes with ⟨cause | count, behind⟩
        · simp [readRecord, counted, RecordError.ofByteError_ne_invalidCode] at refused
        · by_cases negative : count < 0
          · simp [readRecord, counted, negative] at refused
          · rw [readRecord_succ_of_count counted negative, readEntriesOnto_eq_error_iff] at refused
            rcases refused with ⟨entries, left, accepted, wanted, refused⟩
            cases left with
            | nil => exact absurd refused (readEntry_nil_ne_invalidCode code)
            | cons own rest =>
                rcases readEntry_eq_invalidCode_iff.mp refused with ⟨rfl, unknown⟩ | ⟨isRecord, inner⟩
                · exact ⟨.own counted accepted wanted, unknown⟩
                · rcases ih inner with ⟨inside, unknown⟩
                  exact ⟨.nested counted accepted wanted isRecord inside, unknown⟩
  · rintro ⟨reached, unknown⟩
    induction reached with
    | own counted accepted wanted =>
        rw [readRecord_succ_of_count counted (not_neg_of_wanted wanted)]
        exact accepted.refused (readEntry_eq_invalidCode_iff.mpr (Or.inl ⟨rfl, unknown⟩)) wanted _
    | nested counted accepted wanted isRecord inside ih =>
        rw [readRecord_succ_of_count counted (not_neg_of_wanted wanted)]
        exact accepted.refused (readEntry_eq_invalidCode_iff.mpr (Or.inr ⟨isRecord, ih unknown⟩))
          wanted _

theorem readExact_eq_invalidCode_iff {bytes : Bytes} {code : UInt8} :
    (readExact bytes).result = .error (.invalidCode code) <->
      (read none bytes).result = .error (.invalidCode code) := by
  rcases step : read none bytes with ⟨record | cause, rest, events⟩
  · simp [readExact, step]
  · cases rest <;> simp [readExact, step]

end Stream

/-! ## Unassigned codes -/

/-- Reading refuses an unassigned code wherever it reaches it, in a key, in the
data of a nested record and at any depth of a stream, and names the code, unless
it is that for text with a short length.  So nothing is read from octets in which
another is reached, and no frame that is accepted has another. -/
theorem reached_unassigned_refused_iff (dialect : Option Dialect) {code : UInt8}
    (unassigned : 6 < code) :
    (∀ bytes, Key.Reaches dialect bytes code ->
      (Key.decode dialect bytes = .error (.invalidCode code) <-> code ≠ shortTextCode)) ∧
    (∀ bytes found, Key.frames dialect bytes = .ok found ->
      ∀ frame ∈ found, frame.code = code -> code = shortTextCode) ∧
    (∀ frame : Key.Frame, frame.kind = .record -> Key.Reaches dialect frame.data code ->
      (frame.entry dialect = .undecodable .record frame.data (.invalidCode code) <->
        code ≠ shortTextCode)) ∧
    (∀ bytes, Stream.Reaches dialect (Stream.maxDepth + 1) bytes code ->
      ((Stream.read dialect bytes).result = .error (.invalidCode code) <->
        code ≠ shortTextCode)) ∧
    (∀ bytes, Stream.Reaches none (Stream.maxDepth + 1) bytes code ->
      ((Stream.readExact bytes).result = .error (.invalidCode code) <->
        code ≠ shortTextCode)) := by
  have inKey : ∀ bytes, Key.Reaches dialect bytes code ->
      (Key.decode dialect bytes = .error (.invalidCode code) <-> code ≠ shortTextCode) := by
    intro bytes reached
    rw [Key.decode_eq_invalidCode_iff, Key.announced?_of_unassigned unassigned]
    exact and_iff_right reached
  have inStream : ∀ dialect bytes, Stream.Reaches dialect (Stream.maxDepth + 1) bytes code ->
      ((Stream.read dialect bytes).result = .error (.invalidCode code) <->
        code ≠ shortTextCode) := by
    intro dialect bytes reached
    rw [Stream.read, Stream.readRecord_eq_invalidCode_iff, Key.announced?_of_unassigned unassigned]
    exact and_iff_right reached
  refine ⟨inKey, ?_, ?_, inStream dialect, ?_⟩
  · rintro bytes found accepted frame member rfl
    have reached := Key.reaches_of_mem_frames accepted member
    by_cases short : frame.code = shortTextCode
    · exact short
    · have refused := Key.decode_eq_error_iff.mp ((inKey bytes reached).mpr short)
      rw [accepted] at refused
      cases refused
  · intro frame isRecord reached
    rw [Key.Frame.entry_eq_undecodable_iff isRecord]
    exact inKey frame.data reached
  · intro bytes reached
    rw [Stream.readExact_eq_invalidCode_iff]
    exact inStream none bytes reached

/-- In old codes, a code behind octets; and in a stream, one behind an octet of a
nested record. -/
theorem reached_unassigned_refused_behind_entries :
    Key.decode (some .sherlock) [0, 1, separator, 0x42] = .error (.invalidCode 0x42) ∧
      (Stream.readExact [0, 0, 0, 1, 6, 0, 0, 0, 2, 0, 7, 0x42]).result =
        .error (.invalidCode 0x42) := by
  have inKey : Key.Reaches (some .sherlock) [0, 1, separator, 0x42] 0x42 := by
    refine ⟨[⟨0, .bytes, [1]⟩], ⟨[], rfl, ?_, by decide, by simp⟩, by simp⟩
    intro frame member
    rw [List.mem_singleton.mp member]
    exact ⟨rfl, by simp⟩
  have inStream : Stream.Reaches none (Stream.maxDepth + 1)
      [0, 0, 0, 1, 6, 0, 0, 0, 2, 0, 7, 0x42] 0x42 := by
    have octet : (Stream.readEntry (Stream.readRecord none 511) none [0, 7, 0x42]).Yields
        (.ofValue (.byte 7)) [0x42] := ⟨rfl, rfl⟩
    refine .nested rfl (.none [6, 0, 0, 0, 2, 0, 7, 0x42]) (by decide) rfl ?_
    exact .own rfl (.next octet (.none [0x42])) (by decide)
  have unassigned : (6 : UInt8) < 0x42 := by decide
  have long : (0x42 : UInt8) ≠ shortTextCode := by decide
  exact ⟨((reached_unassigned_refused_iff (some .sherlock) unassigned).1 _ inKey).mpr long,
    ((reached_unassigned_refused_iff none unassigned).2.2.2.2 _ inStream).mpr long⟩

/-- Without a dialect and in old codes, the code for text with a short length
is that of a text. -/
theorem reached_unassigned_understood :
    (Key.Reaches none [shortTextCode, 97, separator] shortTextCode ∧
      Key.decode none [shortTextCode, 97, separator] = .ok [.ofValue (.text "a")]) ∧
    (Key.Reaches (some .sherlock) [shortTextCode, 97, separator] shortTextCode ∧
      Key.decode (some .sherlock) [shortTextCode, 97, separator] = .ok [.ofValue (.text "a")]) ∧
    (Stream.Reaches none (Stream.maxDepth + 1) [0, 0, 0, 1, shortTextCode, 0, 1, 97]
        shortTextCode ∧
      (Stream.readExact [0, 0, 0, 1, shortTextCode, 0, 1, 97]).result =
        .ok [.ofValue (.text "a")]) := by
  have inKey : forall dialect, Key.Reaches dialect [shortTextCode, 97, separator] shortTextCode ∧
      Key.decode dialect [shortTextCode, 97, separator] = .ok [.ofValue (.text "a")] := by
    intro dialect
    have known : Key.announced? dialect shortTextCode = some .text := by
      rcases dialect with _ | dialect
      · rfl
      · cases dialect <;> rfl
    have start : Key.Follows dialect [shortTextCode, 97, separator] [] shortTextCode
        [97, separator] := ⟨rfl, by simp, by decide, fun _ => by decide⟩
    refine ⟨start.reaches_of_announced known, ?_⟩
    rw [Key.decode_eq_ok_iff]
    refine ⟨[⟨shortTextCode, .text, [97]⟩], ?_, rfl⟩
    exact Key.frames_keyOfFrames [⟨shortTextCode, .text, [97]⟩]
      (List.forall_mem_singleton.mpr known)
  exact ⟨inKey none, inKey (some .sherlock),
    .own rfl (.none [shortTextCode, 0, 1, 97]) (by decide), rfl⟩

end SortKey
