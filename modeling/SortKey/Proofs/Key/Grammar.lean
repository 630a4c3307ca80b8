import Mathlib.Data.List.Forall2
import SortKey.Proofs.Codes

namespace SortKey
namespace Key

/-!
# The grammar of a key

Octets that do not stand for the empty record can be cut in exactly one way into
pieces, with a separator between any two and possibly one more at the end.  A
piece is a code and a body.  The code is no separator, and in the body separators
come in pairs, so that a lone separator always stands between pieces or at the
end.

Reading a key is reading its pieces.  It does not matter whether the last
separator is there.  All pieces have to be good: each code announces an entry and
each body holds something.  Then each piece gives one entry, of the kind that its
code announces and with what its body holds, and nothing that stands around a piece
has a part in it.  Otherwise the first piece that is not good decides.
-/

/-! ## Pieces -/

/-- A code and the octets behind it, still escaped. -/
structure Piece where
  code : UInt8
  body : Bytes
deriving DecidableEq, Repr

namespace Piece

def octets (piece : Piece) : Bytes :=
  piece.code :: piece.body

/-- Pieces with a separator between any two, and with or without one at the
end. -/
def joined (pieces : List Piece) (terminated : Bool) : Bytes :=
  [separator].intercalate (pieces.map octets) ++ if terminated then [separator] else []

/-- A separator in a piece is half of a pair, and no such pair begins with the
code. -/
structure WellFormed (piece : Piece) : Prop where
  code_ne_separator : piece.code ≠ separator
  paired : Escape.Paired separator piece.body

instance : DecidablePred WellFormed := fun piece =>
  decidable_of_iff (piece.code ≠ separator ∧ Escape.Paired separator piece.body)
    ⟨fun ⟨code, body⟩ => ⟨code, body⟩, fun ⟨code, body⟩ => ⟨code, body⟩⟩

/-- What stands behind the body of a piece, from the pieces that follow. -/
def behind (terminated : Bool) : List Piece -> Bytes
  | [] => if terminated then [separator] else []
  | piece :: pieces => separator :: joined (piece :: pieces) terminated

theorem joined_cons (piece : Piece) (pieces : List Piece) (terminated : Bool) :
    joined (piece :: pieces) terminated =
      piece.code :: (piece.body ++ behind terminated pieces) := by
  cases pieces with
  | nil => simp [joined, octets, behind]
  | cons next pieces =>
      simp [joined, octets, behind, List.intercalate_cons_cons]

/-- What stands behind a body is not taken for more of it. -/
theorem ends_behind {pieces : List Piece} (each : ∀ piece ∈ pieces, piece.WellFormed)
    (terminated : Bool) : Escape.Ends separator (behind terminated pieces) := by
  cases pieces with
  | nil =>
      cases terminated with
      | false => exact Or.inl rfl
      | true => exact Or.inr ⟨[], rfl, by simp⟩
  | cons piece pieces =>
      refine Or.inr ⟨_, rfl, ?_⟩
      rw [joined_cons, List.head?_cons]
      intro same
      exact (each piece List.mem_cons_self).code_ne_separator (Option.some.inj same)

/-- Whether pieces follow can be told from what stands behind a body. -/
private theorem behind_eq_behind {pieces others : List Piece} {terminated ended : Bool}
    (same : behind terminated pieces = behind ended others) :
    (pieces = [] ∧ others = [] ∧ terminated = ended) ∨
      (pieces ≠ [] ∧ others ≠ [] ∧ joined pieces terminated = joined others ended) := by
  cases pieces with
  | nil =>
      cases others with
      | nil =>
          refine Or.inl ⟨rfl, rfl, ?_⟩
          cases terminated <;> cases ended <;> simp_all [behind]
      | cons q others =>
          rw [behind, behind, joined_cons] at same
          cases terminated <;> simp at same
  | cons p pieces =>
      cases others with
      | nil =>
          rw [behind, behind, joined_cons] at same
          cases ended <;> simp at same
      | cons q others =>
          exact Or.inr ⟨List.cons_ne_nil p pieces, List.cons_ne_nil q others,
            (List.cons.inj same).2⟩

/-- The pieces, and whether there is a last separator, can be told from the
octets. -/
theorem joined_injective {pieces others : List Piece} {terminated ended : Bool}
    (each : ∀ piece ∈ pieces, piece.WellFormed) (eachOther : ∀ piece ∈ others, piece.WellFormed)
    (filled : pieces ≠ []) (filledOther : others ≠ [])
    (same : joined pieces terminated = joined others ended) :
    pieces = others ∧ terminated = ended := by
  induction pieces generalizing others with
  | nil => exact absurd rfl filled
  | cons p pieces ih =>
      rcases others with _ | ⟨q, others⟩
      · exact absurd rfl filledOther
      rw [List.forall_mem_cons] at each eachOther
      rw [joined_cons, joined_cons, List.cons.injEq, ← each.1.paired.escape_unescape,
        ← eachOther.1.paired.escape_unescape] at same
      rcases same with ⟨codes, behinds⟩
      rcases Escape.escape_append_inj (ends_behind each.2 terminated)
        (ends_behind eachOther.2 ended) behinds with ⟨data, tails⟩
      have bodies := congrArg (Escape.escape separator) data
      rw [each.1.paired.escape_unescape, eachOther.1.paired.escape_unescape] at bodies
      have first : p = q := by
        cases p
        cases q
        rw [Piece.mk.injEq]
        exact ⟨codes, bodies⟩
      rcases behind_eq_behind tails with ⟨rfl, rfl, ends⟩ | ⟨some, someOther, rest⟩
      · exact ⟨by rw [first], ends⟩
      · rcases ih each.2 eachOther.2 some someOther rest with ⟨others, ends⟩
        exact ⟨by rw [first, others], ends⟩

end Piece

/-! ## Cutting -/

/-- A way to cut octets into pieces. -/
structure Cut (bytes : Bytes) (pieces : List Piece) (terminated : Bool) : Prop where
  filled : pieces ≠ []
  whole : bytes = Piece.joined pieces terminated
  each : ∀ piece ∈ pieces, piece.WellFormed

theorem Cut.unique {bytes : Bytes} {pieces others : List Piece} {terminated ended : Bool}
    (cut : Cut bytes pieces terminated) (other : Cut bytes others ended) :
    others = pieces ∧ ended = terminated :=
  Piece.joined_injective other.each cut.each other.filled cut.filled
    (other.whole.symm.trans cut.whole)

/-- All octets can be cut that do not begin with a separator. -/
theorem exists_cut {code : UInt8} (ordinary : code ≠ separator) (rest : Bytes) :
    Exists fun pieces => Exists fun terminated => Cut (code :: rest) pieces terminated := by
  induction size : rest.length using Nat.strongRecOn generalizing code rest with
  | ind size ih =>
      subst size
      rcases Escape.cut_findSeparator separator rest with ⟨whole, ends⟩
      generalize Escape.unescape separator
        (rest.take (Escape.findSeparator separator rest)) = data at whole
      generalize rest.drop (Escape.findSeparator separator rest) = tail at whole ends
      have first : Piece.WellFormed ⟨code, Escape.escape separator data⟩ :=
        ⟨ordinary, Escape.paired_escape data⟩
      have alone : ∀ piece ∈ [Piece.mk code (Escape.escape separator data)], piece.WellFormed :=
        List.forall_mem_singleton.mpr first
      rcases ends with rfl | ⟨_ | ⟨next, more⟩, rfl, different⟩
      · refine ⟨_, false, List.cons_ne_nil _ [], ?_, alone⟩
        rw [whole, Piece.joined_cons]
        rfl
      · refine ⟨_, true, List.cons_ne_nil _ [], ?_, alone⟩
        rw [whole, Piece.joined_cons]
        rfl
      · have shorter : more.length < rest.length := by
          rw [whole]
          simp only [List.length_append, List.length_cons]
          omega
        rcases ih more.length shorter (by simpa using different) more rfl with
          ⟨_ | ⟨piece, pieces⟩, terminated, cut⟩
        · exact absurd rfl cut.filled
        · refine ⟨⟨code, Escape.escape separator data⟩ :: piece :: pieces, terminated,
            List.cons_ne_nil _ _, ?_, List.forall_mem_cons.mpr ⟨first, cut.each⟩⟩
          rw [whole, cut.whole, Piece.joined_cons _ (piece :: pieces)]
          rfl

/-! ## What pieces mean -/

/-- The code of a piece announces an entry, and there is something in its
body. -/
def Piece.Good (dialect : Option Dialect) (piece : Piece) : Prop :=
  announced? dialect piece.code ≠ none ∧ piece.body ≠ []

instance (dialect : Option Dialect) : DecidablePred (Piece.Good dialect) :=
  fun piece => inferInstanceAs (Decidable (announced? dialect piece.code ≠ none ∧ piece.body ≠ []))

/-- All pieces are good, or there is a first one that is not. -/
theorem Piece.good_or_first_bad (dialect : Option Dialect) (pieces : List Piece) :
    (∀ piece ∈ pieces, piece.Good dialect) ∨
      Exists fun earlier => Exists fun piece => Exists fun later =>
        pieces = earlier ++ piece :: later ∧ (∀ before ∈ earlier, before.Good dialect) ∧
          ¬ piece.Good dialect := by
  cases found : pieces.find? (fun piece => ¬ piece.Good dialect) with
  | none => exact Or.inl (by simpa using List.find?_eq_none.mp found)
  | some piece =>
      rcases List.find?_eq_some_iff_append.mp found with ⟨bad, earlier, later, cut, good⟩
      exact Or.inr ⟨earlier, piece, later, cut, by simpa using good, by simpa using bad⟩

/-- The frame is what a good piece is read as. -/
structure Piece.Means (dialect : Option Dialect) (piece : Piece) (frame : Frame) : Prop where
  code : frame.code = piece.code
  kind : announced? dialect piece.code = some frame.kind
  data : frame.data = Escape.unescape separator piece.body

/-- The entry is of the kind of a frame and holds its data: the value that is written in
this data, or the data itself where there is no such value.  Of the two texts that share
their data it is the empty one.  A record is what is read from the data in its turn. -/
structure Frame.HeldBy (dialect : Option Dialect) (frame : Frame) (entry : Entry) : Prop where
  kind : entry.kind = frame.kind
  data : frame.kind ≠ .record -> entry.data = frame.data
  value : forall value : Value, value.kind ≠ .record -> value.kind = frame.kind ->
    value.data = frame.data -> entry = .ofValue value.withoutNul
  noValue : frame.kind ≠ .record ->
    (forall value : Value, value.kind = frame.kind -> value.data ≠ frame.data) ->
    Exists fun cause => entry = .undecodable frame.kind frame.data cause
  record : frame.kind = .record -> forall inner, decode dialect frame.data = .ok inner ->
    entry = .ofValue (.record inner)
  noRecord : frame.kind = .record -> forall cause, decode dialect frame.data = .error cause ->
    entry = .undecodable .record frame.data cause

namespace Frame

/-- A frame as it is written. -/
def piece (frame : Frame) : Piece :=
  ⟨frame.code, Escape.escape separator frame.data⟩

/-- The frame can be read from the piece as which it is written. -/
def Readable (dialect : Option Dialect) (frame : Frame) : Prop :=
  frame.Announced dialect ∧ frame.data ≠ []

theorem piece_wellFormed {dialect : Option Dialect} {frame : Frame}
    (known : frame.Announced dialect) : frame.piece.WellFormed :=
  ⟨known.code_ne_separator, Escape.paired_escape frame.data⟩

theorem piece_means {dialect : Option Dialect} {frame : Frame}
    (known : frame.Announced dialect) : frame.piece.Means dialect frame :=
  ⟨rfl, known, (Escape.unescape_escape frame.data).symm⟩

/-- The entry of a frame with data holds it. -/
theorem heldBy_entry (dialect : Option Dialect) {frame : Frame} (filled : frame.data ≠ []) :
    frame.HeldBy dialect (frame.entry dialect) where
  kind := frame.kind_entry dialect
  data plain := data_entry plain filled
  value _ plain kind data := entry_of_data plain kind data
  noValue plain lacking := by
    rw [entry]
    cases read : frame.value dialect with
    | error cause => exact ⟨cause, rfl⟩
    | ok value =>
        exact absurd (data_of_valueOfData plain filled read)
          (lacking value (kind_of_valueOfData read))
  record isRecord _ read := entry_of_ok isRecord read
  noRecord isRecord _ refused := entry_of_error isRecord refused

end Frame

namespace Piece

variable {dialect : Option Dialect}

/-- A good piece is that of a frame. -/
theorem Good.exists_frame {piece : Piece} (good : piece.Good dialect)
    (wellFormed : piece.WellFormed) :
    Exists fun frame => frame.piece = piece ∧ Frame.Readable dialect frame := by
  rcases Option.ne_none_iff_exists'.mp good.1 with ⟨kind, known⟩
  have escaped := wellFormed.paired.escape_unescape
  refine ⟨⟨piece.code, kind, Escape.unescape separator piece.body⟩, ?_, known, ?_⟩
  · rw [Frame.piece, escaped]
  · intro none
    have nothing : Escape.escape separator [] = piece.body := by
      rw [← none]
      exact escaped
    exact good.2 nothing.symm

theorem exists_frames {pieces : List Piece} (good : ∀ piece ∈ pieces, piece.Good dialect)
    (each : ∀ piece ∈ pieces, piece.WellFormed) :
    Exists fun found : List Frame => found.map Frame.piece = pieces ∧
      ∀ frame ∈ found, Frame.Readable dialect frame := by
  induction pieces with
  | nil => exact ⟨[], rfl, by simp⟩
  | cons piece pieces ih =>
      rw [List.forall_mem_cons] at good each
      rcases good.1.exists_frame each.1 with ⟨frame, rfl, readable⟩
      rcases ih good.2 each.2 with ⟨found, rfl, others⟩
      exact ⟨frame :: found, rfl, List.forall_mem_cons.mpr ⟨readable, others⟩⟩

/-- Frames in front of a piece are written with their separators. -/
theorem joined_append (read : List Frame) (piece : Piece) (later : List Piece)
    (terminated : Bool) :
    joined (read.map Frame.piece ++ piece :: later) terminated =
      Frame.closed read ++ piece.code :: (piece.body ++ behind terminated later) := by
  induction read with
  | nil => exact joined_cons piece later terminated
  | cons frame read ih =>
      have inner : behind terminated (read.map Frame.piece ++ piece :: later) =
          separator :: joined (read.map Frame.piece ++ piece :: later) terminated := by
        cases read <;> rfl
      rw [List.map_cons, List.cons_append, joined_cons, inner, ih, Frame.closed_cons]
      simp [Frame.piece]

end Piece

/-! ## Reading -/

/-- Octets that stand for the empty record whatever is behind their first one. -/
def AnnouncesEmpty (dialect : Option Dialect) : Bytes -> Prop
  | [] => True
  | code :: _ =>
      code = separator ∨ code = emptyMarker ∨ Wire.ofCode dialect code = .ok .emptyRecord

instance (dialect : Option Dialect) : DecidablePred (AnnouncesEmpty dialect)
  | [] => isTrue trivial
  | code :: _ => inferInstanceAs
      (Decidable (code = separator ∨ code = emptyMarker ∨
        Wire.ofCode dialect code = .ok .emptyRecord))

theorem frames_of_announcesEmpty {dialect : Option Dialect} {bytes : Bytes}
    (empty : AnnouncesEmpty dialect bytes) : frames dialect bytes = .ok [] := by
  cases bytes with
  | nil => rfl
  | cons code rest =>
      by_cases front : code = separator ∨ code = emptyMarker
      · exact if_pos front
      · have meaning : Wire.ofCode dialect code = .ok .emptyRecord := by
          rcases empty with same | same | meaning
          · exact absurd (Or.inl same) front
          · exact absurd (Or.inr same) front
          · exact meaning
        have unknown := announced?_eq_none_iff.mpr (Or.inr meaning)
        rw [frames, if_neg front, scan, scanOnto_of_unannounced unknown, meaning]
        rfl

/-- A code that announces an entry does not announce an empty record. -/
theorem not_announcesEmpty {dialect : Option Dialect} {frame : Frame}
    (known : frame.Announced dialect) (rest : Bytes) :
    ¬ AnnouncesEmpty dialect (frame.code :: rest) := by
  rintro (same | same | meaning)
  · exact known.code_ne_separator same
  · exact known.code_ne_emptyMarker same
  · rw [Frame.Announced, announced?_eq_none_iff.mpr (Or.inr meaning)] at known
    cases known

theorem frames_closed {dialect : Option Dialect} {written : List Frame}
    (readable : ∀ frame ∈ written, frame.Readable dialect) :
    frames dialect (Frame.closed written) = .ok written := by
  by_cases none : written = []
  · rw [none]
    rfl
  · have noneEmpty : ¬ written.any (·.data.isEmpty) = true := by
      rw [List.any_eq_true]
      rintro ⟨frame, member, nothing⟩
      exact (readable frame member).2 (List.isEmpty_iff.mp nothing)
    rw [← Frame.keyOfFrames_octets none,
      frames_keyOfFrames _ fun frame member => (readable frame member).1, if_neg noneEmpty]

namespace Cut

variable {dialect : Option Dialect} {bytes : Bytes} {pieces earlier later : List Piece}
  {piece : Piece} {terminated : Bool} {read : List Frame}

/-- A piece behind readable frames is what reading comes to next. -/
theorem follows (cut : Cut bytes (read.map Frame.piece ++ piece :: later) terminated)
    (readable : ∀ frame ∈ read, Frame.Readable dialect frame)
    (someEntry : ¬ AnnouncesEmpty dialect bytes) :
    Follows dialect bytes read piece.code (piece.body ++ Piece.behind terminated later) := by
  have whole := cut.whole.trans (Piece.joined_append read piece later terminated)
  refine ⟨whole, readable, (cut.each piece (by simp)).code_ne_separator, ?_⟩
  rintro rfl marker
  rw [whole] at someEntry
  exact someEntry (Or.inr (Or.inl marker))

theorem someEntry_of_readable (cut : Cut bytes (read.map Frame.piece) terminated)
    (readable : ∀ frame ∈ read, Frame.Readable dialect frame) :
    ¬ AnnouncesEmpty dialect bytes := by
  cases read with
  | nil => exact absurd rfl cut.filled
  | cons first others =>
      rw [cut.whole, List.map_cons, Piece.joined_cons]
      exact not_announcesEmpty (readable first List.mem_cons_self).1 _

/-- The pieces of readable frames are read as these frames, with the last
separator or without it. -/
theorem frames_eq (cut : Cut bytes (read.map Frame.piece) terminated)
    (readable : ∀ frame ∈ read, Frame.Readable dialect frame) :
    frames dialect bytes = .ok read := by
  have someEntry := cut.someEntry_of_readable readable
  rcases List.eq_nil_or_concat' read with rfl | ⟨read, last, rfl⟩
  · exact absurd rfl cut.filled
  rw [List.forall_mem_append, List.forall_mem_singleton] at readable
  rw [List.map_append, List.map_singleton] at cut
  have ends : Escape.Ends separator (Piece.behind terminated []) :=
    Piece.ends_behind (by simp) terminated
  have step := scanOnto_octets readable.2.1 read.reverse ends
  rw [(cut.follows readable.1 someEntry).frames_eq, Frame.piece, step,
    if_neg (by simpa using readable.2.2)]
  cases terminated <;> simp [Piece.behind, scanBehind, Scan.outcome]

/-- Good pieces are read, each as the frame that it means, and the entries of the
record hold what is in these frames. -/
theorem decode_of_good (cut : Cut bytes pieces terminated)
    (good : ∀ piece ∈ pieces, piece.Good dialect) :
    Exists fun found => Exists fun record => List.Forall₂ (Piece.Means dialect) pieces found ∧
      frames dialect bytes = .ok found ∧ decode dialect bytes = .ok record ∧
      record = found.map (Frame.entry dialect) ∧
      record.map Entry.kind = found.map Frame.kind ∧
      List.Forall₂ (Frame.HeldBy dialect) found record := by
  rcases Piece.exists_frames good cut.each with ⟨found, rfl, readable⟩
  have framed := cut.frames_eq readable
  have means : List.Forall₂ (Piece.Means dialect) (found.map Frame.piece) found := by
    rw [List.forall₂_map_left_iff, List.forall₂_same]
    exact fun frame member => Frame.piece_means (readable frame member).1
  have held : List.Forall₂ (Frame.HeldBy dialect) found (found.map (Frame.entry dialect)) := by
    rw [List.forall₂_map_right_iff, List.forall₂_same]
    exact fun frame member => frame.heldBy_entry dialect (readable frame member).2
  have kinds : (found.map (Frame.entry dialect)).map Entry.kind = found.map Frame.kind := by
    rw [List.map_map]
    exact List.map_congr_left fun frame _ => frame.kind_entry dialect
  exact ⟨found, _, means, framed, decode_eq_ok_iff.mpr ⟨found, framed, rfl⟩, rfl, kinds, held⟩

/-- A piece that is not good makes reading fail, if those in front of it are
good. -/
theorem decode_of_bad (cut : Cut bytes (earlier ++ piece :: later) terminated)
    (good : ∀ before ∈ earlier, before.Good dialect)
    (someEntry : ¬ AnnouncesEmpty dialect bytes) :
    (announced? dialect piece.code = none ->
      decode dialect bytes = .error (.invalidCode piece.code)) ∧
    (announced? dialect piece.code ≠ none -> piece.body = [] ->
      decode dialect bytes = .error .emptyData) := by
  have each := cut.each
  rw [List.forall_mem_append, List.forall_mem_cons] at each
  rcases Piece.exists_frames good each.1 with ⟨read, rfl, readable⟩
  have follows := cut.follows readable someEntry
  constructor
  · intro unknown
    refine decode_eq_invalidCode_iff.mpr ⟨⟨read, ⟨_, follows⟩, ?_⟩, unknown⟩
    rintro rfl marker
    rw [follows.cut] at someEntry
    exact someEntry (Or.inr (Or.inr marker))
  · intro known nothing
    rcases Option.ne_none_iff_exists'.mp known with ⟨kind, known⟩
    have announced : Frame.Announced dialect ⟨piece.code, kind, []⟩ := known
    have step := scanOnto_octets announced read.reverse (Piece.ends_behind each.2.2 terminated)
    rw [decode_eq_error_iff, follows.frames_eq, nothing]
    exact congrArg Scan.outcome step

/-- Reading succeeds only if all pieces are good: the first one that is not
makes it fail. -/
theorem good_of_decode (cut : Cut bytes pieces terminated)
    (someEntry : ¬ AnnouncesEmpty dialect bytes) {record : Record}
    (read : decode dialect bytes = .ok record) : ∀ piece ∈ pieces, piece.Good dialect := by
  rcases Piece.good_or_first_bad dialect pieces with good | ⟨earlier, piece, later, rfl, before, bad⟩
  · exact good
  · have refused := cut.decode_of_bad before someEntry
    by_cases known : announced? dialect piece.code = none
    · rw [refused.1 known] at read
      cases read
    · have nothing : piece.body = [] := by simpa [Piece.Good, known] using bad
      rw [refused.2 known nothing] at read
      cases read

end Cut

/-- Octets that do not announce an empty record are cut into pieces in exactly
one way.  If all pieces are good, reading gives one entry for each of them, in
their order: an entry of the kind that the code announces, which holds what the
body says.  Otherwise it fails for the first piece that is not good: for its
code, or else for its missing data. -/
theorem decode_by_pieces (dialect : Option Dialect) (bytes : Bytes) :
    (AnnouncesEmpty dialect bytes -> decode dialect bytes = .ok []) ∧
    (¬ AnnouncesEmpty dialect bytes -> Exists fun pieces => Exists fun terminated =>
      Cut bytes pieces terminated ∧
      (∀ others ended, Cut bytes others ended -> others = pieces ∧ ended = terminated) ∧
      ((Exists fun record => decode dialect bytes = .ok record) <->
        ∀ piece ∈ pieces, piece.Good dialect) ∧
      ((∀ piece ∈ pieces, piece.Good dialect) ->
        Exists fun found => Exists fun record =>
          List.Forall₂ (Piece.Means dialect) pieces found ∧
          frames dialect bytes = .ok found ∧ decode dialect bytes = .ok record ∧
          record = found.map (Frame.entry dialect) ∧
          record.map Entry.kind = found.map Frame.kind ∧
          List.Forall₂ (Frame.HeldBy dialect) found record) ∧
      (∀ earlier piece later, pieces = earlier ++ piece :: later ->
        (∀ before ∈ earlier, before.Good dialect) ->
        (announced? dialect piece.code = none ->
          decode dialect bytes = .error (.invalidCode piece.code)) ∧
        (announced? dialect piece.code ≠ none -> piece.body = [] ->
          decode dialect bytes = .error .emptyData))) := by
  constructor
  · intro empty
    exact decode_eq_ok_iff.mpr ⟨[], frames_of_announcesEmpty empty, rfl⟩
  · intro someEntry
    rcases bytes with _ | ⟨code, rest⟩
    · exact absurd trivial someEntry
    have ordinary : code ≠ separator := fun same => someEntry (Or.inl same)
    rcases exists_cut ordinary rest with ⟨pieces, terminated, cut⟩
    refine ⟨pieces, terminated, cut, fun _ _ => cut.unique, ⟨?_, ?_⟩, cut.decode_of_good, ?_⟩
    · rintro ⟨record, read⟩
      exact cut.good_of_decode someEntry read
    · intro good
      rcases cut.decode_of_good good with ⟨_, record, _, _, read, _⟩
      exact ⟨record, read⟩
    · rintro earlier piece later rfl good
      exact cut.decode_of_bad good someEntry

/-- A doubled separator in front of a separator, which is held by octets, and an old
marker of the empty record behind an entry. -/
theorem decode_by_pieces_at_separators :
    Cut [1, separator, separator, separator, 0, 7] [⟨1, [separator, separator]⟩, ⟨0, [7]⟩] false ∧
      decode none [1, separator, separator, separator, 0, 7] =
        .ok [.ofValue (.bytes [separator]), .ofValue (.byte 7)] ∧
      Cut [0, 1, separator, 6, separator] [⟨0, [1]⟩, ⟨6, []⟩] true ∧
      decode (some .sherlock) [0, 1, separator, 6, separator] = .error (.invalidCode 6) := by
  have doubled : Cut [1, separator, separator, separator, 0, 7]
      [⟨1, [separator, separator]⟩, ⟨0, [7]⟩] false := ⟨by decide, by decide, by decide⟩
  have marked : Cut [0, 1, separator, 6, separator] [⟨0, [1]⟩, ⟨6, []⟩] true :=
    ⟨by decide, by decide, by decide⟩
  have someEntry : ¬ AnnouncesEmpty none [1, separator, separator, separator, 0, 7] := by decide
  have someOldEntry : ¬ AnnouncesEmpty (some .sherlock) [0, 1, separator, 6, separator] := by
    decide
  rcases (decode_by_pieces none _).2 someEntry with ⟨pieces, terminated, _, unique, _, reads, _⟩
  rcases unique _ _ doubled with ⟨rfl, rfl⟩
  rcases (decode_by_pieces (some .sherlock) _).2 someOldEntry with
    ⟨oldPieces, oldTerminated, _, oldUnique, _, _, fails⟩
  rcases oldUnique _ _ marked with ⟨rfl, rfl⟩
  have good : ∀ piece ∈ [Piece.mk 1 [separator, separator], ⟨0, [7]⟩], piece.Good none := by decide
  have refused := fails [⟨0, [1]⟩] ⟨6, []⟩ [] rfl (by decide)
  rcases reads good with ⟨found, record, means, _, read, _, _, held⟩
  rcases means with _ | ⟨octets, _ | ⟨octet, _ | _⟩⟩
  rcases held with _ | ⟨first, _ | ⟨second, _ | _⟩⟩
  have firstKind := Option.some.inj octets.kind
  have secondKind := Option.some.inj octet.kind
  rw [first.value (.bytes [separator]) (by decide) firstKind octets.data.symm,
    second.value (.byte 7) (by decide) secondKind octet.data.symm] at read
  exact ⟨doubled, read, marked, refused.1 rfl⟩

end Key
end SortKey
