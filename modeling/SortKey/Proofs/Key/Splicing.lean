import SortKey.Proofs.Key.Extension
import SortKey.Proofs.Session.Slice

namespace SortKey

/-!
# Keys in a row

A key that is not empty ends in a separator, so the next key can simply be put
behind it.  The octets are then the key of the entries of both records, and reading
goes on behind the seam as if nothing stood in front of it.  It does not matter
what the last entry holds, because its separators stand in pairs and the one at the
end is alone.  The empty record is an exception: its key is a separator, which
would make a pair with the one in front of it.
-/

namespace Key

/-! ## Reading piece by piece -/

/-- What becomes of a piece. -/
def Piece.read (dialect : Option Dialect) (piece : Piece) : Except RecordError Frame :=
  match announced? dialect piece.code with
  | none => .error (.invalidCode piece.code)
  | some kind =>
      if piece.body = [] then .error .emptyData
      else .ok ⟨piece.code, kind, Escape.unescape separator piece.body⟩

namespace Piece

variable {dialect : Option Dialect}

theorem read_piece {frame : Frame} (readable : frame.Readable dialect) :
    frame.piece.read dialect = .ok frame := by
  have known : announced? dialect frame.code = some frame.kind := readable.1
  have filled : Escape.escape separator frame.data ≠ [] := by
    intro none
    have data := congrArg (Escape.unescape separator) none
    rw [Escape.unescape_escape] at data
    exact readable.2 data
  simp only [read, Frame.piece, known, if_neg filled, Escape.unescape_escape]

theorem mapM_read_piece {frames : List Frame}
    (readable : ∀ frame ∈ frames, Frame.Readable dialect frame) :
    (frames.map Frame.piece).mapM (read dialect) = .ok frames := by
  induction frames with
  | nil => rfl
  | cons frame frames ih =>
      rw [List.forall_mem_cons] at readable
      rw [List.map_cons, List.mapM_cons, read_piece readable.1, ih readable.2]
      rfl

end Piece

namespace Cut

variable {dialect : Option Dialect} {bytes : Bytes} {pieces : List Piece} {terminated : Bool}

/-- Octets are read piece by piece, up to the first piece that is refused. -/
theorem frames_eq_mapM (cut : Cut bytes pieces terminated)
    (someEntry : ¬ AnnouncesEmpty dialect bytes) :
    frames dialect bytes = pieces.mapM (Piece.read dialect) := by
  rcases Piece.good_or_first_bad dialect pieces with good | ⟨earlier, piece, later, rfl, before, bad⟩
  · rcases Piece.exists_frames good cut.each with ⟨frames, rfl, readable⟩
    rw [cut.frames_eq readable, Piece.mapM_read_piece readable]
  · have refused := cut.decode_of_bad before someEntry
    have each := cut.each
    rw [List.forall_mem_append] at each
    rcases Piece.exists_frames before each.1 with ⟨read, rfl, readable⟩
    rw [List.mapM_append, Piece.mapM_read_piece readable, List.mapM_cons]
    by_cases unknown : announced? dialect piece.code = none
    · have readPiece : piece.read dialect = .error (.invalidCode piece.code) := by
        simp only [Piece.read, unknown]
      rw [decode_eq_error_iff.mp (refused.1 unknown), readPiece]
      rfl
    · have nothing : piece.body = [] := by simpa [Piece.Good, unknown] using bad
      have readPiece : piece.read dialect = .error .emptyData := by
        rcases Option.ne_none_iff_exists'.mp unknown with ⟨kind, known⟩
        simp only [Piece.read, known, if_pos nothing]
      rw [decode_eq_error_iff.mp (refused.2 unknown nothing), readPiece]
      rfl

end Cut

/-! ## The seam -/

/-- Pieces in front, the last one with its separator, and pieces behind them. -/
theorem Piece.joined_append_joined {pieces later : List Piece} (some : pieces ≠ [])
    (someLater : later ≠ []) (terminated : Bool) :
    joined (pieces ++ later) terminated = joined pieces true ++ joined later terminated := by
  have behindLater : behind terminated later = separator :: joined later terminated := by
    cases later with
    | nil => exact absurd rfl someLater
    | cons piece later => rfl
  induction pieces with
  | nil => exact absurd rfl some
  | cons piece pieces ih =>
      cases pieces with
      | nil =>
          rw [List.singleton_append, joined_cons, joined_cons, behindLater]
          simp [behind]
      | cons next pieces =>
          have tail := ih (List.cons_ne_nil next pieces)
          rw [List.cons_append] at tail
          rw [List.cons_append, joined_cons, joined_cons piece, List.cons_append, behind, behind, tail]
          simp

namespace Cut

variable {dialect : Option Dialect} {bytes behind : Bytes} {pieces later : List Piece}
  {terminated : Bool}

theorem append (cut : Cut bytes pieces true) (cutBehind : Cut behind later terminated) :
    Cut (bytes ++ behind) (pieces ++ later) terminated := by
  refine ⟨by simp [cut.filled], ?_, ?_⟩
  · rw [Piece.joined_append_joined cut.filled cutBehind.filled, ← cut.whole, ← cutBehind.whole]
  · rw [List.forall_mem_append]
    exact ⟨cut.each, cutBehind.each⟩

/-- Behind a separator at the end, octets are read as they are on their own. -/
theorem decode_append (cut : Cut bytes pieces true) (someEntry : ¬ AnnouncesEmpty dialect bytes)
    (someBehind : ¬ AnnouncesEmpty dialect behind) :
    decode dialect (bytes ++ behind) =
      (decode dialect bytes).bind fun front =>
        (decode dialect behind).map fun back => front ++ back := by
  rcases bytes with _ | ⟨first, rest⟩
  · exact absurd trivial someEntry
  rcases behind with _ | ⟨next, more⟩
  · exact absurd trivial someBehind
  have ordinary : next ≠ separator := fun same => someBehind (Or.inl same)
  rcases exists_cut ordinary more with ⟨later, terminated, cutBehind⟩
  -- Whether octets stand for the empty record is told by their first one.
  have someWhole : ¬ AnnouncesEmpty dialect (first :: rest ++ next :: more) := someEntry
  rw [decode_eq_map_frames, decode_eq_map_frames, decode_eq_map_frames,
    (cut.append cutBehind).frames_eq_mapM someWhole, cut.frames_eq_mapM someEntry,
    cutBehind.frames_eq_mapM someBehind, List.mapM_append]
  cases pieces.mapM (Piece.read dialect) with
  | error cause => rfl
  | ok front =>
      cases later.mapM (Piece.read dialect) with
      | error cause => rfl
      | ok back => exact congrArg Except.ok List.map_append

end Cut
end Key

/-! ## Records in a row -/

namespace Record

theorem key_append {front back : Record} (someFront : front ≠ []) (someBack : back ≠ []) :
    key (front ++ back) = front.key ++ back.key := by
  have some : front ++ back ≠ [] := by simp [someFront]
  rw [key_eq_closed some, key_eq_closed someFront, key_eq_closed someBack, closed_append]

theorem cut_key {record : Record} (some : record ≠ []) :
    Key.Cut record.key (record.map Entry.piece) true := by
  rw [key_eq_closed some, ← joined_true some]
  exact cut_joined some true

theorem key_not_announcesEmpty {record : Record} (some : record ≠ []) :
    ¬ Key.AnnouncesEmpty none record.key := by
  cases record with
  | nil => exact absurd rfl some
  | cons entry entries =>
      rw [key_eq_closed some, closed_cons]
      exact Key.not_announcesEmpty entry.frame_announced _

end Record

/-! ## Splicing and slicing -/

namespace Session

/-- Build a record from the entries of one slice and, behind them, those of
another. -/
def splice (front back : Slice) : SessionM Slice := do
  let begun <- Builder.empty.append front
  let whole <- begun.append back
  whole.build

theorem record_splice (session : Session) (front back : Slice) :
    ((splice front back).run session).2.record ((splice front back).run session).1 =
      session.record front ++ session.record back := by
  have stored := session.record_store
    (Builder.mk (#[] ++ (session.cells front).toArray ++ (session.cells back).toArray)).cells.toList
  refine Eq.trans stored ?_
  simp [record]

/-- The key of a record that is spliced from two others, neither of them empty, is
one key behind the other.  Where a record is cut in two, its key is that of the
first entries, which is also their terminated prefix, and behind it that of the
others.  Two keys in a row are read as the entries of the first and behind them
those of the second, and if one of them cannot be read then both cannot. -/
theorem splicing_joins_keys :
    (forall (session : Session) (front back : Slice),
      session.record front ≠ [] -> session.record back ≠ [] ->
      let made := (splice front back).run session
      made.2.record made.1 = session.record front ++ session.record back ∧
      (made.2.record made.1).key = (session.record front).key ++ (session.record back).key) ∧
    (forall (session : Session) (slice : Slice) (index : Nat),
      0 < index -> index < (session.record slice).length ->
      Exists fun front => Exists fun back =>
        slice.toIndex index = .ok front ∧ slice.fromIndex index = .ok back ∧
        (session.record slice).key = (session.record front).key ++ (session.record back).key ∧
        (session.record slice).keyPrefix true index = .ok (session.record front).key) ∧
    (forall front back : Record, front ≠ [] -> back ≠ [] ->
      Key.decode none (front.key ++ back.key) =
        (Key.decode none front.key).bind fun first =>
          (Key.decode none back.key).map fun second => first ++ second) := by
  refine ⟨?_, ?_, ?_⟩
  · intro session front back someFront someBack made
    have shown : made.2.record made.1 = session.record front ++ session.record back :=
      session.record_splice front back
    exact ⟨shown, by rw [shown, Record.key_append someFront someBack]⟩
  · intro session slice index positive inside
    rcases session.exists_toIndex slice (Nat.le_of_lt inside) with ⟨front, taken, shownFront⟩
    rcases session.exists_fromIndex slice (Nat.le_of_lt inside) with ⟨back, left, shownBack⟩
    have someFront : (session.record slice).take index ≠ [] :=
      Record.take_ne_nil positive (Nat.le_of_lt inside)
    have someBack : (session.record slice).drop index ≠ [] := by
      rw [ne_eq, List.drop_eq_nil_iff]
      omega
    refine ⟨front, back, taken, left, ?_, ?_⟩
    · rw [shownFront, shownBack, ← Record.key_append someFront someBack, List.take_append_drop]
    · rw [Record.keyPrefix_terminated (Nat.le_of_lt inside), shownFront,
        Record.key_eq_closed someFront]
  · intro front back someFront someBack
    exact (Record.cut_key someFront).decode_append (Record.key_not_announcesEmpty someFront)
      (Record.key_not_announcesEmpty someBack)

/-- A separator in front of the seam is doubled, and the next key begins behind the
third one. -/
theorem splicing_joins_keys_at_separators :
    let session : Session :=
      ⟨#[#[], #[Cell.ofValue (.bytes [separator]), Cell.ofValue (.byte 7)]], []⟩
    let front : Slice := ⟨1, 0, 1⟩
    let back : Slice := ⟨1, 1, 1⟩
    let whole : Slice := ⟨1, 0, 2⟩
    session.record front ≠ [] ∧ session.record back ≠ [] ∧
      (((splice front back).run session).2.record ((splice front back).run session).1).key =
        [1, separator, separator, separator, 0, 7, separator] ∧
      0 < 1 ∧ 1 < (session.record whole).length ∧
      (Exists fun first => whole.toIndex 1 = .ok first ∧
        (session.record whole).keyPrefix true 1 = .ok (session.record first).key) ∧
      (Exists fun cause => Key.decode none
        (Record.key [.ofValue (.byte 7)] ++ Record.key [.ofValue (.bytes [])]) = .error cause) := by
  intro session front back whole
  have someFront : session.record front ≠ [] := by decide
  have someBack : session.record back ≠ [] := by decide
  have inside : 1 < (session.record whole).length := by decide
  rcases splicing_joins_keys with ⟨spliced, sliced, read⟩
  rcases sliced session whole 1 (by decide) inside with ⟨first, _, taken, _, _, written⟩
  have refused : Key.decode none (Record.key [.ofValue (.bytes [])]) = .error .emptyData := by
    rw [Key.decode_key]
    rfl
  have joined := read [.ofValue (.byte 7)] [.ofValue (.bytes [])] (by simp) (by simp)
  rw [refused, Key.decode_key] at joined
  exact ⟨someFront, someBack, (spliced session front back someFront someBack).2.trans (by decide),
    by decide, inside, ⟨first, taken, written⟩, ⟨_, joined⟩⟩

end Session
end SortKey
