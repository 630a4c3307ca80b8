import SortKey.Escape
import SortKey.Wire

namespace SortKey

/-!
# The key form, cut into frames

A frame is one entry of a key: its code and its data with the escapes taken
away.  `Scan` is everything that reading the frames of a key can show: the
frames that were accepted, in order, and how the reading ended.  The outcome
and the log of a decoding are both functions of the scan.

A key may end with or without its last separator.  A code that announces an
empty record is accepted in front only, and then the rest is ignored.
-/

namespace Key

/-- One entry as it is written, with unescaped data. -/
structure Frame where
  code : UInt8
  kind : Kind
  data : Bytes
deriving DecidableEq, Repr

/-- How the reading of frames ended. -/
inductive Ending where
  /-- The last frame has its separator. -/
  | terminated
  /-- The octets ended with the last frame. -/
  | unterminated
  /-- The first code announced an empty record. -/
  | emptyRecord (code : UInt8)
  /-- A code stands for no kind. -/
  | invalidCode (code : UInt8)
  /-- A frame has no data. -/
  | emptyData (code : UInt8) (kind : Kind)
deriving DecidableEq, Repr

/-- Accepted frames and the end of the reading. -/
structure Scan where
  frames : List Frame
  ending : Ending
deriving DecidableEq, Repr

/-- Read frames from a code and the octets behind it.  Frames read before are
in `read`, newest first. -/
def scanOnto (dialect : Option Dialect) (read : List Frame) (code : UInt8) (rest : Bytes) : Scan :=
  match Wire.ofCode dialect code with
  | .error _ => ⟨read.reverse, .invalidCode code⟩
  | .ok wire =>
      match wire.entryKind? with
      | none =>
          if read.isEmpty then ⟨[], .emptyRecord code⟩ else ⟨read.reverse, .invalidCode code⟩
      | some kind =>
          let pos := Escape.findSeparator separator rest
          let data := Escape.unescape separator (rest.take pos)
          if data.isEmpty then ⟨read.reverse, .emptyData code kind⟩
          else
            let frames := ⟨code, kind, data⟩ :: read
            match _ : rest.drop pos with
            | [] => ⟨frames.reverse, .unterminated⟩
            | [_] => ⟨frames.reverse, .terminated⟩
            | _ :: next :: more => scanOnto dialect frames next more
termination_by rest.length
decreasing_by
  rename_i tail
  have shorter := congrArg List.length tail
  simp only [List.length_drop, List.length_cons] at shorter
  omega

/-- Read the frames of a key that begins with `code`. -/
def scan (dialect : Option Dialect) (code : UInt8) (rest : Bytes) : Scan :=
  scanOnto dialect [] code rest

/-- What a scan means: the frames of a record, or the failure. -/
def Scan.outcome (scan : Scan) : Except RecordError (List Frame) :=
  match scan.ending with
  | .terminated => .ok scan.frames
  | .unterminated => .ok scan.frames
  | .emptyRecord _ => .ok []
  | .invalidCode code => .error (.invalidCode code)
  | .emptyData _ _ => .error .emptyData

/-- The frames of a key.  No octets at all, and a separator or an empty marker
in front, are keys of the empty record. -/
def frames (dialect : Option Dialect) : Bytes -> Except RecordError (List Frame)
  | [] => .ok []
  | code :: rest =>
      if code = separator ∨ code = emptyMarker then .ok []
      else (scan dialect code rest).outcome

/-! ## What is found -/

private theorem length_collapseOnto (esc : UInt8) (pending : Bool) (kept bytes : Bytes) :
    (Escape.collapseOnto esc pending kept bytes).length ≤ kept.length + bytes.length := by
  induction bytes generalizing pending kept with
  | nil => simp [Escape.collapseOnto]
  | cons b rest ih =>
      simp only [Escape.collapseOnto]
      split
      · split
        · have := ih (!pending) kept
          simp only [List.length_cons]
          omega
        · have := ih (!pending) (b :: kept)
          simp only [List.length_cons] at this ⊢
          omega
      · have := ih false (b :: kept)
        simp only [List.length_cons] at this ⊢
        omega

theorem length_unescape_le (esc : UInt8) (bytes : Bytes) :
    (Escape.unescape esc bytes).length ≤ bytes.length := by
  have := length_collapseOnto esc false [] bytes
  simpa [Escape.unescape] using this

/-- What every frame of a scan satisfies: its code stands for its kind, and it
has data, which is no longer than the octets read. -/
structure Frame.Found (dialect : Option Dialect) (bound : Nat) (frame : Frame) : Prop where
  known : Exists fun wire =>
    Wire.ofCode dialect frame.code = .ok wire ∧ wire.entryKind? = some frame.kind
  filled : frame.data.isEmpty = false
  fits : frame.data.length ≤ bound

private theorem found_cons {dialect : Option Dialect} {bound : Nat} {read : List Frame}
    {code : UInt8} {rest : Bytes} {wire : Wire} {kind : Kind} {pos : Nat}
    (before : ∀ frame ∈ read, frame.Found dialect bound) (fits : rest.length ≤ bound)
    (meaning : Wire.ofCode dialect code = .ok wire) (ofKind : wire.entryKind? = some kind)
    (filled : ¬ (Escape.unescape separator (rest.take pos)).isEmpty = true) :
    ∀ frame ∈ ⟨code, kind, Escape.unescape separator (rest.take pos)⟩ :: read,
      frame.Found dialect bound := by
  have short : (Escape.unescape separator (rest.take pos)).length ≤ rest.length :=
    Nat.le_trans (length_unescape_le separator _) (List.length_take_le' pos rest)
  intro frame member
  rcases List.mem_cons.mp member with rfl | member
  · exact ⟨⟨wire, meaning, ofKind⟩, Bool.eq_false_iff.mpr filled, Nat.le_trans short fits⟩
  · exact before frame member

private theorem found_of_mem_scanOnto (dialect : Option Dialect) (bound : Nat)
    (read : List Frame) (code : UInt8) (rest : Bytes)
    (before : ∀ frame ∈ read, frame.Found dialect bound) (fits : rest.length ≤ bound) :
    ∀ frame ∈ (scanOnto dialect read code rest).frames, frame.Found dialect bound := by
  fun_induction scanOnto dialect read code rest with
  | case1 => simpa using before
  | case2 => simp
  | case3 => simpa using before
  | case4 => simpa using before
  | case5 read code rest wire meaning kind ofKind pos data filled frames _ =>
      intro frame member
      exact found_cons before fits meaning ofKind filled frame (List.mem_reverse.mp member)
  | case6 read code rest wire meaning kind ofKind pos data filled frames _ _ =>
      intro frame member
      exact found_cons before fits meaning ofKind filled frame (List.mem_reverse.mp member)
  | case7 read code rest wire meaning kind ofKind pos data filled frames _ next more tail ih =>
      have shorter := congrArg List.length tail
      simp only [List.length_drop, List.length_cons] at shorter
      apply ih
      · exact found_cons before fits meaning ofKind filled
      · omega

theorem found_of_mem_frames {dialect : Option Dialect} {code : UInt8} {rest : Bytes}
    {found : List Frame} (accepted : frames dialect (code :: rest) = .ok found)
    {frame : Frame} (member : frame ∈ found) : frame.Found dialect rest.length := by
  have inScan : frame ∈ (scan dialect code rest).frames := by
    simp only [frames] at accepted
    split at accepted
    · cases accepted
      cases member
    · simp only [Scan.outcome] at accepted
      split at accepted <;> cases accepted
      · exact member
      · exact member
      · cases member
  exact found_of_mem_scanOnto dialect rest.length [] code rest (by simp) (Nat.le_refl _) frame
    inScan

/-- Frames leave out at least the code, so nested decoding ends. -/
theorem length_data_lt_of_mem_frames {dialect : Option Dialect} {bytes : Bytes}
    {found : List Frame} (accepted : frames dialect bytes = .ok found)
    {frame : Frame} (member : frame ∈ found) : frame.data.length < bytes.length := by
  cases bytes with
  | nil =>
      cases accepted
      cases member
  | cons code rest => exact Nat.lt_succ_of_le (found_of_mem_frames accepted member).fits

end Key
end SortKey
