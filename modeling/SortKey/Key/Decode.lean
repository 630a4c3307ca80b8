import SortKey.Key.Frames
import SortKey.Record
import SortKey.Text.Utf8
import SortKey.Key.Encode

namespace SortKey

/-!
# The key form, read

A frame becomes an entry on its own: data that no value of its kind has makes
an undecodable entry and no failure of the record.  A frame of kind record is
decoded as a key in the same dialect.  Only the framing itself can fail.
-/

namespace Key

/-- Data of a kind with fixed width. -/
def fixedWidth (kind : Kind) (width : Nat) (data : Bytes) : Except RecordError Nat :=
  if data.length = width then .ok data.toNat
  else .error (.invalidLength kind width data.length)

/-- A text.  The reserved octet is the empty one. -/
def textOfData (data : Bytes) : Except RecordError Value :=
  if data = emptyTextData then .ok (.text "")
  else
    match Text.Utf8.decode? data with
    | some content => .ok (.text content)
    | none => .error .malformedText

/-- The value that data of a kind has, given what it is as a record. -/
def valueOfData (kind : Kind) (data : Bytes) (nested : Unit -> Except RecordError Record) :
    Except RecordError Value :=
  match kind with
  | .byte => (fixedWidth .byte 1 data).map fun n => .byte (UInt8.ofNat n)
  | .bytes => .ok (.bytes data)
  | .double => (fixedWidth .double 8 data).map fun n => .double (UInt64.ofNat n)
  | .integer => (fixedWidth .integer 4 data).map fun n => .integer (UInt32.ofNat n).toInt32
  | .long => (fixedWidth .long 8 data).map fun n => .long (UInt64.ofNat n).toInt64
  | .text => textOfData data
  | .record => (nested ()).map .record

/-- The entry for data of a kind, given the value that it has. -/
def entryOfData (kind : Kind) (data : Bytes) : Except RecordError Value -> Entry
  | .ok value => .ofValue value
  | .error cause => .undecodable kind data cause

/-- Read a record from its key. -/
def decode (dialect : Option Dialect) (bytes : Bytes) : Except RecordError Record :=
  match accepted : frames dialect bytes with
  | .error cause => .error cause
  | .ok found =>
      .ok (found.attach.map fun frame =>
        have := length_data_lt_of_mem_frames accepted frame.property
        entryOfData frame.val.kind frame.val.data
          (valueOfData frame.val.kind frame.val.data fun _ => decode dialect frame.val.data))
termination_by bytes.length

/-- The value of a frame. -/
def Frame.value (dialect : Option Dialect) (frame : Frame) : Except RecordError Value :=
  valueOfData frame.kind frame.data fun _ => decode dialect frame.data

/-- The entry of a frame. -/
def Frame.entry (dialect : Option Dialect) (frame : Frame) : Entry :=
  entryOfData frame.kind frame.data (frame.value dialect)

/-- Decoding is framing, and each frame for itself. -/
theorem decode_eq_map_frames (dialect : Option Dialect) (bytes : Bytes) :
    decode dialect bytes =
      (frames dialect bytes).map fun found => found.map (Frame.entry dialect) := by
  rw [decode]
  split
  · next cause rejected => rw [rejected]; rfl
  · next found accepted =>
      have right : (frames dialect bytes).map (fun found => found.map (Frame.entry dialect)) =
          .ok (found.map (Frame.entry dialect)) := by
        rw [accepted]
        rfl
      rw [right]
      exact congrArg Except.ok (List.attach_map_val (l := found) (f := Frame.entry dialect))

end Key
end SortKey
