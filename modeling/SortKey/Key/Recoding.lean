import SortKey.Key.Decode

namespace SortKey
namespace Key

/-!
# Data that is written again

An entry that was read from a key keeps its data, and when the entry is written again the
data goes out as it came in.  No value is decoded for that.  The data of a nested record
is an exception, because its codes may be those of a dialect: it is put together anew from
the data of the entries in it, unless it cannot be read as a record at all.
-/

/-- What is written again for an entry of a kind that was read from data. -/
def recodedData (dialect : Option Dialect) (kind : Kind) (data : Bytes) : Bytes :=
  if kind = .record then
    match accepted : frames dialect data with
    | .error _ => data
    | .ok found =>
        keyOfFrames (found.attach.map fun frame =>
          have := length_data_lt_of_mem_frames accepted frame.property
          frameOctets frame.val.kind (recodedData dialect frame.val.kind frame.val.data))
  else data
termination_by data.length

/-- The octets that are written again for a frame, without a separator. -/
def Frame.recoded (dialect : Option Dialect) (frame : Frame) : Bytes :=
  frameOctets frame.kind (recodedData dialect frame.kind frame.data)

section Equations

variable {dialect : Option Dialect}

theorem recodedData_of_ne_record {kind : Kind} (plain : kind ≠ .record) (data : Bytes) :
    recodedData dialect kind data = data := by
  rw [recodedData, if_neg plain]

theorem recodedData_of_frames {data : Bytes} {found : List Frame}
    (accepted : frames dialect data = .ok found) :
    recodedData dialect .record data = keyOfFrames (found.map (Frame.recoded dialect)) := by
  rw [recodedData, if_pos rfl]
  split
  · next cause refused =>
      rw [accepted] at refused
      cases refused
  · next other same =>
      rw [accepted] at same
      cases same
      exact congrArg keyOfFrames (List.attach_map_val (l := found) (f := Frame.recoded dialect))

theorem recodedData_of_error {data : Bytes} {cause : RecordError}
    (refused : frames dialect data = .error cause) : recodedData dialect .record data = data := by
  rw [recodedData, if_pos rfl]
  split
  · rfl
  · next found accepted =>
      rw [accepted] at refused
      cases refused

end Equations
end Key
end SortKey
