import SortKey.Event
import SortKey.Key.Frames

namespace SortKey
namespace Key

/-!
# What reading a key reports

The log follows from the scan.  Each frame reports the conversion of its code
and then itself, also the frame whose missing data ends the reading.  Entries
are not decoded here, so nested keys report nothing yet.
-/

/-- What an accepted frame reports. -/
def Frame.events (dialect : Option Dialect) (frame : Frame) : List Event :=
  Event.ofCode dialect frame.code ++ [.framed frame.kind frame.data.length]

/-- What the end of a scan of `entries` frames reports. -/
def Ending.events (dialect : Option Dialect) (entries : Nat) : Ending -> List Event
  | .terminated => []
  | .unterminated => [.unterminated entries]
  | .emptyRecord code => Event.ofCode dialect code ++ [.emptyRecordCode code dialect]
  | .invalidCode code => Event.ofCode dialect code
  | .emptyData code kind => Event.ofCode dialect code ++ [.framed kind 0]

/-- What a scan reports. -/
def Scan.events (dialect : Option Dialect) (scan : Scan) : List Event :=
  scan.frames.flatMap (Frame.events dialect) ++ scan.ending.events dialect scan.frames.length

/-- What reading the frames of a key reports. -/
def events (dialect : Option Dialect) (bytes : Bytes) : List Event :=
  .decodingKey bytes.length dialect ::
    match bytes with
    | [] => []
    | code :: rest =>
        if code = separator then []
        else if code = emptyMarker then [.oldEmptyMarker]
        else (scan dialect code rest).events dialect

end Key
end SortKey
