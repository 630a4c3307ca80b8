import SortKey.Dialect
import SortKey.Wire

namespace SortKey

/-!
# Log events

What reading and building records reports while it goes on.  An event has a
level, a message and named fields, all of them text.
-/

/-- How much an event matters; the first is the most severe. -/
inductive Level where
  | warn
  | debug
  | trace
deriving DecidableEq, Repr

namespace Level

def name : Level -> String
  | warn => "WARN"
  | debug => "DEBUG"
  | trace => "TRACE"

/-- Larger numbers are less severe. -/
def rank : Level -> Nat
  | warn => 0
  | debug => 1
  | trace => 2

/-- Whether a log kept at level `kept` shows an event of this level. -/
def shownAt (level kept : Level) : Bool :=
  level.rank ≤ kept.rank

end Level

/-- Something that was reported. -/
inductive Event where
  /-- Empty octets were added after `index` entries.  Their key cannot be
  read back. -/
  | emptyBytesAdded (index : Nat)
  /-- A key of `len` octets is going to be read. -/
  | decodingKey (len : Nat) (dialect : Option Dialect)
  /-- The key is the old marker of the empty record. -/
  | oldEmptyMarker
  /-- The dialect converted a code. -/
  | codeConverted (code present : UInt8) (dialect : Option Dialect)
  /-- A code that the dialect converts to the empty marker came first. -/
  | emptyRecordCode (code : UInt8) (dialect : Option Dialect)
  /-- A frame was found, with `len` octets of unescaped data. -/
  | framed (kind : Kind) (len : Nat)
  /-- The key ended after `entries` frames without a separator. -/
  | unterminated (entries : Nat)
  /-- The value of a frame is going to be read. -/
  | decodingEntry (kind : Kind) (len : Nat)
  /-- The count of a record in stream form was read. -/
  | decodingStream (count : Int32) (dialect : Option Dialect)
  /-- Octets were left behind a stream form that should fill its input. -/
  | bytesLeft (trailing : Nat)
deriving DecidableEq, Repr

namespace Event

def level : Event -> Level
  | emptyBytesAdded _ => .warn
  | oldEmptyMarker => .debug
  | emptyRecordCode _ _ => .debug
  | unterminated _ => .debug
  | bytesLeft _ => .debug
  | decodingKey _ _ => .trace
  | codeConverted _ _ _ => .trace
  | framed _ _ => .trace
  | decodingEntry _ _ => .trace
  | decodingStream _ _ => .trace

def message : Event -> String
  | emptyBytesAdded _ => "empty byte array added; the comparable form will not decode"
  | decodingKey _ _ => "decoding comparable form"
  | oldEmptyMarker => "legacy empty marker"
  | codeConverted _ _ _ => "remapped type code"
  | emptyRecordCode _ _ => "remapped empty marker"
  | framed _ _ => "framed entry"
  | unterminated _ => "no trailing separator"
  | decodingEntry _ _ => "decoding entry"
  | decodingStream _ _ => "decoding stream form"
  | bytesLeft _ => "bytes left after stream form"

/-- The named fields of an event. -/
def fields : Event -> List (String × String)
  | emptyBytesAdded index => [("index", toString index)]
  | decodingKey len dialect => [("len", toString len), ("mode", dialectText dialect)]
  | oldEmptyMarker => []
  | codeConverted code present dialect =>
      [("code", toString code.toNat), ("native", toString present.toNat), ("mode", dialectText dialect)]
  | emptyRecordCode code dialect => [("code", toString code.toNat), ("mode", dialectText dialect)]
  | framed kind len => [("entry_type", kind.name), ("len", toString len)]
  | unterminated entries => [("entries", toString entries)]
  | decodingEntry kind len => [("entry_type", kind.name), ("len", toString len)]
  | decodingStream count dialect => [("count", toString count), ("mode", dialectText dialect)]
  | bytesLeft trailing => [("trailing", toString trailing)]

/-- What converting a code reports. -/
def ofCode (dialect : Option Dialect) (code : UInt8) : List Event :=
  let present := Wire.presentCode dialect code
  if present = code then [] else [codeConverted code present dialect]

end Event
end SortKey
