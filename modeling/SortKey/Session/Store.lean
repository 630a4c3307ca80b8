import SortKey.Key.Decode
import SortKey.Key.Log

namespace SortKey

/-!
# Records that share their entries

Records made in one session live in storages, and a `Slice` is a range of one
storage.  Slicing never copies, so two slices may show the same cells, and what
one of them learns about a cell the other knows too.  Copying cells copies
what is known at that time.

A cell that came from a key holds its data and is decoded when its value is
first asked for.  A value that was found is remembered; a failure is not, and
is reported each time.  What a cell holds never changes: `Cell.entry` is there
from the start, and only what is known about it grows.

Storage zero is empty, and every empty record is its one slice.
-/

/-- A range of a storage. -/
structure Slice where
  storage : Nat
  first : Nat
  count : Nat
deriving DecidableEq, Repr

namespace Slice

def empty : Slice := ⟨0, 0, 0⟩

/-- The entries from `start` up to, not including, `stop`. -/
def subrange (slice : Slice) (start stop : Nat) : Except RecordError Slice :=
  if stop > slice.count then .error (.indexOutOfRange stop slice.count)
  else if start > stop then .error (.indexOutOfRange start slice.count)
  else if start = stop then .ok empty
  else .ok ⟨slice.storage, slice.first + start, stop - start⟩

/-- The entries from a position on. -/
def fromIndex (slice : Slice) (index : Nat) : Except RecordError Slice :=
  slice.subrange index slice.count

/-- The entries before a position. -/
def toIndex (slice : Slice) (index : Nat) : Except RecordError Slice :=
  slice.subrange 0 index

end Slice

/-- The data of a cell that came from a key, and how to read it. -/
structure Source where
  data : Bytes
  dialect : Option Dialect

/-- An entry and what is known about it. -/
structure Cell where
  entry : Entry
  /-- Where the entry came from; nothing when it was built from a value. -/
  source : Option Source
  /-- The cells of the nested record, once its value is known. -/
  nested : Slice
  /-- Whether the value was found. -/
  valueKnown : Bool
  /-- Whether the data of a nested record was found. -/
  dataKnown : Bool

namespace Cell

/-- A cell built from a value that is no record. -/
def ofValue (value : Value) : Cell :=
  ⟨.ofValue value, none, Slice.empty, true, false⟩

/-- A cell built from a record in the session. -/
def ofSlice (slice : Slice) (record : Record) : Cell :=
  ⟨.ofValue (.record record), none, slice, true, false⟩

/-- A cell that came from a key. -/
def ofFrame (dialect : Option Dialect) (frame : Key.Frame) (entry : Entry) : Cell :=
  ⟨entry, some ⟨frame.data, dialect⟩, Slice.empty, false, false⟩

end Cell

/-- The storages, and what was reported, newest first. -/
structure Session where
  storages : Array (Array Cell)
  reported : List Event

/-- What is done in a session. -/
abbrev SessionM := StateM Session

namespace Session

def start : Session := ⟨#[#[]], []⟩

/-- The cells of a slice. -/
def cells (session : Session) (slice : Slice) : List Cell :=
  ((session.storages.getD slice.storage #[]).toList.drop slice.first).take slice.count

/-- The record that a slice shows. -/
def record (session : Session) (slice : Slice) : Record :=
  (session.cells slice).map Cell.entry

/-- What was reported since the last time, oldest first. -/
def takeEvents : SessionM (List Event) := do
  let session <- get
  set { session with reported := [] }
  return session.reported.reverse

def report (events : List Event) : SessionM Unit :=
  modify fun session => { session with reported := events.reverse ++ session.reported }

/-- Put cells into a storage of their own.  No cells make the empty record. -/
def store (cells : List Cell) : SessionM Slice := do
  match cells with
  | [] => return Slice.empty
  | _ =>
      let session <- get
      set { session with storages := session.storages.push cells.toArray }
      return ⟨session.storages.size, 0, cells.length⟩

/-- Read a key.  Its entries are not decoded yet. -/
def decode (dialect : Option Dialect) (bytes : Bytes) : SessionM (Except RecordError Slice) := do
  report (Key.events dialect bytes)
  match Key.frames dialect bytes, Key.decode dialect bytes with
  | .ok frames, .ok record =>
      return .ok (<- store (List.zipWith (Cell.ofFrame dialect) frames record))
  | .error cause, _ => return .error cause
  | .ok _, .error cause => return .error cause

end Session

/-! ## Building -/

/-- Something that becomes one entry. -/
inductive Part where
  /-- A value that is no record. -/
  | value (value : Value)
  /-- A record of the session. -/
  | nested (slice : Slice)

/-- The cells collected so far. -/
structure Builder where
  cells : Array Cell

namespace Builder

def empty : Builder := ⟨#[]⟩

/-- Start with the cells of a record. -/
def ofSlice (session : Session) (slice : Slice) : Builder :=
  ⟨(session.cells slice).toArray⟩

/-- Add an entry.  Empty octets are reported, because their key cannot be
read back. -/
def add (part : Part) (builder : Builder) : SessionM Builder := do
  match part with
  | .value value =>
      match value with
      | .bytes [] => Session.report [.emptyBytesAdded builder.cells.size]
      | _ => pure ()
      return ⟨builder.cells.push (Cell.ofValue value)⟩
  | .nested slice =>
      let session <- get
      return ⟨builder.cells.push (Cell.ofSlice slice (session.record slice))⟩

def tryAdd (part : Option Part) (builder : Builder) : SessionM (Except RecordError Builder) := do
  match part with
  | some part => return .ok (<- builder.add part)
  | none => return .error (.nullArgument "value")

/-- Copy the cells of a record, with what is known about them. -/
def append (slice : Slice) (builder : Builder) : SessionM Builder := do
  let session <- get
  return ⟨builder.cells ++ (session.cells slice).toArray⟩

/-- The record of what was collected. -/
def build (builder : Builder) : SessionM Slice :=
  Session.store builder.cells.toList

end Builder

/-! ## Records from elsewhere -/

mutual

/-- Put the entries of a record into the session as built values, nested
records first. -/
def Session.storedCells : List Entry -> SessionM (List Cell)
  | [] => return []
  | entry :: entries => do
      let cell <- Session.storedCell entry
      let cells <- Session.storedCells entries
      return cell :: cells

def Session.storedCell : Entry -> SessionM Cell
  | .ofValue value => Session.storedValue value
  | .undecodable kind data cause => return ⟨.undecodable kind data cause, none, Slice.empty, true, false⟩

def Session.storedValue : Value -> SessionM Cell
  | .record entries => do
      let slice <- Session.store (<- Session.storedCells entries)
      return Cell.ofSlice slice entries
  | value => return Cell.ofValue value

end

/-- Put a record into the session as built values. -/
def Session.storeRecord (record : Record) : SessionM Slice := do
  Session.store (<- Session.storedCells record)

end SortKey
