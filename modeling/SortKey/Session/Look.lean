import SortKey.Key.Encode
import SortKey.Session.Access
import SortKey.Stream.Read
import SortKey.Stream.Write

namespace SortKey

/-!
# Operations of a session

Each operation answers from the entries alone and accesses the cells that it
needs, in the order in which it needs them.  Values that are answered are shown
up to the given number of levels.
-/

/-- How two records compare. -/
structure Comparison where
  order : Ordering
  equal : Bool
  less : Bool
  hashEqual : Bool
  sameSlice : Bool
  stableHashEqual : Bool
deriving DecidableEq, Repr

/-- How two records compare that are, or are not, the same slice. -/
def Record.compare (sameSlice : Bool) (a b : Record) : Comparison :=
  let order := if sameSlice then .eq else a.order b
  { order
    equal := sameSlice || a.same b
    less := order == .lt
    hashEqual := a.hashWrites == b.hashWrites
    sameSlice
    stableHashEqual := a.stableHash == b.stableHash }

/-- The positions of records in ascending order; equal ones keep theirs. -/
def Record.sortedPositions (records : List Record) : List Nat :=
  ((records.zipIdx).mergeSort fun a b => a.1.order b.1 != .gt).map Prod.snd

/-- Whether an entry made from the value of this one would equal it. -/
def Entry.equalsRewrapped? : Entry -> Option Bool
  | .ofValue value => some ((Entry.ofValue value).same (.ofValue value))
  | .undecodable _ _ _ => none

namespace Session

/-- The record of a slice, all of it shown up to a level. -/
def look (levels : Nat) (slice : Slice) : SessionM Record := do
  walkSlice (.upTo levels) slice
  return (<- get).record slice

/-- Find values in order up to the first entry that has none.  Nested records
are not looked into yet. -/
def accessValues (slice : Slice) (index : Nat) : List Entry -> SessionM Unit
  | .ofValue _ :: entries => do
      access (placeOf slice index)
      accessValues slice (index + 1) entries
  | .undecodable _ _ _ :: _ => access (placeOf slice index)
  | [] => pure ()

/-- All values, or the cause of the first entry that has none.  Nothing is
shown before every value is found. -/
def values (levels : Nat) (slice : Slice) : SessionM (Except RecordError (List Value)) := do
  let record := (<- get).record slice
  accessValues slice 0 record
  match record.values with
  | .ok found =>
      walkSlice (.upTo levels) slice
      return .ok found
  | .error cause => return .error cause

/-- The record of a slice, for its plain or detailed text. -/
def showText (slice : Slice) : SessionM Record := do
  walkSlice .everything slice
  return (<- get).record slice

def key (slice : Slice) : SessionM Bytes := do
  dataOfSlice slice
  return ((<- get).record slice).key

def stableHash (slice : Slice) : SessionM UInt64 := do
  dataOfSlice slice
  return ((<- get).record slice).stableHash

def keyPrefix (slice : Slice) (terminated : Bool) (count : Nat) :
    SessionM (Except RecordError Bytes) := do
  let record := (<- get).record slice
  if count ≤ record.length then dataOfEntries slice 0 (record.take count)
  return record.keyPrefix terminated count

/-- Write a record in stream form. -/
def writeTo (slice : Slice) (writer : Writer) : SessionM (Except RecordError Unit × Writer) := do
  walkSlice .untilMissing slice
  return ((<- get).record slice).writeTo writer

def stream (slice : Slice) : SessionM (Except RecordError Bytes) := do
  walkSlice .untilMissing slice
  return ((<- get).record slice).stream

/-- Keep a record that was read from a stream. -/
def keepStream (step : Stream.Step Record) : SessionM (Except RecordError Slice) := do
  report step.events
  match step.result with
  | .ok record => return .ok (<- storeRecord record)
  | .error cause => return .error cause

/-- Do something with the entry at a position, if there is one. -/
def withEntry {α : Type} (slice : Slice) (index : Nat)
    (action : Place -> Entry -> SessionM (Except RecordError α)) : SessionM (Except RecordError α) := do
  match ((<- get).record slice).entryAt index with
  | .ok entry => action (placeOf slice index) entry
  | .error cause => return .error cause

def get? (levels : Nat) (slice : Slice) (index : Nat) : SessionM (Except RecordError Value) :=
  withEntry slice index fun place entry => do
    let _ <- walkEntry (.upTo levels) place entry
    return entry.value

/-- The value at a position, which has to be of the kind asked for. -/
def getAs (levels : Nat) (slice : Slice) (index : Nat) (expected : Kind) :
    SessionM (Except RecordError Value) :=
  withEntry slice index fun place entry => do
    if entry.kind = expected then
      let _ <- walkEntry (.upTo levels) place entry
    return ((<- get).record slice).getAs index expected

def takeRecord (slice : Slice) (index : Nat) : SessionM (Except RecordError Slice) :=
  withEntry slice index fun place entry => do
    if entry.kind ≠ .record then return .error (.kindMismatch index .record entry.kind)
    access place
    match entry.value with
    | .ok _ => return .ok (<- nestedAt place)
    | .error cause => return .error cause

/-- An entry, with both texts, its data and its value. -/
def entry (levels : Nat) (slice : Slice) (index : Nat) : SessionM (Except RecordError Entry) :=
  withEntry slice index fun place entry => do
    let _ <- walkEntry .everything place entry
    let _ <- walkEntry .everything place entry
    dataOfEntry place entry
    let _ <- walkEntry (.upTo levels) place entry
    access place
    return .ok entry

/-- A value, for both its texts. -/
def valueText (slice : Slice) (index : Nat) : SessionM (Except RecordError Value) :=
  withEntry slice index fun place entry => do
    let _ <- walkEntry .everything place entry
    match entry with
    | .ofValue _ =>
        let _ <- walkEntry .everything place entry
    | .undecodable _ _ _ => pure ()
    return entry.value

/-- The value of a copy of an entry.  A copy whose value is not known yet is
decoded for this once, and the entry itself learns nothing. -/
def intoValue (levels : Nat) (slice : Slice) (index : Nat) : SessionM (Except RecordError Value) :=
  withEntry slice index fun place entry => do
    match (<- get).cellAt? place with
    | none => pure ()
    | some cell =>
        match cell.source, cell.valueKnown, entry with
        | some source, false, .ofValue (.record entries) =>
            let _ <- walkValue (.upTo levels) (<- openRecord source entries) (.record entries)
        | some source, false, .undecodable .record _ _ =>
            report (Key.events source.dialect source.data)
        | _, _, .ofValue value =>
            let _ <- walkValue (.upTo levels) cell.nested value
        | _, _, _ => pure ()
    return entry.value

/-- Compare two records in every way. -/
def compare (a b : Slice) : SessionM Comparison := do
  orderSlices a b
  compareSlices a b
  walkSlice .hashing a
  walkSlice .hashing b
  dataOfSlice a
  dataOfSlice b
  let session <- get
  return Record.compare (a = b) (session.record a) (session.record b)

/-- Whether two entries are equal, and whether they feed the same to a hash
function. -/
def compareEntriesAt (a : Slice) (i : Nat) (b : Slice) (j : Nat) :
    SessionM (Except RecordError (Bool × Bool)) :=
  withEntry a i fun x left => withEntry b j fun y right => do
    compareEntry x y left right
    let _ <- walkEntry .hashing x left
    let _ <- walkEntry .hashing y right
    return .ok (left.same right, left.hashWrites == right.hashWrites)

end Session
end SortKey
