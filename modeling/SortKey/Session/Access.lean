import SortKey.Session.Store

namespace SortKey
namespace Session

/-!
# Finding values

The first access to the value of a cell that came from a key decodes its
data.  When that is a nested record, its own cells are made then, and are not
decoded yet.  The walks below perform the accesses that an operation needs, in
order, and so account for everything that it reports.  What an operation
answers depends on the entries alone.
-/

/-- A cell by its place. -/
structure Place where
  storage : Nat
  index : Nat

def placeOf (slice : Slice) (index : Nat) : Place :=
  ⟨slice.storage, slice.first + index⟩

def cellAt? (session : Session) (place : Place) : Option Cell :=
  (session.storages.getD place.storage #[])[place.index]?

def setCell (place : Place) (cell : Cell) : SessionM Unit :=
  modify fun session =>
    { session with
      storages := session.storages.modify place.storage fun cells => cells.setIfInBounds place.index cell }

/-- Read the frames of a nested key and make cells for its entries, which are
known already. -/
def openRecord (source : Source) (entries : List Entry) : SessionM Slice := do
  report (Key.events source.dialect source.data)
  match Key.frames source.dialect source.data with
  | .ok frames => store (List.zipWith (Cell.ofFrame source.dialect) frames entries)
  | .error _ => return Slice.empty

/-- Find the value of a cell. -/
def access (place : Place) : SessionM Unit := do
  match (<- get).cellAt? place with
  | none => pure ()
  | some cell =>
      match cell.source with
      | none => pure ()
      | some source =>
          if cell.valueKnown then pure ()
          else do
            report [.decodingEntry cell.entry.kind source.data.length]
            match cell.entry with
            | .ofValue (.record entries) => do
                let nested <- openRecord source entries
                setCell place { cell with nested, valueKnown := true }
            | .ofValue _ => setCell place { cell with valueKnown := true }
            | .undecodable .record _ _ => report (Key.events source.dialect source.data)
            | .undecodable _ _ _ => pure ()

/-- The slice of the nested record at a place, once its value is known. -/
def nestedAt (place : Place) : SessionM Slice := do
  return ((<- get).cellAt? place).elim Slice.empty Cell.nested

/-! ## Data -/

/-- From now on the data at a place is known. -/
def rememberData (place : Place) : SessionM Unit := do
  match (<- get).cellAt? place with
  | none => pure ()
  | some cell => setCell place { cell with dataKnown := true }

mutual

/-- Find the data of a value whose nested record is the slice. -/
def dataOfValue (nested : Slice) : Value -> SessionM Unit
  | .record entries => dataOfEntries nested 0 entries
  | _ => pure ()

/-- Find the data of an entry.  Only the data of nested records has to be
found, and it is remembered also when there is no value. -/
def dataOfEntry (place : Place) : Entry -> SessionM Unit
  | .ofValue value => do
      match (<- get).cellAt? place with
      | none => pure ()
      | some cell =>
          if value.kind ≠ .record ∨ cell.dataKnown then pure ()
          else do
            access place
            dataOfValue (<- nestedAt place) value
            rememberData place
  | .undecodable kind _ _ => do
      match (<- get).cellAt? place with
      | none => pure ()
      | some cell =>
          if kind ≠ .record ∨ cell.dataKnown then pure ()
          else do
            access place
            rememberData place

/-- Find the data of the entries of a slice from a position on. -/
def dataOfEntries (slice : Slice) (index : Nat) : List Entry -> SessionM Unit
  | [] => pure ()
  | entry :: entries => do
      dataOfEntry (placeOf slice index) entry
      dataOfEntries slice (index + 1) entries

end

/-- Find the data of all entries of a slice, as its key needs it. -/
def dataOfSlice (slice : Slice) : SessionM Unit := do
  dataOfEntries slice 0 ((<- get).record slice)

/-! ## Values -/

/-- What a walk over values does besides the accesses. -/
structure Walk where
  /-- How many levels of nested records are entered; all of them, if nothing
  is said. -/
  levels : Option Nat
  /-- What happens at an entry without a value, and whether to go on. -/
  missing : Place -> Entry -> SessionM Bool

namespace Walk

def everything : Walk := ⟨none, fun _ _ => return true⟩

/-- Look at nested records up to a level. -/
def upTo (levels : Nat) : Walk := ⟨some levels, fun _ _ => return true⟩

/-- Look at values in order until one is missing. -/
def untilMissing : Walk := ⟨none, fun _ _ => return false⟩

/-- Look at values, and at the data where there is none. -/
def hashing : Walk :=
  ⟨none, fun place entry => do
    dataOfEntry place entry
    return true⟩

/-- The walk one level further in. -/
def inner (walk : Walk) : Walk :=
  { walk with levels := walk.levels.map (· - 1) }

def enters (walk : Walk) : Bool :=
  walk.levels != some 0

end Walk

mutual

/-- Walk over a value whose nested record is the slice. -/
def walkValue (walk : Walk) (nested : Slice) : Value -> SessionM Bool
  | .record entries =>
      if walk.enters then walkEntries walk.inner nested 0 entries else return true
  | _ => return true

/-- Walk over an entry: find its value and walk over that. -/
def walkEntry (walk : Walk) (place : Place) : Entry -> SessionM Bool
  | .ofValue value => do
      access place
      walkValue walk (<- nestedAt place) value
  | .undecodable kind data cause => do
      access place
      walk.missing place (.undecodable kind data cause)

def walkEntries (walk : Walk) (slice : Slice) (index : Nat) : List Entry -> SessionM Bool
  | [] => return true
  | entry :: entries => do
      if <- walkEntry walk (placeOf slice index) entry then
        walkEntries walk slice (index + 1) entries
      else return false

end

def walkSlice (walk : Walk) (slice : Slice) : SessionM Unit := do
  let _ <- walkEntries walk slice 0 ((<- get).record slice)

/-! ## Comparing -/

mutual

/-- What comparing two values accesses.  The same slice is not looked at. -/
def compareValues (a b : Slice) : Value -> Value -> SessionM Unit
  | .record as, .record bs =>
      if a = b ∨ as.length ≠ bs.length then pure () else compareEntries a b 0 as bs
  | _, _ => pure ()

/-- What comparing two entries accesses: nothing unless the kinds agree. -/
def compareEntry (a b : Place) : Entry -> Entry -> SessionM Unit
  | .ofValue x, .ofValue y =>
      if x.kind = y.kind then do
        access a
        access b
        compareValues (<- nestedAt a) (<- nestedAt b) x y
      else pure ()
  | .undecodable kind data cause, .undecodable kind' data' cause' =>
      if kind = kind' then do
        access a
        access b
        dataOfEntry a (.undecodable kind data cause)
        dataOfEntry b (.undecodable kind' data' cause')
      else pure ()
  | .ofValue x, .undecodable kind _ _ =>
      if x.kind = kind then do
        access a
        access b
      else pure ()
  | .undecodable kind _ _, .ofValue y =>
      if kind = y.kind then do
        access a
        access b
      else pure ()

/-- What comparing entries in order accesses, up to the first difference. -/
def compareEntries (a b : Slice) (index : Nat) : List Entry -> List Entry -> SessionM Unit
  | x :: xs, y :: ys => do
      compareEntry (placeOf a index) (placeOf b index) x y
      if x.same y then compareEntries a b (index + 1) xs ys else pure ()
  | _, _ => pure ()

end

/-- What comparing two slices for equality accesses. -/
def compareSlices (a b : Slice) : SessionM Unit := do
  let session <- get
  compareValues a b (.record (session.record a)) (.record (session.record b))

/-- What ordering two slices accesses. -/
def orderSlices (a b : Slice) : SessionM Unit := do
  if a = b then pure ()
  else do
    dataOfSlice a
    dataOfSlice b

end Session
end SortKey
