import SortKey.View

namespace SortKey

/-!
# Views made from views

A view is made of new octets or of views that were made before.  It is made of a view's
buffer only as far as the view shows it: a view that shows its buffer whole gives the
buffer itself, any other gives a copy.  So a buffer that is held alone is the same as a
view that shows it whole.

On a shelf, views are asked for by number.  What is refused leaves the shelf as it is.
-/

/-- A way to make a view from others. -/
inductive Making (α : Type) where
  /-- All of a new buffer. -/
  | new (octets : Bytes)
  /-- All of the buffer that a view gives. -/
  | shared (source : α)
  /-- A range of the buffer that a view gives. -/
  | range (source : α) (first stop : Nat)
  | sliceFrom (source : α) (pos : Nat)
  | sliceTo (source : α) (pos : Nat)
  | append (front back : α)
  | combine (parts : List α)
deriving DecidableEq, Repr

namespace Making

/-- The same way from something else. -/
def map {α β : Type} (f : α -> β) : Making α -> Making β
  | .new octets => .new octets
  | .shared source => .shared (f source)
  | .range source first stop => .range (f source) first stop
  | .sliceFrom source pos => .sliceFrom (f source) pos
  | .sliceTo source pos => .sliceTo (f source) pos
  | .append front back => .append (f front) (f back)
  | .combine parts => .combine (parts.map f)

/-- The same way from what the names stand for, if each stands for something. -/
def named? {α β : Type} (lookup : α -> Option β) : Making α -> Option (Making β)
  | .new octets => some (.new octets)
  | .shared source => do return .shared (<- lookup source)
  | .range source first stop => do return .range (<- lookup source) first stop
  | .sliceFrom source pos => do return .sliceFrom (<- lookup source) pos
  | .sliceTo source pos => do return .sliceTo (<- lookup source) pos
  | .append front back => do return .append (<- lookup front) (<- lookup back)
  | .combine parts => do return .combine (<- parts.mapM lookup)

end Making

/-- Make a view. -/
def View.made (pool : Pool) : Making View -> Except ByteError (View × Pool)
  | .new octets => .ok (pool.view octets)
  | .shared source =>
      let shared := source.toBuffer pool
      .ok (View.ofBuffer shared.1, shared.2)
  | .range source first stop => do
      let shared := source.toBuffer pool
      return (<- View.ofRange shared.1 first stop, shared.2)
  | .sliceFrom source pos => do return (<- source.sliceFrom pos, pool)
  | .sliceTo source pos => do return (<- source.sliceTo pos, pool)
  | .append front back => .ok (View.append pool front back)
  | .combine parts => .ok (View.combine pool parts)

namespace Shelf

/-- Make a view from views of the shelf and keep it.  Nothing is answered when one of
them is not there. -/
def make (making : Making Nat) (shelf : Shelf) : Option (Except ByteError View) × Shelf :=
  match making.named? (shelf.views[·]?) with
  | none => (none, shelf)
  | some named =>
      match View.made shelf.pool named with
      | .ok made => (some (.ok made.1), shelf.put made)
      | .error cause => (some (.error cause), shelf)

/-- Make views one after the other, also after one that was refused. -/
def makeAll : List (Making Nat) -> Shelf -> List (Option (Except ByteError View)) × Shelf
  | [], shelf => ([], shelf)
  | making :: makings, shelf =>
      let step := shelf.make making
      let others := makeAll makings step.2
      (step.1 :: others.1, others.2)

end Shelf

/-! ## Positions as words

Positions are words of 64 bits, and sums of words wrap around.
-/

/-- The ends of a view as words. -/
structure Bounds where
  first : UInt64
  stop : UInt64
deriving DecidableEq, Repr

namespace Bounds

def ofView (view : View) : Bounds :=
  ⟨UInt64.ofNat view.first, UInt64.ofNat view.stop⟩

/-- A range of a buffer of that length. -/
def ofRange (length first stop : UInt64) : Except ByteError Bounds :=
  if first > stop ∨ stop > length then
    .error (.invalidRange first.toNat stop.toNat length.toNat)
  else .ok ⟨first, stop⟩

def length (bounds : Bounds) : UInt64 :=
  bounds.stop - bounds.first

/-- Without the first `pos` octets.  Nothing is added when nothing is cut off. -/
def sliceFrom (bounds : Bounds) (pos : UInt64) : Except ByteError Bounds :=
  if pos > bounds.length then .error (.indexOutOfRange pos.toNat bounds.length.toNat)
  else if pos = 0 then .ok bounds
  else .ok ⟨bounds.first + pos, bounds.stop⟩

/-- The first `pos` octets.  Nothing is added when nothing is cut off. -/
def sliceTo (bounds : Bounds) (pos : UInt64) : Except ByteError Bounds :=
  if pos > bounds.length then .error (.indexOutOfRange pos.toNat bounds.length.toNat)
  else if pos = bounds.length then .ok bounds
  else .ok ⟨bounds.first, bounds.first + pos⟩

end Bounds

end SortKey
