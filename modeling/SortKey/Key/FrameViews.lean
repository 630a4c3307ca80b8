import SortKey.Key.Frames
import SortKey.View

namespace SortKey

/-!
# The key form, cut from a view

The octets of a key are a view, and its entries are cut off it one in each turn: the
code is taken off the front, the data is what stands before the separator, and the next
turn gets the view of what is left behind it.  No octets are copied unless an
escape has to be taken away, so the data of most entries shows the buffer of the key.

A view checks the bounds of every slice that is asked of it.  A slice that is refused
would be a failure of the record, like a code that stands for nothing.
-/

namespace Key

/-- One entry as it is cut from a view, with unescaped data. -/
structure FrameView where
  code : UInt8
  kind : Kind
  data : View
deriving DecidableEq, Repr

/-- The frame with the octets that its view shows. -/
def FrameView.shown (frame : FrameView) : Frame :=
  ⟨frame.code, frame.kind, frame.data.bytes⟩

/-- What a turn finds at the front of a view. -/
inductive Turn where
  /-- A code that announces an empty record. -/
  | emptyRecord
  /-- The last entry, with or without its separator. -/
  | last (frame : FrameView)
  /-- An entry, and what is left behind its separator. -/
  | next (frame : FrameView) (left : View)
deriving DecidableEq, Repr

/-- What a view answers, its failure seen from the record. -/
def answered {α : Type} (answer : Except ByteError α) : Except RecordError α :=
  answer.mapError RecordError.ofByteError

@[simp] theorem answered_ok {α : Type} (content : α) : answered (.ok content) = .ok content :=
  rfl

/-- Cut one entry off the front of a view. -/
def turn (dialect : Option Dialect) (pool : Pool) (atFront : Bool) (view : View) :
    Except RecordError (Turn × Pool) := do
  let code <- answered (view.get 0)
  match (<- Wire.ofCode dialect code).entryKind? with
  | none => if atFront then .ok (.emptyRecord, pool) else .error (.invalidCode code)
  | some kind =>
      let behind <- answered (view.sliceFrom 1)
      let pos := Escape.findSeparator separator behind.bytes
      let written <- answered (behind.sliceTo pos)
      let unescaped := written.unescape pool separator
      if unescaped.1.isEmpty then .error .emptyData
      else if pos = behind.length ∨ pos + 1 = behind.length then
        .ok (.last ⟨code, kind, unescaped.1⟩, unescaped.2)
      else
        let left <- answered (behind.sliceFrom (pos + 1))
        .ok (.next ⟨code, kind, unescaped.1⟩ left, unescaped.2)

/-! ## What a turn leaves -/

private theorem bind_eq_ok_iff {α β : Type} {first : Except RecordError α}
    {next : α -> Except RecordError β} {made : β} :
    first >>= next = .ok made <->
      Exists fun content => first = .ok content ∧ next content = .ok made := by
  cases first <;> simp [bind, Except.bind]

theorem length_of_sliceFrom {view part : View} {pos : Nat}
    (sliced : answered (view.sliceFrom pos) = .ok part) :
    pos ≤ view.length ∧ part.length = view.length - pos := by
  unfold View.sliceFrom at sliced
  split at sliced
  · next inside =>
      cases sliced
      exact ⟨inside, (Nat.sub_sub view.stop view.first pos).symm⟩
  · cases sliced

/-- A turn leaves less than it was given, so the turns come to an end. -/
theorem length_left_lt {dialect : Option Dialect} {pool after : Pool} {atFront : Bool}
    {view left : View} {frame : FrameView}
    (goesOn : turn dialect pool atFront view = .ok (.next frame left, after)) :
    left.length < view.length := by
  rcases bind_eq_ok_iff.mp goesOn with ⟨code, _, goesOn⟩
  rcases bind_eq_ok_iff.mp goesOn with ⟨wire, _, goesOn⟩
  split at goesOn
  · split at goesOn <;> cases goesOn
  · rcases bind_eq_ok_iff.mp goesOn with ⟨behind, withoutCode, goesOn⟩
    rcases bind_eq_ok_iff.mp goesOn with ⟨written, _, goesOn⟩
    dsimp only at goesOn
    split at goesOn
    · cases goesOn
    · split at goesOn
      · cases goesOn
      · rcases bind_eq_ok_iff.mp goesOn with ⟨rest, withoutData, goesOn⟩
        cases goesOn
        have first := length_of_sliceFrom withoutCode
        have second := length_of_sliceFrom withoutData
        omega

/-! ## All turns -/

/-- Cut entries off a view, turn by turn.  Entries cut off before are in `read`, newest
first. -/
def frameViewsOnto (dialect : Option Dialect) (read : List FrameView) (pool : Pool) (view : View) :
    Except RecordError (List FrameView × Pool) :=
  match found : turn dialect pool read.isEmpty view with
  | .error cause => .error cause
  | .ok (.emptyRecord, pool) => .ok ([], pool)
  | .ok (.last frame, pool) => .ok ((frame :: read).reverse, pool)
  | .ok (.next frame left, pool) =>
      have := length_left_lt found
      frameViewsOnto dialect (frame :: read) pool left
termination_by view.length

/-- Cut the view of a key into its entries. -/
def frameViews (dialect : Option Dialect) (pool : Pool) (view : View) :
    Except RecordError (List FrameView × Pool) :=
  match view.first? with
  | none => .ok ([], pool)
  | some code =>
      if code = separator ∨ code = emptyMarker then .ok ([], pool)
      else frameViewsOnto dialect [] pool view

end Key
end SortKey
