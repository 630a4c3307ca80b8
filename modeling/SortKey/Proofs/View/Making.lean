import SortKey.View.Making
import SortKey.Proofs.View

namespace SortKey

/-!
# Views and strings

What a view shows is what the same way of making gives for strings of octets, where
slices are cut off and parts are put behind one another.

Where a view lies is explained from the views that it was made of.  A slice stays in the
buffer of its source.  What had to be copied is the whole of a buffer that no view
before shows, and the shortcuts that return an operand do so for an empty side or a
single part only.
-/

/-- Make a string in the way in which a view is made. -/
def Bytes.made : Making Bytes -> Except ByteError Bytes
  | .new octets => .ok octets
  | .shared source => .ok source
  | .range source first stop =>
      if first ≤ stop ∧ stop ≤ source.length then .ok ((source.take stop).drop first)
      else .error (.invalidRange first stop source.length)
  | .sliceFrom source pos =>
      if pos ≤ source.length then .ok (source.drop pos)
      else .error (.indexOutOfRange pos source.length)
  | .sliceTo source pos =>
      if pos ≤ source.length then .ok (source.take pos)
      else .error (.indexOutOfRange pos source.length)
  | .append front back => .ok (front ++ back)
  | .combine parts => .ok parts.flatten

namespace Making

/-- What a view is made of. -/
def sources {α : Type} : Making α -> List α
  | .new _ => []
  | .shared source => [source]
  | .range source _ _ => [source]
  | .sliceFrom source _ => [source]
  | .sliceTo source _ => [source]
  | .append front back => [front, back]
  | .combine parts => parts

theorem mapM_map {α β γ : Type} (lookup : α -> Option β) (f : β -> γ) (names : List α) :
    names.mapM (fun name => (lookup name).map f) = (names.mapM lookup).map (List.map f) := by
  induction names with
  | nil => rfl
  | cons name names ih =>
      rw [List.mapM_cons, List.mapM_cons, ih]
      cases lookup name with
      | none => rfl
      | some found => cases names.mapM lookup <;> rfl

/-- Names can be looked up in a row that was made from another. -/
theorem named?_map {α β γ : Type} (lookup : α -> Option β) (f : β -> γ) (making : Making α) :
    making.named? (fun name => (lookup name).map f) = (making.named? lookup).map (map f) := by
  cases making with
  | new octets => rfl
  | shared source => simp only [named?]; cases lookup source <;> rfl
  | range source first stop => simp only [named?]; cases lookup source <;> rfl
  | sliceFrom source pos => simp only [named?]; cases lookup source <;> rfl
  | sliceTo source pos => simp only [named?]; cases lookup source <;> rfl
  | append front back =>
      simp only [named?]
      cases lookup front <;> cases lookup back <;> rfl
  | combine parts =>
      simp only [named?, mapM_map]
      cases parts.mapM lookup <;> rfl

theorem mem_of_mapM {α β : Type} {lookup : α -> Option β} {names : List α} {all : List β}
    (found : names.mapM lookup = some all) :
    ∀ part ∈ all, Exists fun name => lookup name = some part := by
  induction names generalizing all with
  | nil => cases found; simp
  | cons name names ih =>
      rw [List.mapM_cons] at found
      rcases Option.bind_eq_some_iff.mp found with ⟨first, here, found⟩
      rcases Option.bind_eq_some_iff.mp found with ⟨others, there, found⟩
      cases found
      intro part member
      rcases List.mem_cons.mp member with rfl | member
      · exact ⟨name, here⟩
      · exact ih there part member

/-- Whatever a view is made of was found. -/
theorem mem_of_named? {α β : Type} {lookup : α -> Option β} {making : Making α}
    {named : Making β} (found : making.named? lookup = some named) :
    ∀ source ∈ named.sources, Exists fun name => lookup name = some source := by
  cases making with
  | new octets => cases found; simp [sources]
  | shared source | range source first stop | sliceFrom source pos | sliceTo source pos =>
      rcases Option.bind_eq_some_iff.mp found with ⟨view, here, found⟩
      cases found
      simpa [sources] using ⟨source, here⟩
  | append front back =>
      rcases Option.bind_eq_some_iff.mp found with ⟨first, here, found⟩
      rcases Option.bind_eq_some_iff.mp found with ⟨second, there, found⟩
      cases found
      simpa [sources] using And.intro ⟨front, here⟩ ⟨back, there⟩
  | combine parts =>
      rcases Option.bind_eq_some_iff.mp found with ⟨views, there, found⟩
      cases found
      exact mem_of_mapM there

end Making

/-! ## What is shown -/

/-- A view shows what the strings of its sources give. -/
theorem View.map_bytes_made (pool : Pool) (making : Making View) :
    (View.made pool making).map (fun made => made.1.bytes) = Bytes.made (making.map View.bytes) := by
  have with_pool (answer : Except ByteError View) (after : Pool) :
      (do return (<- answer, after) : Except ByteError (View × Pool)).map
        (fun made => made.1.bytes) = answer.map View.bytes := by
    cases answer <;> rfl
  cases making with
  | new octets => exact congrArg Except.ok (bytes_view pool octets)
  | shared source =>
      exact congrArg Except.ok ((bytes_ofBuffer _).trans (bytes_toBuffer pool source))
  | range source first stop =>
      rw [made, with_pool, map_bytes_ofRange, bytes_toBuffer]
      rfl
  | sliceFrom source pos => exact (with_pool _ pool).trans (map_bytes_sliceFrom source pos)
  | sliceTo source pos => exact (with_pool _ pool).trans (map_bytes_sliceTo source pos)
  | append front back => exact congrArg Except.ok (bytes_append pool front back)
  | combine parts => exact congrArg Except.ok (bytes_combine pool parts)

/-! ## Where a view lies -/

namespace View

/-- All of a buffer that none of the others shows. -/
def Fresh (others : Array View) (view : View) : Prop :=
  view.isWhole = true ∧ ∀ other ∈ others, other.sharesBuffer view = false

theorem Fresh.ne {others : Array View} {view other : View} (fresh : view.Fresh others)
    (there : other ∈ others) : view ≠ other := by
  intro same
  have apart := fresh.2 other there
  simp [same, sharesBuffer] at apart

theorem fresh_of_id_lt {others : Array View} {pool : Pool}
    (older : ∀ other ∈ others, other.buffer.id < pool.made) (octets : Bytes) :
    (ofBuffer ⟨pool.made, octets⟩).Fresh others := by
  refine ⟨isWhole_ofBuffer _, ?_⟩
  intro other there
  exact beq_false_of_ne (Nat.ne_of_lt (older other there))

end View

/-- Where a view lies that was made in some way when the others were there. -/
def Making.Explains (others : Array View) : Making View -> View -> Prop
  | .new _, view => view.Fresh others
  | .shared source, view =>
      (source.isWhole = true ∧ view = source) ∨ (source.isWhole = false ∧ view.Fresh others)
  | .range source first stop, view =>
      view.first = first ∧ view.stop = stop ∧
        ((source.isWhole = true ∧ view.buffer = source.buffer) ∨
          (source.isWhole = false ∧ view.buffer.bytes = source.bytes ∧
            (View.ofBuffer view.buffer).Fresh others))
  | .sliceFrom source pos, view =>
      view.buffer = source.buffer ∧ view.first = source.first + pos ∧ view.stop = source.stop
  | .sliceTo source pos, view =>
      view.buffer = source.buffer ∧ view.first = source.first ∧ view.stop = source.first + pos
  | .append front back, view =>
      (front.bytes = [] ∧ view = back) ∨
        (front.bytes ≠ [] ∧ back.bytes = [] ∧ view = front) ∨
        (front.bytes ≠ [] ∧ back.bytes ≠ [] ∧ view.Fresh others)
  | .combine parts, view => parts = [view] ∨ (parts.length ≠ 1 ∧ view.Fresh others)

namespace View

variable {pool after : Pool} {making : Making View} {view : View}

private theorem ok_of_bind {answer : Except ByteError View} {kept : Pool}
    (made : (do return (<- answer, kept) : Except ByteError (View × Pool)) = .ok (view, after)) :
    answer = .ok view ∧ after = kept := by
  cases answer with
  | error cause => cases made
  | ok part =>
      cases made
      exact ⟨rfl, rfl⟩

/-- A view is explained if the buffers of all others were made before. -/
theorem explains_of_made {others : Array View}
    (older : ∀ other ∈ others, other.buffer.id < pool.made)
    (result : View.made pool making = .ok (view, after)) : making.Explains others view := by
  cases making with
  | new octets =>
      cases result
      exact fresh_of_id_lt older octets
  | shared source =>
      cases result
      rcases toBuffer_cases pool source with ⟨whole, same⟩ | ⟨part, same⟩
      · rw [same]
        exact .inl ⟨whole, ofBuffer_of_isWhole whole⟩
      · rw [same]
        exact .inr ⟨part, fresh_of_id_lt older source.bytes⟩
  | range source first stop =>
      rcases ofRange_eq_ok (ok_of_bind result).1 with ⟨within, starts, stops⟩
      refine ⟨starts, stops, ?_⟩
      rw [within]
      rcases toBuffer_cases pool source with ⟨whole, same⟩ | ⟨part, same⟩
      · rw [same]
        exact .inl ⟨whole, rfl⟩
      · rw [same]
        exact .inr ⟨part, rfl, fresh_of_id_lt older source.bytes⟩
  | sliceFrom source pos => exact sliceFrom_eq_ok (ok_of_bind result).1
  | sliceTo source pos => exact sliceTo_eq_ok (ok_of_bind result).1
  | append front back =>
      rw [made, Except.ok.injEq] at result
      rcases append_cases pool front back with ⟨none, same⟩ | ⟨some, none, same⟩ | ⟨some, some', same⟩
      all_goals
        rw [same] at result
        cases result
      · exact .inl ⟨none, rfl⟩
      · exact .inr (.inl ⟨some, none, rfl⟩)
      · exact .inr (.inr ⟨some, some', fresh_of_id_lt older _⟩)
  | combine parts =>
      rw [made, Except.ok.injEq] at result
      rcases combine_cases pool parts with ⟨part, single, same⟩ | ⟨several, same⟩
      all_goals
        rw [same] at result
        cases result
      · exact .inl single
      · exact .inr ⟨several, fresh_of_id_lt older _⟩

/-- Either a view lies in the buffer of something that it is made of, or in the next
buffer of the pool. -/
theorem buffer_of_made (result : View.made pool making = .ok (view, after)) :
    (after = pool ∧ Exists fun source => source ∈ making.sources ∧ view.buffer = source.buffer) ∨
      (after.made = pool.made + 1 ∧ view.buffer.id = pool.made) := by
  cases making with
  | new octets =>
      cases result
      exact .inr ⟨rfl, rfl⟩
  | shared source =>
      cases result
      rcases toBuffer_cases pool source with ⟨_, same⟩ | ⟨_, same⟩
      · rw [same]
        exact .inl ⟨rfl, source, List.mem_singleton_self source, rfl⟩
      · rw [same]
        exact .inr ⟨rfl, rfl⟩
  | range source first stop =>
      rcases ok_of_bind result with ⟨ranged, kept⟩
      rw [kept, (ofRange_eq_ok ranged).1]
      rcases toBuffer_cases pool source with ⟨_, same⟩ | ⟨_, same⟩
      · rw [same]
        exact .inl ⟨rfl, source, List.mem_singleton_self source, rfl⟩
      · rw [same]
        exact .inr ⟨rfl, rfl⟩
  | sliceFrom source pos =>
      rcases ok_of_bind result with ⟨sliced, kept⟩
      exact .inl ⟨kept, source, List.mem_singleton_self source, (sliceFrom_eq_ok sliced).1⟩
  | sliceTo source pos =>
      rcases ok_of_bind result with ⟨sliced, kept⟩
      exact .inl ⟨kept, source, List.mem_singleton_self source, (sliceTo_eq_ok sliced).1⟩
  | append front back =>
      rw [made, Except.ok.injEq] at result
      rcases append_cases pool front back with ⟨_, same⟩ | ⟨_, _, same⟩ | ⟨_, _, same⟩
      all_goals
        rw [same] at result
        cases result
      · exact .inl ⟨rfl, view, by simp [Making.sources], rfl⟩
      · exact .inl ⟨rfl, view, by simp [Making.sources], rfl⟩
      · exact .inr ⟨rfl, rfl⟩
  | combine parts =>
      rw [made, Except.ok.injEq] at result
      rcases combine_cases pool parts with ⟨part, rfl, same⟩ | ⟨_, same⟩
      all_goals
        rw [same] at result
        cases result
      · exact .inl ⟨rfl, view, List.mem_singleton_self view, rfl⟩
      · exact .inr ⟨rfl, rfl⟩

end View
end SortKey
