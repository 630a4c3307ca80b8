import SortKey.View
import SortKey.Proofs.Octets
import SortKey.Proofs.Escape.Passes

namespace SortKey
namespace View

/-!
# What views show

Operations on views avoid copies where they can.  What their results show does not
depend on it.  Escaping and collapsing return the view itself only where the octets
would come out unchanged, and whole buffers are compared along another path with
the same result.
-/

theorem bytes_ofBuffer (buffer : Buffer) : (ofBuffer buffer).bytes = buffer.bytes := by
  simp [ofBuffer, bytes, length]

theorem bytes_of_isWhole {view : View} (whole : view.isWhole = true) :
    view.bytes = view.buffer.bytes := by
  simp only [isWhole, Bool.and_eq_true, beq_iff_eq] at whole
  simp [bytes, length, whole.1, whole.2]

theorem bytes_view (pool : Pool) (octets : Bytes) : (pool.view octets).1.bytes = octets :=
  bytes_ofBuffer ⟨pool.made, octets⟩

theorem isEmpty_iff (view : View) : view.isEmpty = true <-> view.bytes = [] := by
  have ordered := view.first_le_stop
  rw [isEmpty, beq_iff_eq, ← List.length_eq_zero_iff, length_bytes, length]
  omega

/-! ## Slices -/

theorem get_zero {view : View} {b : UInt8} {rest : Bytes} (shows : view.bytes = b :: rest) :
    view.get 0 = .ok b := by
  rw [get, shows]
  rfl

/-- A slice that is not refused shows a part of what its source does, in the same
buffer. -/
theorem exists_sliceFrom {view : View} {pos : Nat} (inside : pos ≤ view.length) :
    Exists fun part => view.sliceFrom pos = .ok part ∧
      part.buffer = view.buffer ∧ part.bytes = view.bytes.drop pos := by
  rw [sliceFrom, dif_pos inside]
  refine ⟨_, rfl, rfl, ?_⟩
  simp only [bytes, length, List.drop_take, List.drop_drop, Nat.sub_sub]

theorem exists_sliceTo {view : View} {pos : Nat} (inside : pos ≤ view.length) :
    Exists fun part => view.sliceTo pos = .ok part ∧
      part.buffer = view.buffer ∧ part.bytes = view.bytes.take pos := by
  rw [sliceTo, dif_pos inside]
  refine ⟨_, rfl, rfl, ?_⟩
  simp only [bytes, length, List.take_take, Nat.add_sub_cancel_left] at inside ⊢
  rw [Nat.min_eq_left inside]

theorem map_bytes_ofRange (buffer : Buffer) (first stop : Nat) :
    (ofRange buffer first stop).map bytes =
      if first ≤ stop ∧ stop ≤ buffer.bytes.length then
        .ok ((buffer.bytes.take stop).drop first)
      else .error (.invalidRange first stop buffer.bytes.length) := by
  unfold ofRange
  split
  · simp only [Except.map, bytes, length, List.drop_take]
  · rfl

theorem map_bytes_sliceFrom (view : View) (pos : Nat) :
    (view.sliceFrom pos).map bytes =
      if pos ≤ view.bytes.length then .ok (view.bytes.drop pos)
      else .error (.indexOutOfRange pos view.bytes.length) := by
  rw [length_bytes]
  split
  · next inside =>
      rcases exists_sliceFrom inside with ⟨part, sliced, _, shown⟩
      rw [sliced, Except.map, shown]
  · next outside =>
      rw [sliceFrom, dif_neg outside]
      rfl

theorem map_bytes_sliceTo (view : View) (pos : Nat) :
    (view.sliceTo pos).map bytes =
      if pos ≤ view.bytes.length then .ok (view.bytes.take pos)
      else .error (.indexOutOfRange pos view.bytes.length) := by
  rw [length_bytes]
  split
  · next inside =>
      rcases exists_sliceTo inside with ⟨part, sliced, _, shown⟩
      rw [sliced, Except.map, shown]
  · next outside =>
      rw [sliceTo, dif_neg outside]
      rfl

theorem ofRange_eq_ok {buffer : Buffer} {view : View} {first stop : Nat}
    (made : ofRange buffer first stop = .ok view) :
    view.buffer = buffer ∧ view.first = first ∧ view.stop = stop := by
  unfold ofRange at made
  split at made
  · cases made
    exact ⟨rfl, rfl, rfl⟩
  · cases made

theorem sliceFrom_eq_ok {source view : View} {pos : Nat} (made : source.sliceFrom pos = .ok view) :
    view.buffer = source.buffer ∧ view.first = source.first + pos ∧ view.stop = source.stop := by
  unfold sliceFrom at made
  split at made
  · cases made
    exact ⟨rfl, rfl, rfl⟩
  · cases made

theorem sliceTo_eq_ok {source view : View} {pos : Nat} (made : source.sliceTo pos = .ok view) :
    view.buffer = source.buffer ∧ view.first = source.first ∧
      view.stop = source.first + pos := by
  unfold sliceTo at made
  split at made
  · cases made
    exact ⟨rfl, rfl, rfl⟩
  · cases made

/-! ## Copies -/

theorem isWhole_ofBuffer (buffer : Buffer) : (ofBuffer buffer).isWhole = true := by
  simp [isWhole, ofBuffer]

theorem ofBuffer_of_isWhole {view : View} (whole : view.isWhole = true) :
    ofBuffer view.buffer = view := by
  simp only [isWhole, Bool.and_eq_true, beq_iff_eq] at whole
  cases view
  simp_all [ofBuffer]

/-- A view gives its own buffer when it shows that whole, and a new one otherwise. -/
theorem toBuffer_cases (pool : Pool) (view : View) :
    (view.isWhole = true ∧ view.toBuffer pool = (view.buffer, pool)) ∨
      (view.isWhole = false ∧ view.toBuffer pool = pool.buffer view.bytes) := by
  rw [toBuffer]
  cases view.isWhole with
  | true => exact .inl ⟨rfl, rfl⟩
  | false => exact .inr ⟨rfl, rfl⟩

theorem bytes_toBuffer (pool : Pool) (view : View) :
    (view.toBuffer pool).1.bytes = view.bytes := by
  rcases toBuffer_cases pool view with ⟨whole, same⟩ | ⟨_, same⟩
  · rw [same, bytes_of_isWhole whole]
  · rw [same]
    rfl

/-- Only when neither side is empty is there something to copy. -/
theorem append_cases (pool : Pool) (front back : View) :
    (front.bytes = [] ∧ View.append pool front back = (back, pool)) ∨
      (front.bytes ≠ [] ∧ back.bytes = [] ∧ View.append pool front back = (front, pool)) ∨
      (front.bytes ≠ [] ∧ back.bytes ≠ [] ∧
        View.append pool front back = pool.view (front.bytes ++ back.bytes)) := by
  simp only [append, isEmpty_iff]
  by_cases none : front.bytes = []
  · exact .inl ⟨none, if_pos none⟩
  · by_cases none' : back.bytes = []
    · exact .inr (.inl ⟨none, none', by rw [if_neg none, if_pos none']⟩)
    · exact .inr (.inr ⟨none, none', by rw [if_neg none, if_neg none']⟩)

theorem bytes_append (pool : Pool) (front back : View) :
    (View.append pool front back).1.bytes = front.bytes ++ back.bytes := by
  rcases append_cases pool front back with ⟨none, same⟩ | ⟨_, none, same⟩ | ⟨_, _, same⟩
  · rw [same, none, List.nil_append]
  · rw [same, none, List.append_nil]
  · rw [same, bytes_view]

/-- Only a single part is not copied. -/
theorem combine_cases (pool : Pool) (parts : List View) :
    (Exists fun part => parts = [part] ∧ View.combine pool parts = (part, pool)) ∨
      (parts.length ≠ 1 ∧ View.combine pool parts = pool.view (parts.flatMap bytes)) := by
  match parts with
  | [] => exact .inr ⟨by simp, rfl⟩
  | [part] => exact .inl ⟨part, rfl, rfl⟩
  | first :: second :: parts => exact .inr ⟨by simp, rfl⟩

theorem bytes_combine (pool : Pool) (parts : List View) :
    (View.combine pool parts).1.bytes = (parts.map bytes).flatten := by
  rcases combine_cases pool parts with ⟨part, rfl, same⟩ | ⟨_, same⟩
  · simp [same]
  · rw [same, bytes_view, List.flatMap_def]

/-! ## Escapes -/

/-- Only when some octet changes is there something to copy. -/
theorem escape_cases (pool : Pool) (esc : UInt8) (view : View) :
    (Escape.escape esc view.bytes = view.bytes ∧ view.escape pool esc = (view, pool)) ∨
      (Escape.escape esc view.bytes ≠ view.bytes ∧
        view.escape pool esc = pool.view (Escape.escape esc view.bytes)) := by
  simp only [escape, ← Escape.escape_eq_self_iff]
  by_cases same : Escape.escape esc view.bytes = view.bytes
  · exact .inl ⟨same, if_pos same⟩
  · exact .inr ⟨same, if_neg same⟩

theorem unescape_cases (pool : Pool) (esc : UInt8) (view : View) :
    (Escape.unescape esc view.bytes = view.bytes ∧ view.unescape pool esc = (view, pool)) ∨
      (Escape.unescape esc view.bytes ≠ view.bytes ∧
        view.unescape pool esc = pool.view (Escape.unescape esc view.bytes)) := by
  simp only [unescape, ← Escape.unescape_eq_self_iff]
  by_cases same : Escape.unescape esc view.bytes = view.bytes
  · exact .inl ⟨same, if_pos same⟩
  · exact .inr ⟨same, if_neg same⟩

theorem bytes_escape (pool : Pool) (esc : UInt8) (view : View) :
    (view.escape pool esc).1.bytes = Escape.escape esc view.bytes := by
  rcases escape_cases pool esc view with ⟨same, made⟩ | ⟨_, made⟩
  · rw [made, same]
  · rw [made, bytes_view]

theorem bytes_unescape (pool : Pool) (esc : UInt8) (view : View) :
    (view.unescape pool esc).1.bytes = Escape.unescape esc view.bytes := by
  rcases unescape_cases pool esc view with ⟨same, made⟩ | ⟨_, made⟩
  · rw [made, same]
  · rw [made, bytes_view]

/-! ## Order -/

/-- Both paths of the comparison order what is shown. -/
theorem order_eq_order (a b : View) : a.order b = a.bytes.order b.bytes := by
  unfold order
  split
  · next whole =>
      rw [Bool.and_eq_true] at whole
      rw [bytes_of_isWhole whole.1, bytes_of_isWhole whole.2]
  · exact Bytes.walkOrder_eq_order a.bytes b.bytes

end View
end SortKey
