import SortKey.Proofs.View

namespace SortKey
namespace Escape

/-!
# The order of escaped data

Escaping moves octets, and it moves them differently in different data.  The first
difference stays the same all the same.  What is common in front of it is escaped
alike, and of a doubled octet the first half is already different.  Where there is
no difference, one string begins the other, and so it does escaped.  The converse
holds because no escaped data ends in the middle of a pair.
-/

variable {esc : UInt8}

theorem order_escape (as bs : Bytes) :
    (escape esc as).order (escape esc bs) = as.order bs := by
  induction as generalizing bs with
  | nil =>
      cases bs with
      | nil => rfl
      | cons b bs =>
          rcases exists_escape_cons esc b bs with ⟨more, start⟩
          rw [start]
          rfl
  | cons a as ih =>
      cases bs with
      | nil =>
          rcases exists_escape_cons esc a as with ⟨more, start⟩
          rw [start]
          rfl
      | cons b bs =>
          by_cases same : a = b
          · subst same
            rw [escape_cons, escape_cons a bs, Bytes.order_append_left, ih, Bytes.order_cons_self]
          · rcases exists_escape_cons esc a as with ⟨moreA, startA⟩
            rcases exists_escape_cons esc b bs with ⟨moreB, startB⟩
            rw [startA, startB, Bytes.order_cons_of_ne same, Bytes.order_cons_of_ne same]

theorem escape_prefix_escape_iff (a b : Bytes) :
    escape esc a <+: escape esc b <-> a <+: b := by
  have alone : escape esc a <+: escape esc b ++ [] <-> a <+: b :=
    escape_prefix_iff a b (Or.inl rfl)
  rwa [List.append_nil] at alone

/-- Escaping keeps the order of octets, however they are compared, and one string
begins another exactly when it does so escaped.  Views are compared through their
escaped octets as they are without. -/
theorem escape_keeps_order_and_beginnings (esc : UInt8) :
    (forall a b : Bytes,
      (escape esc a).order (escape esc b) = a.order b ∧
      (escape esc a).walkOrder (escape esc b) = a.walkOrder b ∧
      (escape esc a <+: escape esc b <-> a <+: b)) ∧
    (forall (poolA poolB : Pool) (a b : View),
      (a.escape poolA esc).1.order (b.escape poolB esc).1 = a.order b ∧
      ((a.escape poolA esc).1.bytes <+: (b.escape poolB esc).1.bytes <-> a.bytes <+: b.bytes)) := by
  constructor
  · intro a b
    refine ⟨order_escape a b, ?_, escape_prefix_escape_iff a b⟩
    rw [Bytes.walkOrder_eq_order, Bytes.walkOrder_eq_order, order_escape]
  · intro poolA poolB a b
    rw [View.order_eq_order, View.order_eq_order, View.bytes_escape, View.bytes_escape]
    exact ⟨order_escape a.bytes b.bytes, escape_prefix_escape_iff a.bytes b.bytes⟩

end Escape
end SortKey
