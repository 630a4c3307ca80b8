import SortKey.Proofs.View

namespace SortKey
namespace Escape

/-!
# Passes that agree, and copies that are avoided

Collapsing passes over the octets twice.  The first pass only counts, and with its count
it decides whether there is a second one and how much room that gets.  Both decisions
are right: what the second pass drops is what the first has counted, so the room is
filled to the last octet, and where nothing is counted nothing would have been dropped.

So a view is handed back as it is exactly where the octets would come out as they are,
and the same holds of escaping, which counts the escape octets first.
-/

/-! ## Handed back or copied -/

section Made

variable {pool : Pool} {view : View} {made : View × Pool} {octets : Bytes} {same : Prop}

private theorem eq_self_iff_of_cases
    (cases : (same ∧ made = (view, pool)) ∨ (¬ same ∧ made = pool.view octets)) :
    made = (view, pool) <-> same := by
  rcases cases with ⟨holds, back⟩ | ⟨fails, copied⟩
  · exact iff_of_true back holds
  · -- A copy takes an identity from the pool.
    refine iff_of_false ?_ fails
    rw [copied]
    intro back
    exact absurd (congrArg (fun made => made.2.made) back) (Nat.succ_ne_self pool.made)

private theorem sharesBuffer_iff_of_cases (older : view.buffer.id < pool.made)
    (cases : (same ∧ made = (view, pool)) ∨ (¬ same ∧ made = pool.view octets)) :
    made.1.sharesBuffer view = true <-> same := by
  rcases cases with ⟨holds, back⟩ | ⟨fails, copied⟩
  · refine iff_of_true ?_ holds
    rw [back]
    exact beq_self_eq_true view.buffer.id
  · refine iff_of_false ?_ fails
    rw [copied, View.sharesBuffer, beq_iff_eq]
    exact Nat.ne_of_gt older

end Made

/-! ## Both passes -/

/-- What the second pass keeps of the octets, with as many escape octets as the first
pass has counted pairs, is all of them; so it drops as many octets as were counted, at
most every second one, and the room for the others is used up.  A view is handed back
exactly where collapsing, or escaping, would not change its octets; in every other case
the result lies in a buffer of its own. -/
theorem passes_agree (esc : UInt8) :
    (forall bytes : Bytes,
      (unescape esc bytes).Sublist bytes ∧
      (unescape esc bytes ++ List.replicate (pairs esc bytes) esc).Perm bytes ∧
      bytes.length - (unescape esc bytes).length = pairs esc bytes ∧
      pairs esc bytes ≤ bytes.length / 2 ∧
      bytes.length - pairs esc bytes = (unescape esc bytes).length) ∧
    (forall (pool : Pool) (view : View),
      (view.unescape pool esc = (view, pool) <-> unescape esc view.bytes = view.bytes) ∧
      (view.escape pool esc = (view, pool) <-> escape esc view.bytes = view.bytes)) ∧
    (forall (pool : Pool) (view : View), view.buffer.id < pool.made ->
      ((view.unescape pool esc).1.sharesBuffer view = true <->
        unescape esc view.bytes = view.bytes) ∧
      ((view.escape pool esc).1.sharesBuffer view = true <->
        escape esc view.bytes = view.bytes)) := by
  refine ⟨?_, ?_, ?_⟩
  · intro bytes
    have dropped := length_unescape_add_pairs esc bytes
    have half : 2 * pairs esc bytes ≤ bytes.length :=
      Nat.le_trans (two_mul_pairs_le_count esc bytes) List.count_le_length
    refine ⟨unescape_sublist esc bytes, perm_unescape_append esc bytes, ?_, ?_, ?_⟩ <;> omega
  · intro pool view
    exact ⟨eq_self_iff_of_cases (view.unescape_cases pool esc),
      eq_self_iff_of_cases (view.escape_cases pool esc)⟩
  · intro pool view older
    exact ⟨sharesBuffer_iff_of_cases older (view.unescape_cases pool esc),
      sharesBuffer_iff_of_cases older (view.escape_cases pool esc)⟩

/-- In the middle of a buffer, a run of five and a lone escape octet: two pairs are
counted, and without them there is nothing to collapse but still something to escape. -/
theorem passes_agree_on_an_odd_run :
    let buffer : Buffer := ⟨0, [1, 0xFE, 0xFE, 0xFE, 0xFE, 0xFE, 2, 0xFE, 3]⟩
    let run : View := ⟨buffer, 1, 6, by decide, by decide⟩
    let lone : View := ⟨buffer, 6, 9, by decide, by decide⟩
    5 - pairs 0xFE run.bytes = 3 ∧
      (run.unescape ⟨1⟩ 0xFE).1.sharesBuffer run = false ∧
      lone.unescape ⟨1⟩ 0xFE = (lone, ⟨1⟩) ∧
      (lone.escape ⟨1⟩ 0xFE).1.sharesBuffer lone = false := by
  intro buffer run lone
  rcases passes_agree 0xFE with ⟨counted, back, shared⟩
  refine ⟨(counted run.bytes).2.2.2.2, ?_, (back ⟨1⟩ lone).1.mpr (by decide), ?_⟩
  · rw [← Bool.not_eq_true, (shared ⟨1⟩ run (by decide)).1]
    decide
  · rw [← Bool.not_eq_true, (shared ⟨1⟩ lone (by decide)).2]
    decide

end Escape
end SortKey
