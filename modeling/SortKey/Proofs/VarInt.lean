import SortKey.VarInt
import Mathlib.Algebra.Group.Nat.Defs

namespace SortKey
namespace VarInt

/-!
# Written numbers are read back

A number is read from the groups in which it was written, whatever stands
behind them.  The fifth group of a number in range holds three bits, so the
check that guards it never refuses what was written.
-/

@[simp] theorem length_groups (more n : Nat) : (groups more n).length = more + 1 := by
  induction more generalizing n with
  | zero => rfl
  | succ more ih => rw [groups, List.length_cons, ih]

/-- One group: the check that guards the fifth one, and then what the group adds,
with the power for which the laws of powers are stated. -/
theorem decodeFrom_cons (index value : Nat) (b : UInt8) (rest : Bytes) :
    decodeFrom index value (b :: rest) =
      if longest ≤ index + 1 && 8 ≤ b.toNat then .error .malformedVarInt
      else if b.toNat < 128 then .ok (value + b.toNat % 128 * 128 ^ index, index + 1)
      else decodeFrom (index + 1) (value + b.toNat % 128 * 128 ^ index) rest :=
  rfl

/-- Groups continue the number whose first groups were read before. -/
private theorem decodeFrom_groups (more index value n : Nat) (rest : Bytes)
    (fits : n < 128 ^ (more + 1)) (short : index + more + 1 ≤ longest)
    (last : index + more + 1 = longest -> n < 8 * 128 ^ more) :
    decodeFrom index value (groups more n ++ rest) =
      .ok (value + n * 128 ^ index, index + more + 1) := by
  induction more generalizing index value n with
  | zero =>
      have small : n < 128 := by simpa using fits
      have octet : (UInt8.ofNat n).toNat = n := UInt8.toNat_ofNat_of_lt' (by simp [UInt8.size]; omega)
      have allowed : ¬ (longest ≤ index + 1 ∧ 8 ≤ n) := by
        rintro ⟨reached, large⟩
        have := last (by omega)
        omega
      simp [groups, decodeFrom_cons, octet, allowed, small, Nat.mod_eq_of_lt small]
  | succ more ih =>
      have octet : (UInt8.ofNat (n % 128 + 128)).toNat = n % 128 + 128 :=
        UInt8.toNat_ofNat_of_lt' (by simp [UInt8.size]; omega)
      have group : (n % 128 + 128) % 128 = n % 128 := by omega
      have continued : ¬ n % 128 + 128 < 128 := by omega
      have early : ¬ longest ≤ index + 1 := by omega
      have fitsRest : n / 128 < 128 ^ (more + 1) := by
        rw [Nat.div_lt_iff_lt_mul (by decide), ← Nat.pow_succ]
        exact fits
      have lastRest : index + 1 + more + 1 = longest -> n / 128 < 8 * 128 ^ more := by
        intro reached
        have bounded := last (by omega)
        rw [Nat.div_lt_iff_lt_mul (by decide), Nat.mul_assoc, ← Nat.pow_succ]
        exact bounded
      have joined : value + n % 128 * 128 ^ index + n / 128 * 128 ^ (index + 1) =
          value + n * 128 ^ index := by
        rw [Nat.pow_succ, Nat.mul_comm (128 ^ index), ← Nat.mul_assoc, Nat.add_assoc,
          ← Nat.add_mul, Nat.mul_comm (n / 128), Nat.mod_add_div]
      have used : index + 1 + more + 1 = index + (more + 1) + 1 := by omega
      rw [groups, List.cons_append, decodeFrom_cons]
      simp only [octet, group, continued, early, decide_false, Bool.false_and, Bool.false_eq_true,
        if_false]
      rw [ih (index + 1) _ (n / 128) fitsRest (by omega) lastRest, joined, used]

/-- The writer's size holds the number, and never exceeds five groups. -/
private theorem size_spec {n : Nat} (inRange : n ≤ largest) :
    n < 128 ^ (size n - 1 + 1) ∧ size n - 1 + 1 = size n ∧ size n ≤ longest ∧
      (size n = longest -> n < 8 * 128 ^ (size n - 1)) := by
  have bounded : n ≤ 0x7FFFFFFF := inRange
  unfold size longest
  split
  · omega
  · split
    · omega
    · split
      · omega
      · split <;> omega

/-- The octets of a number in range. -/
def octets (n : Nat) : Bytes :=
  groups (size n - 1) n

theorem length_octets {n : Nat} (inRange : n ≤ largest) : (octets n).length = size n := by
  rw [octets, length_groups, (size_spec inRange).2.1]

theorem encode_of_le {n : Nat} (inRange : n ≤ largest) : encode n = .ok (octets n) := by
  rw [encode, if_neg (Nat.not_lt.mpr inRange), octets]

/-- A number in range is read back with all its groups, and nothing behind
them is looked at. -/
theorem decode_octets_append {n : Nat} (inRange : n ≤ largest) (rest : Bytes) :
    decode (octets n ++ rest) = .ok (n, (octets n).length) := by
  rcases size_spec inRange with ⟨fits, whole, short, last⟩
  rw [length_octets inRange, octets, decode,
    decodeFrom_groups _ 0 0 n rest fits (by omega) (by omega)]
  simp [whole]

/-- A number is found in a front of the octets, whatever stands behind it.  A
part of that front is cut off and never malformed: the check of the fifth group
looks at that group alone. -/
theorem exists_groups {index value n used : Nat} {bytes : Bytes}
    (read : decodeFrom index value bytes = .ok (n, used)) :
    Exists fun front => Exists fun rest => bytes = front ++ rest ∧ used = index + front.length ∧
      (forall behind, decodeFrom index value (front ++ behind) = .ok (n, used)) ∧
      forall part, part <+: front -> part ≠ front ->
        decodeFrom index value part = .error .endOfBuffer := by
  induction bytes generalizing index value with
  | nil => cases read
  | cons b bytes ih =>
      rw [decodeFrom_cons] at read
      split at read
      · cases read
      · next allowed =>
          split at read
          · next last =>
              cases read
              refine ⟨[b], bytes, rfl, rfl, ?_, ?_⟩
              · intro behind
                rw [List.singleton_append, decodeFrom_cons, if_neg allowed]
                exact if_pos last
              · intro part inside shorter
                rcases List.prefix_cons_iff.mp inside with rfl | ⟨left, rfl, none⟩
                · rfl
                · exact absurd (congrArg _ (List.prefix_nil.mp none)) shorter
          · next continued =>
              rcases ih read with ⟨front, rest, rfl, count, found, cutOff⟩
              have total : used = index + (b :: front).length := by
                rw [count, List.length_cons]
                omega
              refine ⟨b :: front, rest, rfl, total, ?_, ?_⟩
              · intro behind
                rw [List.cons_append, decodeFrom_cons, if_neg allowed]
                exact (if_neg continued).trans (found behind)
              · intro part inside shorter
                rcases List.prefix_cons_iff.mp inside with rfl | ⟨left, rfl, early⟩
                · rfl
                · rw [decodeFrom_cons, if_neg allowed]
                  refine (if_neg continued).trans (cutOff left early ?_)
                  rintro rfl
                  exact shorter rfl

end VarInt
end SortKey
