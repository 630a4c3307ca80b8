import SortKey.Proofs.Escape

namespace SortKey
namespace Escape

/-!
# Counting pairs and collapsing them

One pass counts the pairs and another one drops an octet of each.  The two are
written separately, but they go from one octet to the next in the same way, and
so the count is exactly what the other pass drops.  Since collapsing drops octets
and does nothing else, the octets are left as they are exactly when there is no
pair to count.  Escaping leaves them as they are exactly when no escape octet
occurs.
-/

variable {esc : UInt8}

/-! ## Counting one octet at a time -/

/-- What was counted before is added to what is counted in the rest. -/
private theorem pairsFrom_eq (pending : Bool) (count : Nat) (bytes : Bytes) :
    pairsFrom esc pending count bytes = count + pairsFrom esc pending 0 bytes := by
  induction bytes generalizing pending count with
  | nil => rfl
  | cons b rest ih =>
      by_cases special : b = esc
      · simp only [pairsFrom, if_pos special]
        cases pending with
        | true =>
            simp only [if_true]
            rw [ih, ih _ (0 + 1)]
            omega
        | false =>
            simp only [Bool.false_eq_true, if_false]
            exact ih _ count
      · simp only [pairsFrom, if_neg special]
        exact ih _ count

theorem pairs_cons_of_ne {b : UInt8} (ordinary : b ≠ esc) (rest : Bytes) :
    pairs esc (b :: rest) = pairs esc rest := by
  simp only [pairs, pairsFrom, if_neg ordinary]

theorem pairs_pair (rest : Bytes) : pairs esc (esc :: esc :: rest) = pairs esc rest + 1 := by
  simp only [pairs, pairsFrom, if_true, Bool.not_false, Bool.not_true, Bool.false_eq_true,
    if_false]
  rw [pairsFrom_eq]
  omega

/-- An escape octet that is not half of a pair is not counted. -/
theorem pairs_lone {rest : Bytes} (lone : rest.head? ≠ some esc) :
    pairs esc (esc :: rest) = pairs esc rest := by
  cases rest with
  | nil => simp [pairs, pairsFrom]
  | cons next more =>
      have ordinary : next ≠ esc := by simpa using lone
      rw [pairs_cons_of_ne ordinary]
      simp only [pairs, pairsFrom, if_true, if_neg ordinary, Bool.not_false, Bool.false_eq_true,
        if_false]

/-! ## What is dropped -/

/-- The flag that the passes carry is the same in both, so an octet is counted by one
exactly when it is dropped by the other.  Wherever both of them stand, what is kept and
the escape octets that are counted are the octets there are, in another order. -/
private theorem perm_collapseOnto_append (pending : Bool) (count : Nat) (kept bytes : Bytes) :
    (collapseOnto esc pending kept bytes ++
        List.replicate (pairsFrom esc pending count bytes) esc).Perm
      (kept ++ List.replicate count esc ++ bytes) := by
  induction bytes generalizing pending count kept with
  | nil =>
      rw [List.append_nil]
      exact kept.reverse_perm.append_right _
  | cons b rest ih =>
      by_cases special : b = esc
      · subst special
        simp only [collapseOnto, pairsFrom, if_true]
        cases pending with
        | true =>
            have counted := ih false (count + 1) kept
            rw [List.replicate_succ', List.append_assoc, List.append_assoc] at counted
            rwa [List.append_assoc]
        | false => exact (ih true count (b :: kept)).trans List.perm_middle.symm
      · simp only [collapseOnto, pairsFrom, if_neg special]
        exact (ih false count (b :: kept)).trans List.perm_middle.symm

/-- Only escape octets are dropped, one for each pair that is counted. -/
theorem perm_unescape_append (esc : UInt8) (bytes : Bytes) :
    (unescape esc bytes ++ List.replicate (pairs esc bytes) esc).Perm bytes :=
  perm_collapseOnto_append false 0 [] bytes

/-- As many octets are dropped as there are pairs. -/
theorem length_unescape_add_pairs (esc : UInt8) (bytes : Bytes) :
    (unescape esc bytes).length + pairs esc bytes = bytes.length := by
  have lengths := (perm_unescape_append esc bytes).length_eq
  rwa [List.length_append, List.length_replicate] at lengths

/-- A pair is two escape octets. -/
theorem two_mul_pairs_le_count (esc : UInt8) (bytes : Bytes) :
    2 * pairs esc bytes ≤ bytes.count esc := by
  induction bytes using pairInduction esc with
  | nil => exact Nat.le_refl 0
  | ordinary b rest different ih => rwa [pairs_cons_of_ne different, List.count_cons_of_ne different]
  | pair rest ih =>
      rw [pairs_pair, List.count_cons_self, List.count_cons_self]
      omega
  | lone rest alone ih =>
      rw [pairs_lone alone, List.count_cons_self]
      omega

theorem unescape_sublist (esc : UInt8) (bytes : Bytes) : (unescape esc bytes).Sublist bytes := by
  induction bytes using pairInduction esc with
  | nil => exact List.Sublist.slnil
  | ordinary b rest different ih =>
      rw [unescape_cons_of_ne different]
      exact ih.cons_cons b
  | pair rest ih =>
      rw [unescape_pair]
      exact (ih.cons esc).cons_cons esc
  | lone rest alone ih =>
      rw [unescape_lone alone]
      exact ih.cons_cons esc

/-! ## Octets that stay as they are -/

theorem unescape_eq_self_iff (esc : UInt8) (bytes : Bytes) :
    unescape esc bytes = bytes <-> pairs esc bytes = 0 := by
  have counted := length_unescape_add_pairs esc bytes
  constructor
  · intro same
    rw [same] at counted
    omega
  · intro none
    exact (unescape_sublist esc bytes).eq_of_length (by omega)

theorem escape_eq_self_iff (esc : UInt8) (data : Bytes) : escape esc data = data <-> data.count esc = 0 := by
  constructor
  · intro same
    have counted := length_escape esc data
    rw [same] at counted
    omega
  · intro none
    rw [List.count_eq_zero] at none
    induction data with
    | nil => rfl
    | cons b data ih =>
        rw [List.mem_cons, not_or] at none
        rw [escape_cons_of_ne (Ne.symm none.1), ih none.2]

end Escape
end SortKey
