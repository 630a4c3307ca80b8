import Mathlib.Algebra.Group.Nat.Defs
import SortKey.Bytes

namespace SortKey
namespace Bytes

/-!
# Octets as numbers and in order

Big-endian octets of a fixed width hold a number below the matching power of
256, and reading them gives that number back.  The order of octet strings
ignores what two strings have in front in common, and is decided by the first
octet where they differ.  A strict beginning of a string is smaller.  The walk
over the common length comes to the same result.

The order is the lexicographic one of lists, so it is total and tells all strings
apart.  `Precedes` says without any comparison which of two strings comes first.
-/

/-! ## Fixed width -/

@[simp] theorem length_ofNat (width n : Nat) : (ofNat width n).length = width := by
  induction width with
  | zero => rfl
  | succ width ih => simp only [ofNat, List.length_cons, ih]

/-- What was read before is worth one more factor for every further octet. -/
private theorem foldl_toNat (bytes : Bytes) (start : Nat) :
    bytes.foldl (fun n b => n * 256 + b.toNat) start =
      start * 256 ^ bytes.length + toNat bytes := by
  unfold toNat
  induction bytes generalizing start with
  | nil => simp
  | cons b rest ih =>
      rw [List.foldl_cons, List.foldl_cons, ih, ih (0 * 256 + b.toNat), List.length_cons,
        Nat.pow_succ, Nat.zero_mul, Nat.zero_add, Nat.add_mul, Nat.mul_assoc,
        Nat.mul_comm 256, Nat.add_assoc]

theorem toNat_cons (b : UInt8) (rest : Bytes) :
    toNat (b :: rest) = b.toNat * 256 ^ rest.length + toNat rest := by
  have folded := foldl_toNat rest b.toNat
  simpa [toNat] using folded

theorem toNat_lt_pow (bytes : Bytes) : toNat bytes < 256 ^ bytes.length := by
  induction bytes with
  | nil => decide
  | cons b rest ih =>
      have octet : b.toNat + 1 ≤ 256 := b.toNat_lt
      have filled := Nat.mul_le_mul_right (256 ^ rest.length) octet
      rw [toNat_cons, List.length_cons, Nat.pow_succ, Nat.mul_comm _ 256]
      rw [Nat.add_mul, Nat.one_mul] at filled
      omega

/-- Only the octets that fit the width are kept. -/
theorem toNat_ofNat (width n : Nat) : (ofNat width n).toNat = n % 256 ^ width := by
  induction width with
  | zero => simp [ofNat, toNat, Nat.mod_one]
  | succ width ih =>
      have shifted : n >>> (8 * width) = n / 256 ^ width := by
        rw [Nat.shiftRight_eq_div_pow, Nat.pow_mul]
      rw [ofNat, toNat_cons, length_ofNat, ih, shifted, Nat.pow_succ, Nat.mod_mul,
        UInt8.toNat_ofNat', Nat.mul_comm, Nat.add_comm]

/-- Octets of equal number that hold the same number are the same. -/
theorem toNat_injective {as bs : Bytes} (lengths : as.length = bs.length)
    (numbers : as.toNat = bs.toNat) : as = bs := by
  induction as generalizing bs with
  | nil =>
      cases bs with
      | nil => rfl
      | cons b bs => cases lengths
  | cons a as ih =>
      cases bs with
      | nil => cases lengths
      | cons b bs =>
          have rests : as.length = bs.length := Nat.succ.inj lengths
          have lowA := toNat_lt_pow as
          have lowB := toNat_lt_pow bs
          rw [toNat_cons, toNat_cons, rests] at numbers
          rw [rests] at lowA
          have first : a.toNat = b.toNat := by
            have quotients := congrArg (· / 256 ^ bs.length) numbers
            simpa only [Nat.mul_comm _ (256 ^ bs.length), Nat.mul_add_div (Nat.zero_lt_of_lt lowB),
              Nat.div_eq_of_lt lowA, Nat.div_eq_of_lt lowB, Nat.add_zero] using quotients
          rw [first] at numbers
          rw [UInt8.toNat_inj.mp first, ih rests (Nat.add_left_cancel numbers)]

theorem ofNat_toNat (bytes : Bytes) : ofNat bytes.length bytes.toNat = bytes := by
  apply toNat_injective (length_ofNat bytes.length _)
  rw [toNat_ofNat, Nat.mod_eq_of_lt bytes.toNat_lt_pow]

/-! ## Order -/

@[simp] theorem order_self (bytes : Bytes) : bytes.order bytes = .eq := by
  induction bytes with
  | nil => rfl
  | cons b rest ih => simp [order, ih]

theorem order_swap (as bs : Bytes) : (order as bs).swap = order bs as := by
  induction as generalizing bs with
  | nil => cases bs <;> rfl
  | cons a as ih =>
      cases bs with
      | nil => rfl
      | cons b bs =>
          have turned : (compare a b).swap = compare b a := Std.OrientedCmp.eq_swap.symm
          simp only [order, ← turned]
          cases compare a b with
          | eq => exact ih bs
          | _ => rfl

theorem order_cons_self (b : UInt8) (as bs : Bytes) :
    order (b :: as) (b :: bs) = order as bs := by
  simp [order]

theorem order_cons_of_ne {a b : UInt8} (different : a ≠ b) (as bs : Bytes) :
    order (a :: as) (b :: bs) = compare a b := by
  simp only [order]
  split
  · next equal => exact absurd (Std.LawfulEqOrd.eq_of_compare equal) different
  · rfl

theorem order_eq_compare (as bs : Bytes) : order as bs = compare as bs := by
  induction as generalizing bs with
  | nil => cases bs <;> rfl
  | cons a as ih =>
      cases bs with
      | nil => rfl
      | cons b bs =>
          rw [List.compare_cons_cons, ← ih, order]
          cases compare a b <;> rfl

theorem transCmp_order : Std.TransCmp order := by
  have lexicographic : order = fun as bs : Bytes => compare as bs :=
    funext fun as => funext fun bs => order_eq_compare as bs
  rw [lexicographic]
  infer_instance

theorem order_eq_eq_iff (as bs : Bytes) : order as bs = .eq <-> as = bs := by
  rw [order_eq_compare, Std.compare_eq_iff_eq]

/-- What is common in front does not matter. -/
theorem order_append_left (common as bs : Bytes) :
    order (common ++ as) (common ++ bs) = order as bs := by
  induction common with
  | nil => rfl
  | cons b common ih => rw [List.cons_append, List.cons_append, order_cons_self, ih]

/-- One string comes before another: it ends where the other one goes on, or of the
first octets in which they differ its own is the smaller number. -/
inductive Precedes : Bytes -> Bytes -> Prop
  | ends (b : UInt8) (rest : Bytes) : Precedes [] (b :: rest)
  | smaller {a b : UInt8} (below : a.toNat < b.toNat) (as bs : Bytes) :
      Precedes (a :: as) (b :: bs)
  | behind (b : UInt8) {as bs : Bytes} (precedes : Precedes as bs) : Precedes (b :: as) (b :: bs)

theorem order_eq_lt_iff (as bs : Bytes) : order as bs = .lt <-> Precedes as bs := by
  constructor
  · intro less
    induction as generalizing bs with
    | nil =>
        cases bs with
        | nil => cases less
        | cons b bs => exact .ends b bs
    | cons a as ih =>
        cases bs with
        | nil => cases less
        | cons b bs =>
            by_cases same : a = b
            · subst same
              rw [order_cons_self] at less
              exact .behind a (ih bs less)
            · rw [order_cons_of_ne same] at less
              exact .smaller (UInt8.lt_iff_toNat_lt.mp (Std.compare_eq_lt.mp less)) as bs
  · intro precedes
    induction precedes with
    | ends b rest => rfl
    | @smaller a b below as bs =>
        have less : a < b := UInt8.lt_iff_toNat_lt.mpr below
        rw [order_cons_of_ne (UInt8.ne_of_lt less)]
        exact Std.compare_eq_lt.mpr less
    | behind b _ ih => rw [order_cons_self, ih]

theorem order_eq_gt_iff (as bs : Bytes) : order as bs = .gt <-> Precedes bs as := by
  rw [← order_eq_lt_iff, ← order_swap as bs, Ordering.swap_eq_lt]

/-- The first difference over the common length, and then the lengths, decide as
the two strings followed together do. -/
theorem walkOrder_eq_order (as bs : Bytes) : walkOrder as bs = order as bs := by
  induction as generalizing bs with
  | nil => cases bs <;> rfl
  | cons a as ih =>
      cases bs with
      | nil => rfl
      | cons b bs =>
          by_cases same : a = b
          · subst same
            rw [order_cons_self, ← ih bs]
            simp [walkOrder, Nat.compare_eq_ite_lt]
          · have apart : compare a b ≠ .eq :=
              fun equal => same (Std.LawfulEqOrd.eq_of_compare equal)
            rw [order_cons_of_ne same]
            simp [walkOrder, apart]

end Bytes
end SortKey
