import Mathlib.Data.Nat.Bitwise
import SortKey.Proofs.VarInt

namespace SortKey
namespace VarInt

/-!
# Groups in words of 32 bits

A group that is shifted out of a word is the remainder of a division by 128, and what
is left of the word is the quotient.  Groups that are put together lie behind one
another in the word, so that setting their bits adds them.  No bit is lost on the way:
the fifth group is looked at before it is shifted, and what is left of its bits fits.
-/

/-! ## Bits -/

private theorem toNat_lowBits (word : UInt32) : (word &&& 0x7F).toNat = word.toNat % 128 := by
  rw [UInt32.toNat_and]
  exact Nat.and_two_pow_sub_one_eq_mod word.toNat 7

private theorem toNat_shiftedOut (word : UInt32) : (word >>> 7).toNat = word.toNat / 128 := by
  rw [UInt32.toNat_shiftRight]
  exact Nat.shiftRight_eq_div_pow word.toNat 7

/-- The high bit of an octet whose other bits are given. -/
private theorem toNat_or_highBit {b : UInt8} (low : b.toNat < 128) :
    (b ||| 0x80).toNat = b.toNat + 128 := by
  have separate := Nat.two_pow_add_eq_or_of_lt (i := 7) low 1
  rw [UInt8.toNat_or, Nat.or_comm, Nat.add_comm]
  exact separate.symm

private theorem highBit_eq_zero_iff (b : UInt8) : b &&& 0x80 = 0 <-> b.toNat < 128 := by
  have bounded := b.toNat_lt
  have bit : (b &&& 0x80).toNat = (b.toNat.testBit 7).toNat * 2 ^ 7 := by
    rw [UInt8.toNat_and]
    exact Nat.and_two_pow b.toNat 7
  rw [← UInt8.toNat_inj, bit, Nat.testBit_eq_decide_div_mod_eq]
  by_cases last : b.toNat < 128
  · have none : ¬ b.toNat / 2 ^ 7 % 2 = 1 := by omega
    rw [decide_eq_false none]
    exact iff_of_true rfl last
  · have set : b.toNat / 2 ^ 7 % 2 = 1 := by omega
    rw [decide_eq_true set]
    exact iff_of_false (by decide) last

/-- A group at its place behind the groups that were read. -/
private theorem toNat_joined {word : UInt32} {b : UInt8} {index : Nat}
    (read : word.toNat < 128 ^ index) (early : index < longest)
    (small : index + 1 = longest -> b.toNat < 8) :
    (word ||| (b.toUInt32 &&& 0x7F) <<< UInt32.ofNat (7 * index)).toNat =
      word.toNat + b.toNat % 128 * 128 ^ index := by
  have base : 128 ^ index = 2 ^ (7 * index) := (Nat.pow_mul 2 7 index).symm
  have place : (UInt32.ofNat (7 * index)).toNat % 32 = 7 * index := by
    have : longest = 5 := rfl
    rw [UInt32.toNat_ofNat']
    omega
  have fits : b.toNat % 128 * 128 ^ index < 2 ^ 32 := by
    have cases : index ≤ 3 ∨ index = 4 := by
      have : longest = 5 := rfl
      omega
    rcases cases with few | rfl
    · have placed : b.toNat % 128 * 128 ^ index ≤ 127 * 128 ^ 3 :=
        Nat.mul_le_mul (by omega) (Nat.pow_le_pow_right (by decide) few)
      exact Nat.lt_of_le_of_lt placed (by decide)
    · have : b.toNat < 8 := small rfl
      omega
  have shifted : ((b.toUInt32 &&& 0x7F) <<< UInt32.ofNat (7 * index)).toNat =
      b.toNat % 128 * 128 ^ index := by
    rw [UInt32.toNat_shiftLeft, toNat_lowBits, UInt8.toNat_toUInt32, place, Nat.shiftLeft_eq,
      ← base, Nat.mod_eq_of_lt fits]
  rw [UInt32.toNat_or, shifted, Nat.or_comm, base, Nat.mul_comm,
    ← Nat.two_pow_add_eq_or_of_lt (base ▸ read), Nat.add_comm]

/-! ## Both ways of writing and of reading -/

theorem wordGroups_eq (more : Nat) (word : UInt32) :
    wordGroups more word = groups more word.toNat := by
  induction more generalizing word with
  | zero => rfl
  | succ more ih =>
      have low : (word &&& 0x7F).toUInt8.toNat = word.toNat % 128 := by
        rw [UInt32.toNat_toUInt8, toNat_lowBits]
        omega
      have group : (word &&& 0x7F).toUInt8 ||| 0x80 = UInt8.ofNat (word.toNat % 128 + 128) := by
        rw [← UInt8.toNat_inj, toNat_or_highBit (by omega), low, UInt8.toNat_ofNat']
        omega
      rw [wordGroups, groups, group, ih, toNat_shiftedOut]

theorem encodeWord_eq (word : UInt32) : encodeWord word = encode word.toNat := by
  rw [encodeWord, encode, wordGroups_eq]

/-- The word into which groups were shifted is the number that they add up to. -/
private theorem decodeWordFrom_eq (index : Nat) (word : UInt32) (bytes : Bytes)
    (read : word.toNat < 128 ^ index) (early : index < longest) :
    (decodeWordFrom index word bytes).map (fun found => (found.1.toNat, found.2)) =
      decodeFrom index word.toNat bytes := by
  induction bytes generalizing index word with
  | nil => rfl
  | cons b bytes ih =>
      have guarded : (decide (longest ≤ index + 1) && decide (8 ≤ b)) =
          (decide (longest ≤ index + 1) && decide (8 ≤ b.toNat)) := rfl
      rw [decodeWordFrom, decodeFrom_cons, guarded]
      by_cases refused : (decide (longest ≤ index + 1) && decide (8 ≤ b.toNat)) = true
      · rw [if_pos refused, if_pos refused]
        rfl
      · rw [if_neg refused, if_neg refused]
        rw [Bool.and_eq_true, decide_eq_true_eq, decide_eq_true_eq] at refused
        have joined := toNat_joined (b := b) read early (by omega)
        simp only [highBit_eq_zero_iff]
        by_cases last : b.toNat < 128
        · rw [if_pos last, if_pos last, ← joined]
          rfl
        · rw [if_neg last, if_neg last, ih, joined]
          · have placed : b.toNat % 128 * 128 ^ index ≤ 127 * 128 ^ index :=
              Nat.mul_le_mul_right _ (by omega)
            rw [joined, Nat.pow_succ]
            omega
          · omega

theorem decodeWord_eq (bytes : Bytes) :
    (decodeWord bytes).map (fun found => (found.1.toNat, found.2)) = decode bytes :=
  decodeWordFrom_eq 0 0 bytes (by decide) (by decide)

end VarInt
end SortKey
