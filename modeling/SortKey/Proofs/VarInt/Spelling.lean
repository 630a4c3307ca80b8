import Mathlib.Data.Nat.Digits.Lemmas
import SortKey.Proofs.VarInt.Word

namespace SortKey
namespace VarInt

/-!
# Every spelling of a number

A spelling is a number of continued groups and a last one.  It stands for the number
whose digits to the base 128 are the groups, the least significant one first.  The
reader accepts a spelling of up to five groups if the fifth one is small enough, so
that what it accepts never exceeds the largest number.  Everything else is cut off
before the last group, or goes on too long.

A number has one spelling of each length from its size on.  The writer's is the
shortest: the only one, of more than one group, whose last group is not zero.
-/

/-- The number whose groups are given, the least significant one first. -/
def number (octets : Bytes) : Nat :=
  Nat.ofDigits 128 (octets.map fun b => b.toNat % 128)

theorem number_nil : number [] = 0 :=
  rfl

theorem number_cons (b : UInt8) (rest : Bytes) :
    number (b :: rest) = b.toNat % 128 + 128 * number rest :=
  Nat.ofDigits_cons

theorem number_append (front back : Bytes) :
    number (front ++ back) = number front + 128 ^ front.length * number back := by
  rw [number, List.map_append, Nat.ofDigits_append, List.length_map]
  rfl

theorem number_singleton {b : UInt8} (last : b.toNat < 128) : number [b] = b.toNat := by
  rw [number_cons, number_nil, Nat.mod_eq_of_lt last, Nat.mul_zero, Nat.add_zero]

theorem number_lt (octets : Bytes) : number octets < 128 ^ octets.length := by
  have digits : ∀ digit ∈ octets.map (fun b => b.toNat % 128), digit < 128 := by
    intro digit member
    rcases List.mem_map.mp member with ⟨b, _, rfl⟩
    exact Nat.mod_lt _ (by decide)
  have bounded := Nat.ofDigits_lt_base_pow_length (by decide) digits
  rwa [List.length_map] at bounded

/-- The sum of all groups, each at its place. -/
theorem number_eq_sum (octets : Bytes) :
    number octets = (octets.mapIdx fun j b => b.toNat % 128 * 128 ^ j).sum := by
  rw [number, Nat.ofDigits_eq_sum_mapIdx]
  exact congrArg List.sum (List.ext_getElem (by simp) (by simp))

/-! ## Reading -/

/-- Reading goes on behind continued groups. -/
theorem decodeFrom_append {front : Bytes} (continued : ∀ b ∈ front, 128 ≤ b.toNat)
    (index value : Nat) (short : index + front.length < longest) (rest : Bytes) :
    decodeFrom index value (front ++ rest) =
      decodeFrom (index + front.length) (value + number front * 128 ^ index) rest := by
  induction front generalizing index value with
  | nil => simp [number_nil]
  | cons b front ih =>
      rw [List.forall_mem_cons] at continued
      rw [List.length_cons] at short
      have early : ¬ longest ≤ index + 1 := by omega
      have goesOn : ¬ b.toNat < 128 := Nat.not_lt.mpr continued.1
      have joined : value + b.toNat % 128 * 128 ^ index + number front * 128 ^ (index + 1) =
          value + number (b :: front) * 128 ^ index := by
        rw [number_cons, Nat.pow_succ]
        ring
      have used : index + 1 + front.length = index + (b :: front).length := by
        rw [List.length_cons]
        omega
      rw [List.cons_append, decodeFrom_cons]
      simp only [early, goesOn, decide_false, Bool.false_and, Bool.false_eq_true, if_false]
      rw [ih continued.2 (index + 1) _ (by omega), joined, used]

section Outcomes

variable {front rest : Bytes} {b : UInt8}

theorem decode_of_cutOff (continued : ∀ b ∈ front, 128 ≤ b.toNat)
    (short : front.length < longest) : decode front = .error .endOfBuffer := by
  have read := decodeFrom_append continued 0 0 (by omega) []
  rw [List.append_nil] at read
  rw [decode, read]
  rfl

theorem decode_of_overlong (continued : ∀ b ∈ front, 128 ≤ b.toNat)
    (filled : front.length + 1 = longest) (large : 8 ≤ b.toNat) :
    decode (front ++ b :: rest) = .error .malformedVarInt := by
  have refused : (decide (longest ≤ 0 + front.length + 1) && decide (8 ≤ b.toNat)) = true := by
    rw [Bool.and_eq_true, decide_eq_true_eq, decide_eq_true_eq]
    omega
  rw [decode, decodeFrom_append continued 0 0 (by omega), decodeFrom_cons]
  exact if_pos refused

theorem decode_of_last (continued : ∀ b ∈ front, 128 ≤ b.toNat) (last : b.toNat < 128)
    (short : front.length < longest) (small : front.length + 1 = longest -> b.toNat < 8) :
    decode (front ++ b :: rest) = .ok (number (front ++ [b]), front.length + 1) := by
  have allowed : ¬ (longest ≤ front.length + 1 ∧ 8 ≤ b.toNat) := by
    rintro ⟨reached, large⟩
    have := small (by omega)
    omega
  rw [decode, decodeFrom_append continued 0 0 (by omega), decodeFrom_cons, number_append,
    number_singleton last]
  simp [allowed, last, Nat.mod_eq_of_lt last, Nat.mul_comm]

end Outcomes

/-- Octets are continued groups and nothing else, or there is a first octet behind
continued groups that is not one of them: because it is the last group, or because
there was room for no more than `most` continued ones. -/
private theorem continued_or_cut (most : Nat) (bytes : Bytes) :
    (bytes.length ≤ most ∧ ∀ b ∈ bytes, 128 ≤ b.toNat) ∨
      Exists fun front => Exists fun b => Exists fun rest => bytes = front ++ b :: rest ∧
        (∀ b ∈ front, 128 ≤ b.toNat) ∧
        (front.length < most ∧ b.toNat < 128 ∨ front.length = most) := by
  induction bytes generalizing most with
  | nil => exact Or.inl ⟨Nat.zero_le most, by simp⟩
  | cons b bytes ih =>
      cases most with
      | zero => exact Or.inr ⟨[], b, bytes, rfl, by simp, Or.inr rfl⟩
      | succ most =>
          by_cases last : b.toNat < 128
          · exact Or.inr ⟨[], b, bytes, rfl, by simp, Or.inl ⟨Nat.zero_lt_succ most, last⟩⟩
          · have continued : 128 ≤ b.toNat := Nat.not_lt.mp last
            rcases ih most with ⟨short, all⟩ | ⟨front, next, rest, rfl, all, ends⟩
            · exact Or.inl ⟨Nat.succ_le_succ short, List.forall_mem_cons.mpr ⟨continued, all⟩⟩
            · refine Or.inr ⟨b :: front, next, rest, rfl,
                List.forall_mem_cons.mpr ⟨continued, all⟩, ?_⟩
              rw [List.length_cons]
              omega

/-- What becomes of octets: they end before the last group, or the fifth group is too
large, or a spelling is found in front. -/
theorem decode_cases (bytes : Bytes) :
    (decode bytes = .error .endOfBuffer ∧ bytes.length < longest ∧ ∀ b ∈ bytes, 128 ≤ b.toNat) ∨
    (decode bytes = .error .malformedVarInt ∧
      Exists fun front => Exists fun b => Exists fun rest => bytes = front ++ b :: rest ∧
        (∀ b ∈ front, 128 ≤ b.toNat) ∧ front.length + 1 = longest ∧ 8 ≤ b.toNat) ∨
    Exists fun front => Exists fun b => Exists fun rest => bytes = front ++ b :: rest ∧
      (∀ b ∈ front, 128 ≤ b.toNat) ∧ b.toNat < 128 ∧ front.length < longest ∧
      (front.length + 1 = longest -> b.toNat < 8) ∧
      decode bytes = .ok (number (front ++ [b]), front.length + 1) := by
  rcases continued_or_cut 4 bytes with ⟨short, continued⟩ | ⟨front, b, rest, rfl, continued, ends⟩
  · have short : bytes.length < longest := Nat.lt_succ_of_le short
    exact Or.inl ⟨decode_of_cutOff continued short, short, continued⟩
  · by_cases overlong : front.length + 1 = longest ∧ 8 ≤ b.toNat
    · exact Or.inr (Or.inl ⟨decode_of_overlong continued overlong.1 overlong.2,
        front, b, rest, rfl, continued, overlong⟩)
    · have short : front.length < longest := by
        have : longest = 5 := rfl
        omega
      have small : front.length + 1 = longest -> b.toNat < 8 := by omega
      have last : b.toNat < 128 := by
        have : longest = 5 := rfl
        omega
      exact Or.inr (Or.inr ⟨front, b, rest, rfl, continued, last, short, small,
        decode_of_last continued last short small⟩)

/-! ## Length -/

theorem size_le_iff {n groups : Nat} (some : 0 < groups) (few : groups < longest) :
    size n ≤ groups <-> n < 128 ^ groups := by
  have cases : groups = 1 ∨ groups = 2 ∨ groups = 3 ∨ groups = 4 := by
    have : longest = 5 := rfl
    omega
  unfold size
  rcases cases with rfl | rfl | rfl | rfl <;> split_ifs <;> omega

theorem size_le_longest (n : Nat) : size n ≤ longest := by
  unfold size longest
  split_ifs <;> omega

theorem size_pos (n : Nat) : 0 < size n := by
  unfold size
  split_ifs <;> omega

section Spelling

variable {front : Bytes} {b : UInt8}

theorem number_le_largest (short : front.length < longest)
    (small : front.length + 1 = longest -> b.toNat < 8) (last : b.toNat < 128) :
    number (front ++ [b]) ≤ largest := by
  have bounded := number_lt front
  rw [number_append, number_singleton last]
  have cases : front.length = 0 ∨ front.length = 1 ∨ front.length = 2 ∨ front.length = 3 ∨
      front.length = 4 := by
    have : longest = 5 := rfl
    omega
  have : largest = 2147483647 := rfl
  have : longest = 5 := rfl
  rcases cases with same | same | same | same | same <;> rw [same] at bounded ⊢ <;> omega

/-- No spelling is shorter than the writer's. -/
theorem size_number_le (short : front.length < longest) :
    size (number (front ++ [b])) ≤ front.length + 1 := by
  by_cases few : front.length + 1 < longest
  · rw [size_le_iff (Nat.zero_lt_succ _) few]
    have bounded := number_lt (front ++ [b])
    rwa [List.length_append] at bounded
  · have filled : front.length + 1 = longest := by omega
    rw [filled]
    exact size_le_longest _

/-- Taking off the groups of a spelling gives the spelling. -/
theorem groups_number (continued : ∀ b ∈ front, 128 ≤ b.toNat) (last : b.toNat < 128) :
    groups front.length (number (front ++ [b])) = front ++ [b] := by
  induction front with
  | nil =>
      rw [List.nil_append, number_singleton last]
      exact congrArg (fun octet => [octet]) (UInt8.ofNat_toNat)
  | cons a front ih =>
      rw [List.forall_mem_cons] at continued
      have first : UInt8.ofNat (number (a :: (front ++ [b])) % 128 + 128) = a := by
        have bounded := a.toNat_lt
        have group : number (a :: (front ++ [b])) % 128 + 128 = a.toNat := by
          rw [number_cons]
          omega
        rw [group, UInt8.ofNat_toNat]
      have others : number (a :: (front ++ [b])) / 128 = number (front ++ [b]) := by
        rw [number_cons]
        omega
      rw [List.cons_append, List.length_cons, groups, first, others, ih continued.2]

/-- A spelling is as long as the writer's if its last group is not zero, or if it is
the only one. -/
theorem size_number_eq_iff (short : front.length < longest) (last : b.toNat < 128) :
    size (number (front ++ [b])) = front.length + 1 <-> front = [] ∨ b ≠ 0 := by
  rcases front with _ | ⟨a, front⟩
  · have atMost := size_number_le (b := b) short
    have atLeast := size_pos (number ([] ++ [b]))
    simp only [List.length_nil, true_or, iff_true] at atMost ⊢
    omega
  · have shorter :=
      size_le_iff (n := number (a :: front ++ [b])) (Nat.zero_lt_succ front.length) short
    have atMost := size_number_le (b := b) short
    have bounded := number_lt (a :: front)
    rw [number_append, number_singleton last] at shorter atMost ⊢
    simp only [List.length_cons, reduceCtorEq, false_or] at shorter atMost bounded ⊢
    constructor
    · rintro same rfl
      have zero : (0 : UInt8).toNat = 0 := rfl
      rw [zero, Nat.mul_zero, Nat.add_zero] at shorter same
      omega
    · intro nonzero
      have positive : 0 < b.toNat := by
        rw [Nat.pos_iff_ne_zero]
        exact fun zero => nonzero (UInt8.toNat_inj.mp zero)
      have large : 128 ^ (front.length + 1) ≤ 128 ^ (front.length + 1) * b.toNat :=
        Nat.le_mul_of_pos_right _ positive
      omega

/-- A spelling is the writer's exactly if it is as long. -/
theorem encode_number_eq_iff (continued : ∀ b ∈ front, 128 ≤ b.toNat) (last : b.toNat < 128)
    (inRange : number (front ++ [b]) ≤ largest) :
    encode (number (front ++ [b])) = .ok (front ++ [b]) <->
      size (number (front ++ [b])) = front.length + 1 := by
  rw [encode_of_le inRange, Except.ok.injEq]
  constructor
  · intro same
    rw [← length_octets inRange, same, List.length_append]
    rfl
  · intro same
    rw [octets, same]
    exact groups_number continued last

end Spelling

/-! ## What is accepted -/

/-- What is known of a number that is found in the first `used` octets. -/
structure Found (bytes : Bytes) (n used : Nat) : Prop where
  few : 1 ≤ used ∧ used ≤ longest ∧ used ≤ bytes.length
  /-- The groups are continued up to the last one. -/
  continued : ∀ b ∈ bytes.take (used - 1), 128 ≤ b.toNat
  last : Exists fun b => bytes[used - 1]? = some b ∧ b.toNat < 128
  value : n = ((bytes.take used).mapIdx fun j b => b.toNat % 128 * 128 ^ j).sum
  inRange : n ≤ largest
  size_le : size n ≤ used
  /-- It is spelled as it is written unless its last group could be left out. -/
  written_iff : encode n = .ok (bytes.take used) <-> used = 1 ∨ bytes[used - 1]? ≠ some 0

theorem found_of_spelling {front rest : Bytes} {b : UInt8} (continued : ∀ b ∈ front, 128 ≤ b.toNat)
    (last : b.toNat < 128) (short : front.length < longest)
    (small : front.length + 1 = longest -> b.toNat < 8) :
    Found (front ++ b :: rest) (number (front ++ [b])) (front.length + 1) := by
  have inRange := number_le_largest short small last
  have taken : (front ++ b :: rest).take (front.length + 1) = front ++ [b] := by
    rw [List.append_cons, ← List.length_singleton (a := b), ← List.length_append, List.take_left]
  have atLast : (front ++ b :: rest)[front.length + 1 - 1]? = some b := by
    rw [Nat.add_sub_cancel, List.getElem?_append_right (Nat.le_refl _), Nat.sub_self]
    rfl
  refine ⟨⟨by omega, short, by simp⟩, ?_, ⟨b, atLast, last⟩, ?_, inRange, size_number_le short, ?_⟩
  · rwa [Nat.add_sub_cancel, List.take_left]
  · rw [taken, number_eq_sum]
  · rw [taken, atLast, encode_number_eq_iff continued last inRange, size_number_eq_iff short last]
    simp

theorem decode_eq_endOfBuffer_iff (bytes : Bytes) :
    decode bytes = .error .endOfBuffer <->
      bytes.length < longest ∧ ∀ b ∈ bytes, 128 ≤ b.toNat := by
  constructor
  · intro refused
    rcases decode_cases bytes with ⟨_, cutOff⟩ | ⟨overlong, _⟩ | ⟨_, _, _, _, _, _, _, _, found⟩
    · exact cutOff
    · rw [overlong] at refused
      cases refused
    · rw [found] at refused
      cases refused
  · rintro ⟨short, continued⟩
    exact decode_of_cutOff continued short

theorem decode_eq_malformed_iff (bytes : Bytes) :
    decode bytes = .error .malformedVarInt <->
      (∀ b ∈ bytes.take 4, 128 ≤ b.toNat) ∧
        Exists fun fifth => bytes[4]? = some fifth ∧ 8 ≤ fifth.toNat := by
  constructor
  · intro refused
    rcases decode_cases bytes with ⟨cutOff, _⟩ |
      ⟨_, front, b, rest, rfl, continued, filled, large⟩ | ⟨_, _, _, _, _, _, _, _, found⟩
    · rw [cutOff] at refused
      cases refused
    · have four : front.length = 4 := Nat.succ_inj.mp filled
      rw [← four, List.take_left, List.getElem?_append_right (Nat.le_refl _), Nat.sub_self]
      exact ⟨continued, b, rfl, large⟩
    · rw [found] at refused
      cases refused
  · rintro ⟨continued, fifth, there, large⟩
    rcases List.getElem?_eq_some_iff.mp there with ⟨inside, same⟩
    have four : (bytes.take 4).length = 4 := List.length_take_of_le (Nat.le_of_lt inside)
    rw [← List.take_append_drop 4 bytes, List.drop_eq_getElem_cons inside, same]
    exact decode_of_overlong continued (by rw [four]; rfl) large

/-- A number in range is written with as many octets as its size, and is read back
from them whatever stands behind.  Octets are refused as cut off if there are fewer
than five and all of them are continued, and as malformed if a fifth one behind four
continued ones is too large.  In all others a number is found.  Nothing of this
changes in words of 32 bits. -/
theorem decode_exactly_spelled_numbers :
    (forall n, n ≤ largest -> Exists fun written => encode n = .ok written ∧
      written.length = size n ∧ forall rest, decode (written ++ rest) = .ok (n, size n)) ∧
    (forall bytes,
      (decode bytes = .error .endOfBuffer <->
        bytes.length < 5 ∧ ∀ b ∈ bytes, 128 ≤ b.toNat) ∧
      (decode bytes = .error .malformedVarInt <->
        (∀ b ∈ bytes.take 4, 128 ≤ b.toNat) ∧
          Exists fun fifth => bytes[4]? = some fifth ∧ 8 ≤ fifth.toNat) ∧
      (decode bytes = .error .endOfBuffer ∨ decode bytes = .error .malformedVarInt ∨
        Exists fun n => Exists fun used => decode bytes = .ok (n, used) ∧ Found bytes n used)) ∧
    (forall word : UInt32, encodeWord word = encode word.toNat) ∧
    (forall bytes, (decodeWord bytes).map (fun found => (found.1.toNat, found.2)) =
      decode bytes) := by
  refine ⟨?_, ?_, encodeWord_eq, decodeWord_eq⟩
  · intro n inRange
    refine ⟨octets n, encode_of_le inRange, length_octets inRange, fun rest => ?_⟩
    rw [decode_octets_append inRange, length_octets inRange]
  · intro bytes
    refine ⟨decode_eq_endOfBuffer_iff bytes, decode_eq_malformed_iff bytes, ?_⟩
    rcases decode_cases bytes with ⟨cutOff, _⟩ | ⟨overlong, _⟩ |
      ⟨front, b, rest, rfl, continued, last, short, small, found⟩
    · exact Or.inl cutOff
    · exact Or.inr (Or.inl overlong)
    · exact Or.inr (Or.inr ⟨_, _, found, found_of_spelling continued last short small⟩)

/-- The largest number in five octets, and one in three octets of which the last could
be left out. -/
theorem decode_exactly_spelled_numbers_at_the_largest :
    largest ≤ largest ∧
      (Exists fun written => encode largest = .ok written ∧ written.length = 5 ∧
        decode (written ++ [1]) = .ok (largest, 5)) ∧
      decode [0xFF, 0xFF, 0xFF, 0xFF, 8] = .error .malformedVarInt ∧
      decode [0xAC, 0x82, 0, 1] = .ok (300, 3) ∧
      ¬ encode 300 = .ok ([0xAC, 0x82, 0, 1].take 3) := by
  rcases decode_exactly_spelled_numbers with ⟨written, read, _⟩
  rcases written largest (Nat.le_refl largest) with ⟨octets, encoded, length, back⟩
  have malformed := (read [0xFF, 0xFF, 0xFF, 0xFF, 8]).2.1.mpr ⟨by simp, 8, rfl, by decide⟩
  refine ⟨Nat.le_refl largest, ⟨octets, encoded, length, back [1]⟩, malformed, rfl, ?_⟩
  rcases (read [0xAC, 0x82, 0, 1]).2.2 with cutOff | overlong | ⟨n, used, found, known⟩
  · cases cutOff
  · cases overlong
  · cases found
    exact known.written_iff.not.mpr (by decide)

end VarInt
end SortKey
