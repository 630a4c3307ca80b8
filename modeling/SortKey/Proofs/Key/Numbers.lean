import Mathlib.Algebra.Group.Int.Defs
import SortKey.Proofs.Key.Order

namespace SortKey

/-!
# The order of values with fixed width

A number of fixed width is written with its most significant octet in front, so
the first octet that differs is also the one that decides between the numbers.
Escaping may double octets on one side only, but it does not disturb the order of
data.  What is compared is the pattern of bits, as an unsigned number.  Negative
numbers therefore keep their order among themselves and come behind all others.
-/

/-! ## Data of equal length -/

/-- The more significant digit decides. -/
theorem compare_digits {x y : UInt8} (different : x ≠ y) {unit restX restY : Nat}
    (lowX : restX < unit) (lowY : restY < unit) :
    compare x y = compare (x.toNat * unit + restX) (y.toNat * unit + restY) := by
  have scaled : forall {a b : UInt8}, a < b -> a.toNat * unit + unit ≤ b.toNat * unit := by
    intro a b less
    rw [← Nat.succ_mul]
    exact Nat.mul_le_mul_right unit less
  rcases UInt8.lt_or_lt_of_ne different with less | greater
  · have below := scaled less
    rw [Std.compare_eq_lt.mpr less, Nat.compare_eq_lt.mpr (by omega)]
  · have above := scaled greater
    rw [Std.compare_eq_gt.mpr greater, Nat.compare_eq_gt.mpr (by omega)]

/-- Data that begins with octets of equal number is ordered as the numbers that
these are.  Only behind equal ones does the rest matter. -/
theorem dataOrder_append_of_length_eq (a b : Bytes) (lengths : a.length = b.length)
    (behindA behindB : Bytes) :
    dataOrder (a ++ behindA) (b ++ behindB) =
      (compare (Bytes.toNat a) (Bytes.toNat b)).then (dataOrder behindA behindB) := by
  induction a generalizing b with
  | nil =>
      cases b with
      | nil => rfl
      | cons y b => cases lengths
  | cons x a ih =>
      cases b with
      | nil => cases lengths
      | cons y b =>
          have rest : a.length = b.length := Nat.succ.inj lengths
          rw [Bytes.toNat_cons, Bytes.toNat_cons, rest, List.cons_append, List.cons_append]
          by_cases same : x = y
          · subst same
            rw [dataOrder_cons_self, ih b rest, Nat.compare_eq_ite_lt, Nat.compare_eq_ite_lt]
            simp only [Nat.add_lt_add_iff_left]
          · have decided := compare_digits same (rest ▸ Bytes.toNat_lt_pow a) (Bytes.toNat_lt_pow b)
            have apart : compare x y ≠ .eq := fun equal => same (Std.LawfulEqOrd.eq_of_compare equal)
            rw [dataOrder_cons_of_ne same, ← decided]
            cases found : compare x y with
            | eq => exact absurd found apart
            | _ => rfl

/-! ## Patterns -/

/-- The width in octets and the pattern of bits of a value, if all values of its
kind have one width.  Negative numbers have the pattern of their two's
complement. -/
def Value.pattern? : Value -> Option (Nat × Nat)
  | .byte b => some (1, b.toNat)
  | .double bits => some (8, bits.toNat)
  | .integer n => some (4, (n.toInt % 2 ^ 32).toNat)
  | .long n => some (8, (n.toInt % 2 ^ 64).toNat)
  | _ => none

private theorem toNat_emod_toInt {width : Nat} (x : BitVec width) :
    (x.toInt % ((2 ^ width : Nat) : Int)).toNat = x.toNat := by
  have small : (x.toNat : Int) % ((2 ^ width : Nat) : Int) = x.toNat := by
    rw [← Int.natCast_emod, Nat.mod_eq_of_lt x.isLt]
  rw [BitVec.toInt_eq_toNat_bmod, Int.bmod_emod, small, Int.toNat_natCast]

theorem Value.data_of_pattern? {value : Value} {width bits : Nat}
    (fixed : value.pattern? = some (width, bits)) :
    value.data = Bytes.ofNat width bits ∧ bits < 256 ^ width := by
  cases value with
  | byte b =>
      cases fixed
      refine ⟨?_, b.toNat_lt⟩
      simp [data, Bytes.ofNat]
  | double bits =>
      cases fixed
      exact ⟨rfl, bits.toNat_lt⟩
  | integer n =>
      cases fixed
      have pattern : (n.toInt % 2 ^ 32).toNat = n.toUInt32.toNat := toNat_emod_toInt n.toBitVec
      rw [pattern]
      exact ⟨rfl, n.toUInt32.toNat_lt⟩
  | long n =>
      cases fixed
      have pattern : (n.toInt % 2 ^ 64).toNat = n.toUInt64.toNat := toNat_emod_toInt n.toBitVec
      rw [pattern]
      exact ⟨rfl, n.toUInt64.toNat_lt⟩
  | _ => cases fixed

/-- Different values of one kind with fixed width have different data. -/
theorem Value.data_ne_of_pattern? {x y : Value} {width m n : Nat} (kinds : x.kind = y.kind)
    (fixedX : x.pattern? = some (width, m)) (fixedY : y.pattern? = some (width, n))
    (different : x ≠ y) : x.data ≠ y.data := by
  have unchanged : forall {value : Value} {bits : Nat}, value.pattern? = some (width, bits) ->
      value.kind ≠ .record ∧ value.withoutNul = value := by
    intro value bits fixed
    cases value with
    | text content => cases fixed
    | record entries => cases fixed
    | _ => exact ⟨by rintro ⟨⟩, rfl⟩
  intro same
  apply different
  rw [← (unchanged fixedX).2, ← (unchanged fixedY).2]
  exact Value.withoutNul_eq_of_data_eq (unchanged fixedX).1 kinds same

/-- The order of numbers, except that the negative ones come last. -/
def negativeLast (m n : Int) : Ordering :=
  if m < 0 ↔ n < 0 then compare m n else if m < 0 then .gt else .lt

/-- As unsigned numbers, the patterns of negative numbers are the larger ones. -/
theorem compare_twosComplement {half m n : Int} (lowM : -half ≤ m) (highM : m < half)
    (lowN : -half ≤ n) (highN : n < half) :
    compare (m % (2 * half)).toNat (n % (2 * half)).toNat = negativeLast m n := by
  have pattern : forall {k : Int}, -half ≤ k -> k < half ->
      k % (2 * half) = if k < 0 then k + 2 * half else k := by
    intro k low high
    split
    · rw [← Int.add_emod_right]
      exact Int.emod_eq_of_lt (by omega) (by omega)
    · exact Int.emod_eq_of_lt (by omega) (by omega)
  rw [pattern lowM highM, pattern lowN highN, negativeLast, Nat.compare_eq_ite_lt,
    Int.compare_eq_ite_lt]
  grind

/-! ## Order -/

namespace Record

theorem orderBehind_of_pattern? {x y : Value} {width m n : Nat} (different : x ≠ y)
    (kinds : x.kind = y.kind) (fixedX : x.pattern? = some (width, m))
    (fixedY : y.pattern? = some (width, n)) (common a b : Record) :
    orderBehind common x a y b = Ord.compare m n := by
  rcases Value.data_of_pattern? fixedX with ⟨dataX, lowX⟩
  rcases Value.data_of_pattern? fixedY with ⟨dataY, lowY⟩
  have apart : x.data ≠ y.data := Value.data_ne_of_pattern? kinds fixedX fixedY different
  have lengths : x.data.length = y.data.length := by
    rw [dataX, dataY, Bytes.length_ofNat, Bytes.length_ofNat]
  have decided := dataOrder_append_of_length_eq x.data y.data lengths [] []
  rw [List.append_nil, List.append_nil, dataX, dataY, Bytes.toNat_ofNat, Bytes.toNat_ofNat,
    Nat.mod_eq_of_lt lowX, Nat.mod_eq_of_lt lowY] at decided
  rw [orderBehind_of_data_ne kinds apart, dataX, dataY, decided]
  exact Ordering.then_eq

/-- Different values of one kind with fixed width, behind common entries, are
ordered as the unsigned numbers that their patterns are, whatever stands behind
them.  So integers keep their order, with the negative ones last, and doubles with
the sign bit come behind doubles without it. -/
theorem order_of_fixed_width (common a b : Record) :
    (forall m n : UInt8, m ≠ n ->
      orderBehind common (.byte m) a (.byte n) b = Ord.compare m.toNat n.toNat) ∧
    (forall m n : Int32, m ≠ n ->
      orderBehind common (.integer m) a (.integer n) b =
        Ord.compare (m.toInt % 2 ^ 32).toNat (n.toInt % 2 ^ 32).toNat ∧
      orderBehind common (.integer m) a (.integer n) b = negativeLast m.toInt n.toInt) ∧
    (forall m n : Int64, m ≠ n ->
      orderBehind common (.long m) a (.long n) b =
        Ord.compare (m.toInt % 2 ^ 64).toNat (n.toInt % 2 ^ 64).toNat ∧
      orderBehind common (.long m) a (.long n) b = negativeLast m.toInt n.toInt) ∧
    (forall m n : UInt64, m ≠ n ->
      orderBehind common (.double m) a (.double n) b = Ord.compare m.toNat n.toNat ∧
      (n.toNat < 2 ^ 63 -> 2 ^ 63 ≤ m.toNat ->
        orderBehind common (.double m) a (.double n) b = .gt)) := by
  refine ⟨?_, ?_, ?_, ?_⟩
  · intro m n different
    have apart : Value.byte m ≠ .byte n := fun same => different (Value.byte.inj same)
    exact orderBehind_of_pattern? apart rfl rfl rfl common a b
  · intro m n different
    have apart : Value.integer m ≠ .integer n := fun same => different (Value.integer.inj same)
    have decided := orderBehind_of_pattern? apart rfl rfl rfl common a b
    refine ⟨decided, decided.trans ?_⟩
    exact compare_twosComplement m.le_toInt m.toInt_lt n.le_toInt n.toInt_lt
  · intro m n different
    have apart : Value.long m ≠ .long n := fun same => different (Value.long.inj same)
    have decided := orderBehind_of_pattern? apart rfl rfl rfl common a b
    refine ⟨decided, decided.trans ?_⟩
    exact compare_twosComplement m.le_toInt m.toInt_lt n.le_toInt n.toInt_lt
  · intro m n different
    have apart : Value.double m ≠ .double n := fun same => different (Value.double.inj same)
    have decided := orderBehind_of_pattern? apart rfl rfl rfl common a b
    refine ⟨decided, ?_⟩
    intro unsigned signed
    rw [decided]
    exact Nat.compare_eq_gt.mpr (Nat.lt_of_lt_of_le unsigned signed)

/-- Octets of the separator inside a number are doubled, on one side or on both,
and do not change its place. -/
theorem order_of_fixed_width_with_separators :
    (-2 : Int32) ≠ 0xFEFE ∧
      orderBehind [.ofValue (.text "k")] (.integer (-2)) [] (.integer 0xFEFE) [.ofValue (.byte 0)] =
        .gt ∧
    (-2 : Int64) ≠ -1 ∧
      orderBehind [.ofValue (.text "k")] (.long (-2)) [] (.long (-1)) [.ofValue (.byte 0)] = .lt ∧
    (0xFE : UInt8) ≠ 0xFD ∧
      orderBehind [.ofValue (.text "k")] (.byte 0xFE) [] (.byte 0xFD) [.ofValue (.byte 0)] = .gt ∧
    (0xFEF0000000000000 : UInt64) ≠ 0x7FF0000000000000 ∧
      UInt64.toNat 0x7FF0000000000000 < 2 ^ 63 ∧ 2 ^ 63 ≤ UInt64.toNat 0xFEF0000000000000 ∧
      orderBehind [.ofValue (.text "k")] (.double 0xFEF0000000000000) []
        (.double 0x7FF0000000000000) [.ofValue (.byte 0)] = .gt := by
  rcases order_of_fixed_width [.ofValue (.text "k")] [] [.ofValue (.byte 0)] with
    ⟨bytes, integers, longs, doubles⟩
  refine ⟨by decide, ?_, by decide, ?_, by decide, ?_, by decide, by decide, by decide, ?_⟩
  · exact ((integers (-2) 0xFEFE) (by decide)).2.trans (by decide)
  · exact ((longs (-2) (-1)) (by decide)).2.trans (by decide)
  · exact (bytes 0xFE 0xFD (by decide)).trans (by decide)
  · exact (doubles _ _ (by decide)).2 (by decide) (by decide)

end Record
end SortKey
