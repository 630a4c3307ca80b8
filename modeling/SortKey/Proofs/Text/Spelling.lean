import Mathlib.Data.List.Basic
import SortKey.Text.Modified

namespace SortKey
namespace Text
namespace Modified

/-!
# Spellings of units

A unit stands among octets in one of three forms, told apart by the first octet.
Octets are read as units when they are spellings in a row, and then in one way
only.  The forms overlap in what they can hold, so many units have more than one
spelling.  The one that is written is the shortest, except for the unit zero.
-/

/-- The forms `0xxxxxxx`, `110xxxxx 10xxxxxx` and `1110xxxx 10xxxxxx 10xxxxxx`,
with the bits that they leave open. -/
inductive Spelling
  | one (bits : Fin 0x80)
  | two (high : Fin 0x20) (low : Fin 0x40)
  | three (high : Fin 0x10) (middle low : Fin 0x40)
deriving DecidableEq, Repr

namespace Spelling

/-- The octets of a spelling as numbers. -/
def codes : Spelling -> List Nat
  | one bits => [bits]
  | two high low => [0xC0 + high, 0x80 + low]
  | three high middle low => [0xE0 + high, 0x80 + middle, 0x80 + low]

/-- The octets of a spelling. -/
def octets (s : Spelling) : Bytes :=
  s.codes.map UInt8.ofNat

/-- The bits of a spelling as one number. -/
def number : Spelling -> Nat
  | one bits => bits
  | two high low => high * 0x40 + low
  | three high middle low => high * 0x1000 + middle * 0x40 + low

/-- The unit that is spelled. -/
def unit (s : Spelling) : UInt16 :=
  UInt16.ofNat s.number

/-- A spelling in two octets of a unit that is written in one, or in three octets
of a unit that is written in fewer.  The unit zero is written in two. -/
def Overlong : Spelling -> Prop
  | one _ => False
  | two high low => 1 ≤ (two high low).number ∧ (two high low).number ≤ 0x7F
  | three high middle low => (three high middle low).number < 0x800

instance : DecidablePred Overlong
  | one _ => inferInstanceAs (Decidable False)
  | two high low =>
      inferInstanceAs (Decidable (1 ≤ (two high low).number ∧ (two high low).number ≤ 0x7F))
  | three high middle low =>
      inferInstanceAs (Decidable ((three high middle low).number < 0x800))

/-- The spelling in which a unit is written. -/
def ofUnit (unit : UInt16) : Spelling :=
  let n := unit.toNat
  if 1 ≤ n ∧ n ≤ 0x7F then one (Fin.ofNat _ n)
  else if n ≤ 0x7FF then two (Fin.ofNat _ (n / 0x40)) (Fin.ofNat _ n)
  else three (Fin.ofNat _ (n / 0x1000)) (Fin.ofNat _ (n / 0x40)) (Fin.ofNat _ n)

/-! ## Numbers and octets -/

theorem number_lt (s : Spelling) : s.number < 0x10000 := by
  cases s <;> simp only [number] <;> omega

theorem toNat_unit (s : Spelling) : s.unit.toNat = s.number :=
  UInt16.toNat_ofNat_of_lt' s.number_lt

theorem octets_ofUnit (unit : UInt16) : (ofUnit unit).octets = encodeUnit unit := by
  have bounded : unit.toNat < 0x10000 := unit.toNat_lt
  rw [ofUnit, encodeUnit, unitLength]
  by_cases one : 1 ≤ unit.toNat ∧ unit.toNat ≤ 0x7F
  · have bits : unit.toNat % 0x80 = unit.toNat := Nat.mod_eq_of_lt (by omega)
    simp only [one, if_true, and_self, octets, codes, List.map_cons, List.map_nil, Fin.val_ofNat, bits]
  · by_cases two : unit.toNat ≤ 0x7FF
    · have high : unit.toNat / 0x40 % 0x20 = unit.toNat / 0x40 := Nat.mod_eq_of_lt (by omega)
      simp only [one, two, if_true, if_false, octets, codes, List.map_cons, List.map_nil, Fin.val_ofNat, high]
    · have high : unit.toNat / 0x1000 % 0x10 = unit.toNat / 0x1000 :=
        Nat.mod_eq_of_lt (by omega)
      simp only [one, two, if_false, octets, codes, List.map_cons, List.map_nil, Fin.val_ofNat, high]

theorem unit_ofUnit (unit : UInt16) : (ofUnit unit).unit = unit := by
  have bounded : unit.toNat < 0x10000 := unit.toNat_lt
  have same : (ofUnit unit).number = unit.toNat := by
    rw [ofUnit]
    split
    · simp only [number, Fin.val_ofNat]
      omega
    · split <;> simp only [number, Fin.val_ofNat] <;> omega
  rw [Spelling.unit, same, UInt16.ofNat_toNat]

theorem flatMap_octets_ofUnit (units : List UInt16) :
    (units.map ofUnit).flatMap octets = units.flatMap encodeUnit := by
  rw [List.flatMap_map]
  exact congrArg units.flatMap (funext octets_ofUnit)

theorem map_unit_ofUnit (units : List UInt16) : (units.map ofUnit).map unit = units := by
  have kept : unit ∘ ofUnit = id := funext unit_ofUnit
  rw [List.map_map, kept, List.map_id]

/-- A unit is written in this spelling, unless the spelling is a zero octet or
overlong. -/
theorem ofUnit_unit_eq_self_iff (s : Spelling) :
    ofUnit s.unit = s ↔ s ≠ one 0 ∧ Not s.Overlong := by
  rw [ofUnit, toNat_unit]
  cases s with
  | one bits =>
      by_cases zero : bits = 0
      · subst zero
        decide
      · have small : 1 ≤ (one bits).number ∧ (one bits).number ≤ 0x7F := by
          simp only [number]
          omega
        have kept : Fin.ofNat 0x80 (one bits).number = bits :=
          Fin.ext (Nat.mod_eq_of_lt bits.isLt)
        rw [if_pos small, kept]
        simp [Overlong, zero]
  | two high low =>
      by_cases small : 1 ≤ (two high low).number ∧ (two high low).number ≤ 0x7F
      · rw [if_pos small]
        simp [Overlong, small]
      · have short : (two high low).number ≤ 0x7FF := by
          simp only [number]
          omega
        have highKept : Fin.ofNat 0x20 ((two high low).number / 0x40) = high :=
          Fin.ext (by simp only [Fin.val_ofNat, number]; omega)
        have lowKept : Fin.ofNat 0x40 (two high low).number = low :=
          Fin.ext (by simp only [Fin.val_ofNat, number]; omega)
        rw [if_neg small, if_pos short, highKept, lowKept]
        simp [Overlong, small]
  | three high middle low =>
      by_cases short : (three high middle low).number < 0x800
      · have shorter : (three high middle low).number ≤ 0x7FF := Nat.le_of_lt_succ short
        rw [if_pos shorter]
        simp only [Overlong, short, not_true, and_false, iff_false]
        split <;> simp
      · have long : Not ((three high middle low).number ≤ 0x7FF) := by omega
        have large : Not (1 ≤ (three high middle low).number ∧
            (three high middle low).number ≤ 0x7F) := by omega
        have highKept : Fin.ofNat 0x10 ((three high middle low).number / 0x1000) = high :=
          Fin.ext (by simp only [Fin.val_ofNat, number]; omega)
        have middleKept : Fin.ofNat 0x40 ((three high middle low).number / 0x40) = middle :=
          Fin.ext (by simp only [Fin.val_ofNat, number]; omega)
        have lowKept : Fin.ofNat 0x40 (three high middle low).number = low :=
          Fin.ext (by simp only [Fin.val_ofNat, number]; omega)
        rw [if_neg large, if_neg long, highKept, middleKept, lowKept]
        simp [Overlong, short]

/-! ## Spellings in a row -/

theorem codes_lt (s : Spelling) : ∀ n ∈ s.codes, n < 0xF0 := by
  cases s <;> simp only [codes, List.mem_cons, List.not_mem_nil, or_false] <;> omega

theorem map_toNat_octets (s : Spelling) : s.octets.map UInt8.toNat = s.codes := by
  have kept : ∀ n ∈ s.codes, (UInt8.toNat ∘ UInt8.ofNat) n = id n := fun n among =>
    UInt8.toNat_ofNat_of_lt' (Nat.lt_trans (s.codes_lt n among) (by decide))
  rw [octets, List.map_map, List.map_congr_left kept, List.map_id]

theorem toNat_lt_of_mem_octets {s : Spelling} {b : UInt8} (among : b ∈ s.octets) :
    b.toNat < 0xF0 := by
  have code : b.toNat ∈ s.octets.map UInt8.toNat := List.mem_map_of_mem among
  rw [map_toNat_octets] at code
  exact s.codes_lt b.toNat code

theorem zero_mem_octets_iff (s : Spelling) : 0 ∈ s.octets ↔ s = one 0 := by
  constructor
  · intro zero
    have code : 0 ∈ s.octets.map UInt8.toNat := List.mem_map_of_mem zero
    rw [map_toNat_octets] at code
    cases s with
    | one bits =>
        have none : bits = 0 := by
          simp only [codes, List.mem_singleton] at code
          omega
        rw [none]
    | two | three =>
        simp only [codes, List.mem_cons, List.not_mem_nil, or_false] at code
        omega
  · rintro rfl
    decide

/-- Octets begin with at most one spelling. -/
theorem octets_append_inj {s t : Spelling} {a b : Bytes}
    (same : s.octets ++ a = t.octets ++ b) : s = t := by
  have codesSame := congrArg (List.map UInt8.toNat) same
  rw [List.map_append, List.map_append, map_toNat_octets, map_toNat_octets] at codesSame
  -- The first octets of two forms lie in different ranges.
  cases s <;> cases t <;>
    simp only [codes, List.cons_append, List.nil_append, List.cons.injEq] at codesSame <;>
    simp only [one.injEq, two.injEq, three.injEq, reduceCtorEq] <;> omega

theorem flatMap_octets_inj {ss ts : List Spelling}
    (same : ss.flatMap octets = ts.flatMap octets) : ss = ts := by
  have nonempty : forall (s : Spelling) (rest : Bytes), s.octets ++ rest ≠ [] := by
    intro s rest
    cases s <;> exact List.cons_ne_nil _ _
  induction ss generalizing ts with
  | nil =>
      cases ts with
      | nil => rfl
      | cons t ts => exact absurd same.symm (nonempty t _)
  | cons s ss ih =>
      cases ts with
      | nil => exact absurd same (nonempty s _)
      | cons t ts =>
          rw [List.flatMap_cons, List.flatMap_cons] at same
          have first : s = t := octets_append_inj same
          rw [first] at same ⊢
          rw [ih (List.append_cancel_left same)]

end Spelling

/-! ## Reading -/

section Reading

variable (read : List UInt16) {a b c : UInt8} (rest : Bytes)

theorem decodeUnitsOnto_one (lead : a.toNat / 0x10 ≤ 7) :
    decodeUnitsOnto read (a :: rest) = decodeUnitsOnto (UInt16.ofNat a.toNat :: read) rest := by
  rw [decodeUnitsOnto.eq_def]
  simp only [lead, if_true]

theorem decodeUnitsOnto_two (lead : a.toNat / 0x10 = 12 ∨ a.toNat / 0x10 = 13)
    (second : isContinuation b = true) :
    decodeUnitsOnto read (a :: b :: rest) =
      decodeUnitsOnto (UInt16.ofNat (a.toNat % 0x20 * 0x40 + b.toNat % 0x40) :: read) rest := by
  have long : ¬ a.toNat / 0x10 ≤ 7 := by omega
  rw [decodeUnitsOnto.eq_def]
  simp only [long, lead, second, if_true, if_false]

theorem decodeUnitsOnto_three (lead : a.toNat / 0x10 = 14) (second : isContinuation b = true)
    (third : isContinuation c = true) :
    decodeUnitsOnto read (a :: b :: c :: rest) =
      decodeUnitsOnto
        (UInt16.ofNat (a.toNat % 0x10 * 0x1000 + b.toNat % 0x40 * 0x40 + c.toNat % 0x40) :: read)
        rest := by
  have long : ¬ a.toNat / 0x10 ≤ 7 := by omega
  have notTwo : ¬ (a.toNat / 0x10 = 12 ∨ a.toNat / 0x10 = 13) := by omega
  rw [decodeUnitsOnto.eq_def]
  dsimp only
  rw [if_neg long, if_neg notTwo, if_pos lead, second, third, Bool.and_self, if_pos rfl]

end Reading

private theorem toNat_octet {n : Nat} (fits : n < 256) : (UInt8.ofNat n).toNat = n :=
  UInt8.toNat_ofNat_of_lt' fits

private theorem isContinuation_octet {n : Nat} (low : n < 0x40) :
    isContinuation (UInt8.ofNat (0x80 + n)) = true := by
  rw [isContinuation, toNat_octet (by omega), beq_iff_eq]
  omega

/-- A spelling is read as its unit. -/
theorem decodeUnitsOnto_octets (read : List UInt16) (s : Spelling) (rest : Bytes) :
    decodeUnitsOnto read (s.octets ++ rest) = decodeUnitsOnto (s.unit :: read) rest := by
  cases s with
  | one bits =>
      have octet : (UInt8.ofNat bits).toNat = bits.val := toNat_octet (by omega)
      have step := decodeUnitsOnto_one (a := UInt8.ofNat bits) read rest (by omega)
      rw [octet] at step
      exact step
  | two high low =>
      have octet : (UInt8.ofNat (0xC0 + high)).toNat = 0xC0 + high.val := toNat_octet (by omega)
      have lowOctet : (UInt8.ofNat (0x80 + low)).toNat = 0x80 + low.val := toNat_octet (by omega)
      have joined : (0xC0 + high.val) % 0x20 * 0x40 + (0x80 + low.val) % 0x40 =
          high.val * 0x40 + low.val := by omega
      have step := decodeUnitsOnto_two (a := UInt8.ofNat (0xC0 + high)) read rest (by omega)
        (isContinuation_octet low.isLt)
      rw [octet, lowOctet, joined] at step
      exact step
  | three high middle low =>
      have octet : (UInt8.ofNat (0xE0 + high)).toNat = 0xE0 + high.val := toNat_octet (by omega)
      have middleOctet : (UInt8.ofNat (0x80 + middle)).toNat = 0x80 + middle.val :=
        toNat_octet (by omega)
      have lowOctet : (UInt8.ofNat (0x80 + low)).toNat = 0x80 + low.val := toNat_octet (by omega)
      have joined : (0xE0 + high.val) % 0x10 * 0x1000 + (0x80 + middle.val) % 0x40 * 0x40 +
          (0x80 + low.val) % 0x40 = high.val * 0x1000 + middle.val * 0x40 + low.val := by omega
      have step := decodeUnitsOnto_three (a := UInt8.ofNat (0xE0 + high)) read rest (by omega)
        (isContinuation_octet middle.isLt) (isContinuation_octet low.isLt)
      rw [octet, middleOctet, lowOctet, joined] at step
      exact step

section Spelled

variable {a b c : UInt8}

theorem exists_spelling_one (lead : a.toNat / 0x10 ≤ 7) :
    Exists fun s : Spelling => s.octets = [a] ∧ s.unit = UInt16.ofNat a.toNat := by
  refine ⟨.one ⟨a.toNat, by omega⟩, ?_, rfl⟩
  simp only [Spelling.octets, Spelling.codes, List.map_cons, List.map_nil, UInt8.ofNat_toNat]

theorem exists_spelling_two (lead : a.toNat / 0x10 = 12 ∨ a.toNat / 0x10 = 13)
    (second : isContinuation b = true) :
    Exists fun s : Spelling => s.octets = [a, b] ∧
      s.unit = UInt16.ofNat (a.toNat % 0x20 * 0x40 + b.toNat % 0x40) := by
  rw [isContinuation, beq_iff_eq] at second
  have first : 0xC0 + a.toNat % 0x20 = a.toNat := by omega
  have next : 0x80 + b.toNat % 0x40 = b.toNat := by omega
  refine ⟨.two ⟨a.toNat % 0x20, by omega⟩ ⟨b.toNat % 0x40, by omega⟩, ?_, rfl⟩
  simp only [Spelling.octets, Spelling.codes, List.map_cons, List.map_nil, first, next,
    UInt8.ofNat_toNat]

theorem exists_spelling_three (lead : a.toNat / 0x10 = 14) (second : isContinuation b = true)
    (third : isContinuation c = true) :
    Exists fun s : Spelling => s.octets = [a, b, c] ∧
      s.unit =
        UInt16.ofNat (a.toNat % 0x10 * 0x1000 + b.toNat % 0x40 * 0x40 + c.toNat % 0x40) := by
  rw [isContinuation, beq_iff_eq] at second third
  have first : 0xE0 + a.toNat % 0x10 = a.toNat := by omega
  have next : 0x80 + b.toNat % 0x40 = b.toNat := by omega
  have last : 0x80 + c.toNat % 0x40 = c.toNat := by omega
  refine ⟨.three ⟨a.toNat % 0x10, by omega⟩ ⟨b.toNat % 0x40, by omega⟩
    ⟨c.toNat % 0x40, by omega⟩, ?_, rfl⟩
  simp only [Spelling.octets, Spelling.codes, List.map_cons, List.map_nil, first, next, last,
    UInt8.ofNat_toNat]

end Spelled

/-- If octets are spelled by something, then so are the octets with one more spelling
in front. -/
theorem exists_spellings_append {read units : List UInt16} {unit : UInt16} {front rest : Bytes}
    (first : Exists fun s : Spelling => s.octets = front ∧ s.unit = unit)
    (others : Exists fun spellings : List Spelling => spellings.flatMap Spelling.octets = rest ∧
      (unit :: read).reverse ++ spellings.map Spelling.unit = units) :
    Exists fun spellings : List Spelling => spellings.flatMap Spelling.octets = front ++ rest ∧
      read.reverse ++ spellings.map Spelling.unit = units := by
  rcases first with ⟨s, octets, rfl⟩
  rcases others with ⟨spellings, behind, rfl⟩
  refine ⟨s :: spellings, ?_, ?_⟩
  · rw [List.flatMap_cons, octets, behind]
  · rw [List.map_cons, List.reverse_cons, List.append_assoc, List.singleton_append]

/-- Octets are read as units when they are spellings of these units in a row. -/
theorem decodeUnitsOnto_eq_some_iff (read units : List UInt16) (bytes : Bytes) :
    decodeUnitsOnto read bytes = some units ↔
      Exists fun spellings : List Spelling => spellings.flatMap Spelling.octets = bytes ∧
        read.reverse ++ spellings.map Spelling.unit = units := by
  constructor
  · intro found
    fun_induction decodeUnitsOnto read bytes with
    | case1 read =>
        refine ⟨[], rfl, ?_⟩
        rw [List.map_nil, List.append_nil]
        exact Option.some.inj found
    | case2 read a rest lead small ih =>
        exact exists_spellings_append (exists_spelling_one small) (ih found)
    | case3 read a lead notSmall two b rest second ih =>
        exact exists_spellings_append (exists_spelling_two two second) (ih found)
    | case6 read a lead notSmall notTwo three b c rest both ih =>
        rw [Bool.and_eq_true] at both
        exact exists_spellings_append (exists_spelling_three three both.1 both.2) (ih found)
    | _ => cases found
  · rintro ⟨spellings, rfl, rfl⟩
    induction spellings generalizing read with
    | nil => simp [decodeUnitsOnto]
    | cons s spellings ih =>
        rw [List.flatMap_cons, decodeUnitsOnto_octets, ih]
        simp

end Modified
end Text
end SortKey
