import SortKey.Proofs.Text.Spelling

namespace SortKey
namespace Text
namespace Modified

/-!
# Modified UTF-8 is read back

Every unit is read from the octets in which it was written, and every character
from its units.  A character of the basic plane is never half of a pair, so
reading does not confuse it with one.  The length that is announced before a
text is the length of what is written.

Conversely, whatever is read as text is a row of spellings of well-paired units,
and what is written is the row that has neither zero octets nor overlong
spellings.
-/

/-! ## Units -/

/-- A unit as it is written, by its size. -/
theorem encodeUnit_eq (unit : UInt16) :
    encodeUnit unit =
      if 1 ≤ unit.toNat ∧ unit.toNat ≤ 0x7F then [UInt8.ofNat unit.toNat]
      else if unit.toNat ≤ 0x7FF then
        [UInt8.ofNat (0xC0 + unit.toNat / 0x40), UInt8.ofNat (0x80 + unit.toNat % 0x40)]
      else
        [UInt8.ofNat (0xE0 + unit.toNat / 0x1000), UInt8.ofNat (0x80 + unit.toNat / 0x40 % 0x40),
          UInt8.ofNat (0x80 + unit.toNat % 0x40)] := by
  by_cases one : 1 ≤ unit.toNat ∧ unit.toNat ≤ 0x7F
  · simp [encodeUnit, unitLength, one]
  · by_cases two : unit.toNat ≤ 0x7FF <;> simp [encodeUnit, unitLength, one, two]

theorem length_encodeUnit (unit : UInt16) : (encodeUnit unit).length = unitLength unit := by
  rw [encodeUnit_eq, unitLength]
  split
  · rfl
  · split <;> rfl

theorem decodeUnitsOnto_flatMap (read units : List UInt16) :
    decodeUnitsOnto read (units.flatMap encodeUnit) = some (read.reverse ++ units) := by
  have spelled := Spelling.flatMap_octets_ofUnit units
  have values := Spelling.map_unit_ofUnit units
  exact (decodeUnitsOnto_eq_some_iff read _ _).mpr
    ⟨units.map Spelling.ofUnit, spelled, congrArg (read.reverse ++ ·) values⟩

/-! ## Characters -/

/-- A character is one unit that is no surrogate, or a pair of surrogates. -/
theorem charUnits_cases (c : Char) :
    (Exists fun unit => charUnits c = [unit] ∧ (unit.toNat < 0xD800 ∨ 0xDFFF < unit.toNat) ∧
      unit.toNat = c.toNat) ∨
    (Exists fun high => Exists fun low => charUnits c = [high, low] ∧
      (0xD800 ≤ high.toNat ∧ high.toNat < 0xDC00) ∧ (0xDC00 ≤ low.toNat ∧ low.toNat < 0xE000) ∧
      0x10000 + (high.toNat - 0xD800) * 0x400 + (low.toNat - 0xDC00) = c.toNat) := by
  have scalar : c.toNat < 0xD800 ∨ 0xDFFF < c.toNat ∧ c.toNat < 0x110000 := c.valid
  by_cases basic : c.toNat < 0x10000
  · have unit : (UInt16.ofNat c.toNat).toNat = c.toNat := UInt16.toNat_ofNat_of_lt' basic
    refine Or.inl ⟨UInt16.ofNat c.toNat, ?_, by omega, unit⟩
    simp only [charUnits, basic, if_true]
  · have high : (UInt16.ofNat (0xD800 + (c.toNat - 0x10000) / 0x400)).toNat =
        0xD800 + (c.toNat - 0x10000) / 0x400 := UInt16.toNat_ofNat_of_lt' (by simp [UInt16.size]; omega)
    have low : (UInt16.ofNat (0xDC00 + (c.toNat - 0x10000) % 0x400)).toNat =
        0xDC00 + (c.toNat - 0x10000) % 0x400 := UInt16.toNat_ofNat_of_lt' (by simp [UInt16.size]; omega)
    refine Or.inr ⟨UInt16.ofNat (0xD800 + (c.toNat - 0x10000) / 0x400),
      UInt16.ofNat (0xDC00 + (c.toNat - 0x10000) % 0x400), ?_, by omega, by omega, by omega⟩
    simp only [charUnits, basic, if_false]

theorem charsOnto_charUnits (made : List Char) (c : Char) (rest : List UInt16) :
    charsOnto made (charUnits c ++ rest) = charsOnto (c :: made) rest := by
  rcases charUnits_cases c with ⟨unit, one, alone, value⟩ | ⟨high, low, two, first, second, value⟩
  · have notHigh : isHigh unit = false := by
      simp only [isHigh, Bool.and_eq_false_iff, decide_eq_false_iff_not]
      omega
    have notLow : isLow unit = false := by
      simp only [isLow, Bool.and_eq_false_iff, decide_eq_false_iff_not]
      omega
    rw [one, List.singleton_append, charsOnto.eq_def]
    simp only [notHigh, notLow, Bool.false_eq_true, if_false, value, Char.ofNat_toNat]
  · have isFirst : isHigh high = true := by
      simp only [isHigh, Bool.and_eq_true, decide_eq_true_eq, first, and_self]
    have isSecond : isLow low = true := by
      simp only [isLow, Bool.and_eq_true, decide_eq_true_eq, second, and_self]
    rw [two]
    simp only [List.cons_append, List.nil_append, charsOnto, isFirst, isSecond, if_true, value,
      Char.ofNat_toNat]

theorem charsOnto_flatMap (made chars : List Char) :
    charsOnto made (chars.flatMap charUnits) = some (made.reverse ++ chars) := by
  induction chars generalizing made with
  | nil => simp [charsOnto]
  | cons c chars ih =>
      rw [List.flatMap_cons, charsOnto_charUnits, ih]
      simp

/-- UTF-16 units in which every surrogate is half of a pair. -/
inductive WellPaired : List UInt16 -> Prop
  | nil : WellPaired []
  | single {unit : UInt16} {rest : List UInt16}
      (alone : unit.toNat < 0xD800 ∨ 0xDFFF < unit.toNat) (others : WellPaired rest) :
      WellPaired (unit :: rest)
  | pair {high low : UInt16} {rest : List UInt16}
      (first : 0xD800 ≤ high.toNat ∧ high.toNat < 0xDC00)
      (second : 0xDC00 ≤ low.toNat ∧ low.toNat < 0xE000) (others : WellPaired rest) :
      WellPaired (high :: low :: rest)

theorem charUnits_alone {unit : UInt16} (alone : unit.toNat < 0xD800 ∨ 0xDFFF < unit.toNat) :
    charUnits (Char.ofNat unit.toNat) = [unit] := by
  have bounded : unit.toNat < 0x10000 := unit.toNat_lt
  have valid : unit.toNat.isValidChar := by
    rw [Nat.isValidChar]
    omega
  have value : (Char.ofNat unit.toNat).toNat = unit.toNat := by
    rw [Char.ofNat, dif_pos valid]
    rfl
  simp only [charUnits, value, bounded, if_true, UInt16.ofNat_toNat]

theorem charUnits_pair {high low : UInt16} (first : 0xD800 ≤ high.toNat ∧ high.toNat < 0xDC00)
    (second : 0xDC00 ≤ low.toNat ∧ low.toNat < 0xE000) :
    charUnits (Char.ofNat (0x10000 + (high.toNat - 0xD800) * 0x400 + (low.toNat - 0xDC00))) =
      [high, low] := by
  generalize joined : 0x10000 + (high.toNat - 0xD800) * 0x400 + (low.toNat - 0xDC00) = n
  have valid : n.isValidChar := by
    rw [Nat.isValidChar]
    omega
  have value : (Char.ofNat n).toNat = n := by
    rw [Char.ofNat, dif_pos valid]
    rfl
  have large : Not (n < 0x10000) := by omega
  have highHalf : 0xD800 + (n - 0x10000) / 0x400 = high.toNat := by omega
  have lowHalf : 0xDC00 + (n - 0x10000) % 0x400 = low.toNat := by omega
  simp only [charUnits, value, large, if_false, highHalf, lowHalf, UInt16.ofNat_toNat]

/-- Units are well paired when they are the units of some characters. -/
theorem wellPaired_iff (units : List UInt16) :
    WellPaired units ↔ Exists fun chars : List Char => chars.flatMap charUnits = units := by
  constructor
  · intro paired
    induction paired with
    | nil => exact ⟨[], rfl⟩
    | single alone others ih =>
        rcases ih with ⟨chars, rfl⟩
        exact ⟨_ :: chars, congrArg (· ++ chars.flatMap charUnits) (charUnits_alone alone)⟩
    | pair first second others ih =>
        rcases ih with ⟨chars, rfl⟩
        exact ⟨_ :: chars,
          congrArg (· ++ chars.flatMap charUnits) (charUnits_pair first second)⟩
  · rintro ⟨chars, rfl⟩
    induction chars with
    | nil => exact WellPaired.nil
    | cons c chars ih =>
        rw [List.flatMap_cons]
        rcases charUnits_cases c with ⟨unit, one, alone, _⟩ | ⟨high, low, two, first, second, _⟩
        · rw [one]
          exact WellPaired.single alone ih
        · rw [two]
          exact WellPaired.pair first second ih

/-- Characters are made of units when these are the units of the characters. -/
theorem charsOnto_eq_some_iff (made chars : List Char) (units : List UInt16) :
    charsOnto made units = some chars ↔
      Exists fun more : List Char => more.flatMap charUnits = units ∧
        made.reverse ++ more = chars := by
  constructor
  · intro found
    have paired : WellPaired units := by
      fun_induction charsOnto made units with
      | case1 => exact WellPaired.nil
      | case2 made high first low rest second ih =>
          simp only [isHigh, isLow, Bool.and_eq_true, decide_eq_true_eq] at first second
          exact WellPaired.pair first second (ih found)
      | case6 made unit rest notHigh notLow ih =>
          simp only [isHigh, isLow, Bool.and_eq_true, decide_eq_true_eq] at notHigh notLow
          exact WellPaired.single (by omega) (ih found)
      | _ => cases found
    rcases (wellPaired_iff units).mp paired with ⟨more, rfl⟩
    rw [charsOnto_flatMap] at found
    exact ⟨more, rfl, Option.some.inj found⟩
  · rintro ⟨more, rfl, rfl⟩
    exact charsOnto_flatMap made more

/-! ## Texts -/

theorem decode_encode (text : String) : decode (encode text) = .ok text := by
  rw [decode, encode, decodeUnitsOnto_flatMap]
  simp only [List.reverse_nil, List.nil_append, units]
  rw [charsOnto_flatMap]
  simp

/-- What was written before stays in front. -/
theorem encodeOnto_eq (written : Bytes) (units : List UInt16) :
    encodeOnto written units = written ++ units.flatMap encodeUnit := by
  induction units generalizing written with
  | nil => simp [encodeOnto]
  | cons unit units ih => rw [encodeOnto, ih, List.flatMap_cons, List.append_assoc]

theorem encodedLength_eq_length (text : String) : encodedLength text = (encode text).length := by
  have summed : forall (units : List UInt16) (start : Nat),
      units.foldl (fun total unit => total + unitLength unit) start =
        start + (units.flatMap encodeUnit).length := by
    intro units
    induction units with
    | nil => simp
    | cons unit units ih =>
        intro start
        rw [List.foldl_cons, ih, List.flatMap_cons, List.length_append, length_encodeUnit,
          Nat.add_assoc]
  rw [encodedLength, encode, summed, Nat.zero_add]

/-! ## What is read as text -/

open Spelling

/-- Reading finds units and then characters, or it fails. -/
theorem decode_cases (bytes : Bytes) :
    decode bytes = .error .malformedText ∨
    Exists fun text => decode bytes = .ok text ∧ Exists fun units =>
      decodeUnitsOnto [] bytes = some units ∧ charsOnto [] units = some text.toList := by
  unfold decode
  cases decodeUnitsOnto [] bytes with
  | none => exact Or.inl rfl
  | some units =>
      dsimp only
      cases made : charsOnto [] units with
      | none => exact Or.inl rfl
      | some chars =>
          refine Or.inr ⟨String.ofList chars, rfl, units, rfl, ?_⟩
          rw [made, String.toList_ofList]

theorem decode_eq_ok_iff (bytes : Bytes) (text : String) :
    decode bytes = .ok text ↔
      Exists fun spellings : List Spelling => spellings.flatMap octets = bytes ∧
        spellings.map unit = units text := by
  constructor
  · intro found
    rcases decode_cases bytes with failed | ⟨read, ok, between, unitsFound, charsFound⟩
    · rw [failed] at found
      cases found
    · rw [ok] at found
      cases found
      rcases (decodeUnitsOnto_eq_some_iff [] between bytes).mp unitsFound with
        ⟨spellings, spelled, values⟩
      rcases (charsOnto_eq_some_iff [] text.toList between).mp charsFound with
        ⟨chars, made, same⟩
      refine ⟨spellings, spelled, ?_⟩
      rw [units, ← same, List.reverse_nil, List.nil_append, made]
      exact values
  · rintro ⟨spellings, rfl, values⟩
    have unitsFound : decodeUnitsOnto [] (spellings.flatMap octets) = some (units text) :=
      (decodeUnitsOnto_eq_some_iff [] _ _).mpr ⟨spellings, rfl, values⟩
    have charsFound : charsOnto [] (units text) = some text.toList :=
      charsOnto_flatMap [] text.toList
    rw [decode, unitsFound]
    simp only [charsFound, String.ofList_toList]

theorem decode_eq_error_iff (bytes : Bytes) :
    decode bytes = .error .malformedText ↔ Not (Exists fun text => decode bytes = .ok text) := by
  rcases decode_cases bytes with failed | ⟨text, ok, _⟩
  · simp [failed]
  · simp [ok]

theorem exists_decode_eq_ok_iff (bytes : Bytes) :
    (Exists fun text => decode bytes = .ok text) ↔
      Exists fun spellings : List Spelling => spellings.flatMap octets = bytes ∧
        WellPaired (spellings.map unit) := by
  constructor
  · rintro ⟨text, found⟩
    rcases (decode_eq_ok_iff bytes text).mp found with ⟨spellings, spelled, values⟩
    exact ⟨spellings, spelled, (wellPaired_iff _).mpr ⟨text.toList, values.symm⟩⟩
  · rintro ⟨spellings, spelled, paired⟩
    rcases (wellPaired_iff _).mp paired with ⟨chars, values⟩
    refine ⟨String.ofList chars, (decode_eq_ok_iff _ _).mpr ⟨spellings, spelled, ?_⟩⟩
    rw [units, String.toList_ofList, values]

/-! ## What is written -/

/-- Among the spellings of a text, those are written in which nothing is a zero
octet or overlong. -/
theorem encode_eq_flatMap_octets_iff {text : String} {spellings : List Spelling}
    (spelled : spellings.map unit = units text) :
    encode text = spellings.flatMap octets ↔
      Not (0 ∈ spellings.flatMap octets) ∧ ∀ s ∈ spellings, Not s.Overlong := by
  have each : encode text = spellings.flatMap octets ↔
      ∀ s ∈ spellings, (ofUnit ∘ unit) s = id s := by
    rw [encode, ← spelled, ← flatMap_octets_ofUnit, List.map_map, ← List.map_inj_left, List.map_id]
    exact ⟨flatMap_octets_inj, congrArg (List.flatMap octets)⟩
  have zero : Not (0 ∈ spellings.flatMap octets) ↔ ∀ s ∈ spellings, s ≠ one 0 := by
    simp only [List.mem_flatMap, zero_mem_octets_iff, not_exists, not_and, ne_eq]
  rw [each, zero, ← forall₂_and]
  exact forall₂_congr fun s _ => ofUnit_unit_eq_self_iff s

theorem octet_of_mem_encode {text : String} {b : UInt8} (among : b ∈ encode text) :
    b ≠ 0 ∧ b.toNat < 0xF0 := by
  have kept : encode text = ((units text).map ofUnit).flatMap octets :=
    (flatMap_octets_ofUnit (units text)).symm
  have shortest := (encode_eq_flatMap_octets_iff (map_unit_ofUnit (units text))).mp kept
  rw [kept] at among
  constructor
  · rintro rfl
    exact shortest.1 among
  · rcases List.mem_flatMap.mp among with ⟨s, _, inside⟩
    exact toNat_lt_of_mem_octets inside

/-- A text is read back from what was written of it, which is as long as announced
and free of zero octets and of octets from `0xF0` on.  Octets are read as a text
when they are spellings in a row of the units of this text.  They are read as some
text when the spelled units are well paired, and are malformed otherwise.  What is
read is written in the same octets unless there is a zero octet or an overlong
spelling. -/
theorem decode_exactly_spellings (text : String) (written bytes : Bytes) :
    (decode (encode text) = .ok text ∧ (encode text).length = encodedLength text ∧
      encodeOnto written (units text) = written ++ encode text ∧
      ∀ b ∈ encode text, b ≠ 0 ∧ b.toNat < 0xF0) ∧
    (decode bytes = .ok text ↔
      Exists fun spellings : List Spelling => spellings.flatMap octets = bytes ∧
        spellings.map unit = units text) ∧
    ((Exists fun read => decode bytes = .ok read) ↔
      Exists fun spellings : List Spelling => spellings.flatMap octets = bytes ∧
        WellPaired (spellings.map unit)) ∧
    (decode bytes = .error .malformedText ↔ Not (Exists fun read => decode bytes = .ok read)) ∧
    forall spellings : List Spelling, spellings.flatMap octets = bytes -> decode bytes = .ok text ->
      (encode text = bytes ↔ Not (0 ∈ bytes) ∧ ∀ s ∈ spellings, Not s.Overlong) := by
  refine ⟨⟨decode_encode text, (encodedLength_eq_length text).symm,
    encodeOnto_eq written (units text), fun b among => octet_of_mem_encode among⟩,
    decode_eq_ok_iff bytes text, exists_decode_eq_ok_iff bytes, decode_eq_error_iff bytes, ?_⟩
  rintro spellings rfl found
  rcases (decode_eq_ok_iff _ text).mp found with ⟨others, same, spelled⟩
  rw [flatMap_octets_inj same] at spelled
  exact encode_eq_flatMap_octets_iff spelled

/-- An overlong letter is read, but it is written differently.  A pair of surrogates
and a zero unit in two octets are written as they were read. -/
theorem decode_exactly_spellings_overlong_and_paired :
    (decode [0xC1, 0xA1] = .ok "a" ∧ encode "a" ≠ [0xC1, 0xA1]) ∧
    (decode [0xED, 0xA0, 0xBD, 0xED, 0xB8, 0x80, 0xC0, 0x80] = .ok "😀\x00" ∧
      encode "😀\x00" = [0xED, 0xA0, 0xBD, 0xED, 0xB8, 0x80, 0xC0, 0x80]) := by
  have overlong : decode [0xC1, 0xA1] = .ok "a" := rfl
  have paired : decode [0xED, 0xA0, 0xBD, 0xED, 0xB8, 0x80, 0xC0, 0x80] = .ok "😀\x00" := rfl
  refine ⟨⟨overlong, ?_⟩, paired, ?_⟩
  · intro same
    have parts := decode_exactly_spellings "a" [] [0xC1, 0xA1]
    have short := (parts.2.2.2.2 [two 0x01 0x21] rfl overlong).mp same
    exact short.2 (two 0x01 0x21) List.mem_cons_self (by decide)
  · have parts := decode_exactly_spellings "😀\x00" []
      [0xED, 0xA0, 0xBD, 0xED, 0xB8, 0x80, 0xC0, 0x80]
    exact (parts.2.2.2.2 [three 0x0D 0x20 0x3D, three 0x0D 0x38 0x00, two 0x00 0x00] rfl paired).mpr
      (by decide)

end Modified
end Text
end SortKey
