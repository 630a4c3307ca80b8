import SortKey.Proofs.Key.Numbers

namespace SortKey

/-!
# The order of texts

Texts are ordered by the scalar values of their characters, and a text comes
behind all longer ones that begin with it.  The first half is a property of
UTF-8: what a character takes is told by its first octet, longer characters have
larger first octets, and of two characters that take equally many the octets of
the larger one are the larger number.  So the first different octet of two texts
belongs to their first different characters.

The second half comes from the separator, which is larger than every octet of a
text.  The empty text is ordered as the text that shares its data.
-/

namespace Text

/-! ## Characters -/

namespace Utf8

theorem encode_eq_flatMap (text : String) :
    encode text = text.toList.flatMap String.utf8EncodeChar := by
  rw [encode, ← String.utf8Encode_toList, List.utf8Encode, List.data_toByteArray]

/-- The octets of a character as one number, if `others` of them stand behind the
first. -/
def number (others n : Nat) : Nat :=
  match others with
  | 0 => n
  | 1 => (n / 64 + 192) * 256 + (n % 64 + 128)
  | 2 => ((n / 4096 + 224) * 256 + (n / 64 % 64 + 128)) * 256 + (n % 64 + 128)
  | _ => (((n / 262144 + 240) * 256 + (n / 4096 % 64 + 128)) * 256 + (n / 64 % 64 + 128)) * 256 +
      (n % 64 + 128)

theorem number_lt_number (others : Nat) {m n : Nat} (less : m < n) :
    number others m < number others n := by
  unfold number
  split <;> omega

/-- The first octet and the scalar value of a character whose first octet is
followed by `others`. -/
def Leads (others lead n : Nat) : Prop :=
  (others = 0 ∧ lead < 0x80 ∧ n < 0x80) ∨
    (others = 1 ∧ 0xC0 ≤ lead ∧ lead < 0xE0 ∧ 0x80 ≤ n ∧ n < 0x800) ∨
    (others = 2 ∧ 0xE0 ≤ lead ∧ lead < 0xF0 ∧ 0x800 ≤ n ∧ n < 0x10000) ∨
    (others = 3 ∧ 0xF0 ≤ lead ∧ lead < 0xF8 ∧ 0x10000 ≤ n)

/-- How many octets a character takes is told by its first octet and by its scalar
value, and with that the octets are a number that grows with the value. -/
theorem exists_lead (c : Char) :
    Exists fun lead => Exists fun others => String.utf8EncodeChar c = lead :: others ∧
      Leads others.length lead.toNat c.toNat ∧
      Bytes.toNat (lead :: others) = number others.length c.toNat := by
  have value : c.val.toNat = c.toNat := rfl
  have scalar : c.toNat < 0x110000 := by
    rcases c.valid with low | ⟨_, high⟩
    · exact Nat.lt_trans low (by decide)
    · exact high
  have octet : forall {n : Nat}, n < 256 -> (UInt8.ofNat n).toNat = n :=
    UInt8.toNat_ofNat_of_lt'
  have low : (UInt8.ofNat (c.toNat % 64 + 128)).toNat = c.toNat % 64 + 128 := octet (by omega)
  have middle : (UInt8.ofNat (c.toNat / 64 % 64 + 128)).toNat = c.toNat / 64 % 64 + 128 :=
    octet (by omega)
  have high : (UInt8.ofNat (c.toNat / 4096 % 64 + 128)).toNat = c.toNat / 4096 % 64 + 128 :=
    octet (by omega)
  rw [String.utf8EncodeChar, value]
  by_cases one : c.toNat ≤ 127
  · have lead : (UInt8.ofNat c.toNat).toNat = c.toNat := octet (by omega)
    refine ⟨_, _, if_pos one, Or.inl ⟨rfl, by omega, by omega⟩, ?_⟩
    simp only [Bytes.toNat, List.foldl_cons, List.foldl_nil, Nat.zero_mul, Nat.zero_add, lead]
    rfl
  rw [if_neg one]
  by_cases two : c.toNat ≤ 2047
  · have lead : (UInt8.ofNat (c.toNat / 64 % 32 + 192)).toNat = c.toNat / 64 + 192 := by
      rw [octet] <;> omega
    refine ⟨_, _, if_pos two, Or.inr (Or.inl ⟨rfl, by omega, by omega, by omega, by omega⟩), ?_⟩
    simp only [Bytes.toNat, List.foldl_cons, List.foldl_nil, Nat.zero_mul, Nat.zero_add, lead, low]
    rfl
  rw [if_neg two]
  by_cases three : c.toNat ≤ 65535
  · have lead : (UInt8.ofNat (c.toNat / 4096 % 16 + 224)).toNat = c.toNat / 4096 + 224 := by
      rw [octet] <;> omega
    refine ⟨_, _, if_pos three,
      Or.inr (Or.inr (Or.inl ⟨rfl, by omega, by omega, by omega, by omega⟩)), ?_⟩
    simp only [Bytes.toNat, List.foldl_cons, List.foldl_nil, Nat.zero_mul, Nat.zero_add, lead,
      middle, low]
    rfl
  rw [if_neg three]
  have lead : (UInt8.ofNat (c.toNat / 262144 % 8 + 240)).toNat = c.toNat / 262144 + 240 := by
    rw [octet] <;> omega
  refine ⟨_, _, rfl, Or.inr (Or.inr (Or.inr ⟨rfl, by omega, by omega, by omega⟩)), ?_⟩
  simp only [Bytes.toNat, List.foldl_cons, List.foldl_nil, Nat.zero_mul, Nat.zero_add, lead, high,
    middle, low]
  rfl

/-- Different characters are decided by their octets as by their scalar values,
before anything behind them is reached. -/
theorem dataOrder_encodeChar_of_ne {c d : Char} (different : c ≠ d) (a b : Bytes) :
    dataOrder (String.utf8EncodeChar c ++ a) (String.utf8EncodeChar d ++ b) =
      compare c.toNat d.toNat := by
  have apart : c.toNat ≠ d.toNat := fun same => different (Char.toNat_inj.mp same)
  rcases exists_lead c with ⟨leadC, othersC, octetsC, leadsC, numberC⟩
  rcases exists_lead d with ⟨leadD, othersD, octetsD, leadsD, numberD⟩
  rw [octetsC, octetsD]
  by_cases lengths : othersC.length = othersD.length
  · have sizes : (leadC :: othersC).length = (leadD :: othersD).length :=
      congrArg Nat.succ lengths
    rw [dataOrder_append_of_length_eq _ _ sizes, numberC, numberD, lengths]
    rcases Nat.lt_or_gt_of_ne apart with less | greater
    · rw [Nat.compare_eq_lt.mpr (number_lt_number _ less), Nat.compare_eq_lt.mpr less]
      rfl
    · rw [Nat.compare_eq_gt.mpr (number_lt_number _ greater), Nat.compare_eq_gt.mpr greater]
      rfl
  · -- The classes are in the same order by first octets and by values.
    have sameOrder : (leadC.toNat < leadD.toNat ∧ c.toNat < d.toNat) ∨
        (leadD.toNat < leadC.toNat ∧ d.toNat < c.toNat) := by
      unfold Leads at leadsC leadsD
      omega
    rcases sameOrder with ⟨leads, less⟩ | ⟨leads, greater⟩
    · have below : leadC < leadD := leads
      rw [List.cons_append, List.cons_append, dataOrder_cons_of_ne (UInt8.ne_of_lt below),
        Std.compare_eq_lt.mpr below, Nat.compare_eq_lt.mpr less]
    · have above : leadD < leadC := leads
      rw [List.cons_append, List.cons_append, dataOrder_cons_of_ne (UInt8.ne_of_lt above).symm,
        Std.compare_eq_gt.mpr above, Nat.compare_eq_gt.mpr greater]

end Utf8

/-! ## Texts -/

/-- The first characters that differ decide by their scalar values.  Without any,
the shorter text is the larger one. -/
def order (a b : List Char) : Ordering :=
  match (a.zip b).find? fun pair => pair.1 != pair.2 with
  | some (c, d) => compare c.toNat d.toNat
  | none => compare b.length a.length

theorem order_cons_self (c : Char) (a b : List Char) : order (c :: a) (c :: b) = order a b := by
  have lengths : compare (b.length + 1) (a.length + 1) = compare b.length a.length := by
    simp only [Nat.compare_eq_ite_lt, Nat.add_lt_add_iff_right]
  simp [order, lengths]

theorem order_cons_of_ne {c d : Char} (different : c ≠ d) (a b : List Char) :
    order (c :: a) (d :: b) = compare c.toNat d.toNat := by
  simp [order, different]

/-- The separator is larger than the first octet of every character. -/
private theorem lead_lt_separator {others : Nat} {lead : UInt8} {n : Nat}
    (leads : Utf8.Leads others lead.toNat n) : lead < separator := by
  have small : lead.toNat < separator.toNat := by
    have code : separator.toNat = 0xFE := rfl
    unfold Utf8.Leads at leads
    omega
  exact small

theorem dataOrder_encode (a b : List Char) :
    dataOrder (a.flatMap String.utf8EncodeChar) (b.flatMap String.utf8EncodeChar) = order a b := by
  induction a generalizing b with
  | nil =>
      cases b with
      | nil => rfl
      | cons d b =>
          rcases Utf8.exists_lead d with ⟨lead, others, octets, leads, _⟩
          have shorter : order [] (d :: b) = .gt := Nat.compare_eq_gt.mpr (Nat.succ_pos b.length)
          rw [shorter, List.flatMap_cons, octets, List.cons_append, List.flatMap_nil,
            dataOrder_nil_cons, if_pos (lead_lt_separator leads)]
  | cons c a ih =>
      cases b with
      | nil =>
          rcases Utf8.exists_lead c with ⟨lead, others, octets, leads, _⟩
          have longer : order (c :: a) [] = .lt := Nat.compare_eq_lt.mpr (Nat.succ_pos a.length)
          rw [longer, List.flatMap_cons, octets, List.cons_append, List.flatMap_nil,
            dataOrder_cons_nil, if_pos (lead_lt_separator leads)]
      | cons d b =>
          rw [List.flatMap_cons, List.flatMap_cons]
          by_cases same : c = d
          · subst same
            rw [dataOrder_append_of_length_eq _ _ rfl, ih, order_cons_self]
            simp
          · rw [Utf8.dataOrder_encodeChar_of_ne same, order_cons_of_ne same]

/-- The text whose data the empty text has. -/
def filled (text : String) : String :=
  if text.isEmpty then "\x00" else text

end Text

theorem Value.data_text (content : String) :
    (Value.text content).data = Text.Utf8.encode (Text.filled content) := by
  rw [Value.data, Text.filled]
  by_cases empty : content.isEmpty
  · rw [if_pos empty, if_pos empty, Text.Utf8.encode_nul]
  · rw [if_neg empty, if_neg empty]

namespace Record

/-- Different texts behind common entries are ordered by their first different
characters, and a text that begins the other one is the larger of the two,
whatever stands behind them.  The empty text counts as the text of the character
zero. -/
theorem order_of_texts (common a b : Record) (s t : String)
    (different : Text.filled s ≠ Text.filled t) :
    orderBehind common (.text s) a (.text t) b =
      Text.order (Text.filled s).toList (Text.filled t).toList := by
  have apart : (Value.text s).data ≠ (Value.text t).data := by
    intro same
    rw [Value.data_text, Value.data_text] at same
    exact different (Text.Utf8.encode_injective same)
  have kinds : (Value.text s).kind = (Value.text t).kind := rfl
  rw [orderBehind_of_data_ne kinds apart, Value.data_text, Value.data_text,
    Text.Utf8.encode_eq_flatMap, Text.Utf8.encode_eq_flatMap, Text.dataOrder_encode]

/-- A character outside the basic plane is larger than all characters in it, and the
empty text is larger than a text that goes on behind the character zero. -/
theorem order_of_texts_at_borders :
    Text.filled "\uffff" ≠ Text.filled "😀" ∧
      orderBehind [.ofValue (.byte 1)] (.text "\uffff") [.ofValue (.text "b")] (.text "😀") [] = .lt ∧
    Text.filled "" ≠ Text.filled "\x00a" ∧
      orderBehind [.ofValue (.byte 1)] (.text "") [] (.text "\x00a") [.ofValue (.text "b")] = .gt := by
  refine ⟨by decide, ?_, by decide, ?_⟩
  · exact (order_of_texts _ _ _ "\uffff" "😀" (by decide)).trans (by decide)
  · exact (order_of_texts _ _ _ "" "\x00a" (by decide)).trans (by decide)

end Record
end SortKey
