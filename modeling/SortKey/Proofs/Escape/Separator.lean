import SortKey.Proofs.Escape.Runs

namespace SortKey
namespace Escape

/-!
# The one end of escaped data

Octets are cut into escaped data and what ends it at one position and at no other.
That position is found, whatever the octets are: the search steps over an ordinary
octet or over both halves of a pair, so what it has passed is escaped data, and where it
stops there is nothing or a lone escape octet.  Of a run of odd length it leaves the
last octet, since pairs are matched from left to right.
-/

variable {esc : UInt8}

/-- Escaped data stands in front of the position, and at the position nothing or an
escape octet that is not doubled. -/
structure EndsAt (esc : UInt8) (bytes : Bytes) (p : Nat) : Prop where
  inside : p ≤ bytes.length
  front : Exists fun data => bytes.take p = escape esc data
  behind : p = bytes.length ∨
    (bytes[p]? = some esc ∧ (p + 1 = bytes.length ∨ bytes[p + 1]? ≠ some esc))

/-! ## One position -/

theorem ends_iff (tail : Bytes) :
    Ends esc tail <-> tail = [] ∨ (tail[0]? = some esc ∧ tail[1]? ≠ some esc) := by
  cases tail with
  | nil => simp [Ends]
  | cons b rest => simp [Ends, List.head?_eq_getElem?, and_assoc]

theorem ends_drop_iff {bytes : Bytes} {p : Nat} (inside : p ≤ bytes.length) :
    Ends esc (bytes.drop p) <-> p = bytes.length ∨
      (bytes[p]? = some esc ∧ (p + 1 = bytes.length ∨ bytes[p + 1]? ≠ some esc)) := by
  have nothing : bytes.drop p = [] <-> p = bytes.length := by
    rw [List.drop_eq_nil_iff]
    exact ⟨Nat.le_antisymm inside, Nat.le_of_eq ∘ Eq.symm⟩
  have last : p + 1 = bytes.length -> bytes[p + 1]? ≠ some esc := by
    intro last
    simp [last]
  rw [ends_iff, nothing, List.getElem?_drop, List.getElem?_drop, Nat.add_zero,
    or_iff_right_of_imp last]

/-- Wherever escaped data ends, its end is found there. -/
theorem endsAt_iff (bytes : Bytes) (p : Nat) :
    EndsAt esc bytes p <-> p = findSeparator esc bytes := by
  constructor
  · rintro ⟨inside, ⟨data, front⟩, behind⟩
    have found := findSeparator_escape_append data ((ends_drop_iff inside).mpr behind)
    rw [← front, List.take_append_drop, List.length_take_of_le inside] at found
    exact found.symm
  · rintro rfl
    have inside := findSeparator_le esc bytes
    rcases cut_findSeparator esc bytes with ⟨cut, ends⟩
    have whole := List.take_append_drop (findSeparator esc bytes) bytes
    exact ⟨inside, ⟨_, List.append_cancel_right (whole.trans cut)⟩, (ends_drop_iff inside).mp ends⟩

/-! ## In terms of runs -/

/-- How many octets stand in front of the last octet of the first run of odd length, or
how many there are if no run is odd. -/
def Runs.beforeOdd : Runs esc -> Nat
  | last length => length - length % 2
  | next length _ _ others =>
      if length % 2 = 0 then length + 1 + others.beforeOdd else length - 1

/-- A run consists of pairs, and of a lone octet if it is odd. -/
private theorem replicate_eq_escape_append (length : Nat) :
    List.replicate length esc =
      escape esc (List.replicate (length / 2) esc) ++ List.replicate (length % 2) esc := by
  rw [escape_replicate, List.replicate_append_replicate, Nat.div_add_mod]

/-- Runs are cut behind the pairs of the first odd one. -/
private theorem exists_cut_octets (runs : Runs esc) :
    Exists fun data => Exists fun tail => runs.octets = escape esc data ++ tail ∧
      Ends esc tail ∧ (escape esc data).length = runs.beforeOdd := by
  induction runs with
  | last length =>
      refine ⟨_, _, replicate_eq_escape_append length, ?_, ?_⟩
      · rcases Nat.mod_two_eq_zero_or_one length with even | odd
        · rw [even]
          exact Or.inl rfl
        · rw [odd]
          exact Or.inr ⟨[], rfl, by simp⟩
      · rw [escape_replicate, List.length_replicate, Runs.beforeOdd]
        omega
  | next length b ordinary others ih =>
      rw [Runs.octets, Runs.beforeOdd, replicate_eq_escape_append length]
      rcases Nat.mod_two_eq_zero_or_one length with even | odd
      · rcases ih with ⟨data, tail, cut, ends, position⟩
        refine ⟨List.replicate (length / 2) esc ++ b :: data, tail, ?_, ends, ?_⟩
        · rw [even, cut, escape_append, escape_cons_of_ne ordinary]
          simp
        · rw [if_pos even, ← position, escape_append, escape_cons_of_ne ordinary,
            escape_replicate]
          simp only [List.length_append, List.length_replicate, List.length_cons]
          omega
      · refine ⟨List.replicate (length / 2) esc, esc :: b :: others.octets, ?_,
          Or.inr ⟨b :: others.octets, rfl, by simpa using ordinary⟩, ?_⟩
        · rw [odd, List.append_assoc]
          rfl
        · rw [if_neg (by omega), escape_replicate, List.length_replicate]
          omega

theorem findSeparator_octets (runs : Runs esc) :
    findSeparator esc runs.octets = runs.beforeOdd := by
  rcases exists_cut_octets runs with ⟨data, tail, cut, ends, position⟩
  rw [cut, findSeparator_escape_append data ends, position]

/-! ## Framing -/

/-- Escaped data ends at one position, and it is found there: at the last octet of the
first run of odd length, or behind all octets.  So the octet that was put behind escaped
data to end it is found, whatever the data is, unless what follows doubles it. -/
theorem escaped_data_ends_once (esc : UInt8) :
    (forall (bytes : Bytes) (p : Nat), EndsAt esc bytes p <-> p = findSeparator esc bytes) ∧
    (forall bytes : Bytes, findSeparator esc bytes = (Runs.ofOctets esc bytes).beforeOdd) ∧
    (forall data rest : Bytes,
      (rest = [] ∨ Exists fun b => Exists fun more => rest = b :: more ∧ b ≠ esc) ->
        findSeparator esc (escape esc data ++ [esc] ++ rest) = (escape esc data).length) := by
  refine ⟨endsAt_iff, ?_, ?_⟩
  · intro bytes
    have found := findSeparator_octets (Runs.ofOctets esc bytes)
    rwa [Runs.octets_ofOctets] at found
  · intro data rest other
    have lone : rest.head? ≠ some esc := by
      rcases other with rfl | ⟨b, more, rfl, different⟩
      · simp
      · simpa using different
    rw [List.append_assoc]
    exact findSeparator_escape_append data (Or.inr ⟨rest, rfl, lone⟩)

/-- A run of five, which is data of two escape octets and its end, with the two greatest
octets behind it. -/
theorem escaped_data_ends_once_in_a_run_of_five :
    let bytes : Bytes := [0xFE, 0xFE, 0xFE, 0xFE, 0xFE, 0xFF, 0xFF]
    EndsAt 0xFE bytes 4 ∧ (forall p, EndsAt 0xFE bytes p -> p = 4) ∧
      findSeparator 0xFE (escape 0xFE [0xFE, 0xFE] ++ [0xFE] ++ [0xFF, 0xFF]) = 4 := by
  intro bytes
  rcases escaped_data_ends_once 0xFE with ⟨once, _, framed⟩
  have found : findSeparator 0xFE bytes = 4 := by decide
  refine ⟨(once bytes 4).mpr found.symm, ?_, ?_⟩
  · intro p ends
    exact ((once bytes p).mp ends).trans found
  · exact framed [0xFE, 0xFE] [0xFF, 0xFF] (Or.inr ⟨0xFF, [0xFF], rfl, by decide⟩)

end Escape
end SortKey
