import SortKey.Escape

namespace SortKey
namespace Escape

/-!
# Escaped data and what follows it

Escaping is undone by collapsing pairs.  Escaped data followed by a lone
escape octet ends exactly there: every escape octet inside it is half of a
pair, so the search for a lone one passes over all of it.  `Ends` names the
continuations for which that holds, which include the end of the octets.  Data
and continuation can therefore be told apart, and all octets are data with a
continuation.
-/

variable {esc : UInt8}

/-! ## One octet at a time -/

@[simp] theorem escape_nil : escape esc [] = [] :=
  rfl

theorem escape_cons_self (data : Bytes) :
    escape esc (esc :: data) = esc :: esc :: escape esc data := by
  simp [escape]

theorem escape_cons_of_ne {b : UInt8} (ordinary : b ≠ esc) (data : Bytes) :
    escape esc (b :: data) = b :: escape esc data := by
  simp [escape, ordinary]

theorem escape_append (front back : Bytes) :
    escape esc (front ++ back) = escape esc front ++ escape esc back :=
  List.flatMap_append

theorem escape_cons (b : UInt8) (data : Bytes) :
    escape esc (b :: data) = escape esc [b] ++ escape esc data :=
  escape_append [b] data

/-- Escaping keeps the first octet. -/
theorem exists_escape_cons (esc b : UInt8) (data : Bytes) :
    Exists fun more => escape esc (b :: data) = b :: more := by
  by_cases special : b = esc
  · subst special
    exact ⟨_, escape_cons_self data⟩
  · exact ⟨_, escape_cons_of_ne special data⟩

theorem separatorFrom_pair (index : Nat) (rest : Bytes) :
    separatorFrom esc index (esc :: esc :: rest) = separatorFrom esc (index + 2) rest := by
  simp [separatorFrom]

theorem separatorFrom_cons_of_ne {b : UInt8} (ordinary : b ≠ esc) (index : Nat) (rest : Bytes) :
    separatorFrom esc index (b :: rest) = separatorFrom esc (index + 1) rest := by
  cases rest with
  | nil => simp [separatorFrom, ordinary]
  | cons next more => simp [separatorFrom, ordinary]

theorem separatorFrom_lone {rest : Bytes} (lone : rest.head? ≠ some esc) (index : Nat) :
    separatorFrom esc index (esc :: rest) = index := by
  cases rest with
  | nil => simp [separatorFrom]
  | cons next more =>
      have different : next ≠ esc := by
        intro same
        exact lone (by rw [same]; rfl)
      simp [separatorFrom, different]

/-- The octets kept so far stand in front of what is kept of the rest. -/
private theorem collapseOnto_eq (pending : Bool) (kept bytes : Bytes) :
    collapseOnto esc pending kept bytes = kept.reverse ++ collapseOnto esc pending [] bytes := by
  induction bytes generalizing pending kept with
  | nil => simp [collapseOnto]
  | cons b rest ih =>
      by_cases special : b = esc
      · simp only [collapseOnto, if_pos special]
        cases pending with
        | true => exact ih false kept
        | false =>
            simp only [Bool.false_eq_true, if_false]
            rw [ih, ih _ [b]]
            simp
      · simp only [collapseOnto, if_neg special]
        rw [ih, ih _ [b]]
        simp

@[simp] theorem unescape_nil : unescape esc [] = [] :=
  rfl

theorem unescape_cons_of_ne {b : UInt8} (ordinary : b ≠ esc) (rest : Bytes) :
    unescape esc (b :: rest) = b :: unescape esc rest := by
  simp only [unescape, collapseOnto, if_neg ordinary]
  exact collapseOnto_eq false [b] rest

theorem unescape_pair (rest : Bytes) :
    unescape esc (esc :: esc :: rest) = esc :: unescape esc rest := by
  simp only [unescape, collapseOnto, if_true, Bool.not_false, Bool.not_true, Bool.false_eq_true,
    if_false]
  exact collapseOnto_eq false [esc] rest

/-- An escape octet that is not half of a pair is kept. -/
theorem unescape_lone {rest : Bytes} (lone : rest.head? ≠ some esc) :
    unescape esc (esc :: rest) = esc :: unescape esc rest := by
  cases rest with
  | nil => simp [unescape, collapseOnto]
  | cons next more =>
      have ordinary : next ≠ esc := by simpa using lone
      rw [unescape_cons_of_ne ordinary]
      simp only [unescape, collapseOnto, if_true, if_neg ordinary, Bool.not_false,
        Bool.false_eq_true, if_false]
      exact collapseOnto_eq false [next, esc] more

/-- To prove something of all octets, the first one is taken away alone, or with
the other half of its pair.  An escape octet stands alone if no other one
follows it. -/
@[elab_as_elim]
theorem pairInduction (esc : UInt8) {motive : Bytes -> Prop} (nil : motive [])
    (ordinary : forall b rest, b ≠ esc -> motive rest -> motive (b :: rest))
    (pair : forall rest, motive rest -> motive (esc :: esc :: rest))
    (lone : forall rest, rest.head? ≠ some esc -> motive rest -> motive (esc :: rest)) :
    (bytes : Bytes) -> motive bytes
  | [] => nil
  | [b] => by
      by_cases special : b = esc
      · rw [special]
        exact lone [] (by simp) nil
      · exact ordinary b [] special nil
  | b :: next :: rest => by
      have tail := pairInduction esc nil ordinary pair lone (next :: rest)
      have behind := pairInduction esc nil ordinary pair lone rest
      by_cases special : b = esc
      · by_cases doubled : next = esc
        · rw [special, doubled]
          exact pair rest behind
        · rw [special]
          exact lone (next :: rest) (by simpa using doubled) tail
      · exact ordinary b (next :: rest) special tail

/-! ## Reading back -/

theorem unescape_escape (data : Bytes) : unescape esc (escape esc data) = data := by
  induction data with
  | nil => rfl
  | cons b data ih =>
      by_cases special : b = esc
      · subst special
        rw [escape_cons_self, unescape_pair, ih]
      · rw [escape_cons_of_ne special, unescape_cons_of_ne special, ih]

/-- Each escape octet takes one more octet. -/
theorem length_escape (esc : UInt8) (data : Bytes) :
    (escape esc data).length = data.length + data.count esc := by
  induction data with
  | nil => rfl
  | cons b data ih =>
      by_cases special : b = esc
      · subst special
        rw [escape_cons_self, List.count_cons_self]
        simp only [List.length_cons, ih]
        omega
      · rw [escape_cons_of_ne special, List.count_cons_of_ne special]
        simp only [List.length_cons, ih]
        omega

/-- Each escape octet is there twice. -/
theorem count_escape (esc : UInt8) (data : Bytes) :
    (escape esc data).count esc = 2 * data.count esc := by
  induction data with
  | nil => rfl
  | cons b data ih =>
      by_cases special : b = esc
      · subst special
        rw [escape_cons_self]
        simp only [List.count_cons_self, ih]
        omega
      · rw [escape_cons_of_ne special, List.count_cons_of_ne special,
          List.count_cons_of_ne special, ih]

/-- What can follow escaped data without being taken for more of it: nothing,
or an escape octet that is not doubled. -/
def Ends (esc : UInt8) (tail : Bytes) : Prop :=
  tail = [] ∨ Exists fun rest => tail = esc :: rest ∧ rest.head? ≠ some esc

private theorem separatorFrom_escape (index : Nat) (data : Bytes) {tail : Bytes}
    (ends : Ends esc tail) :
    separatorFrom esc index (escape esc data ++ tail) = index + (escape esc data).length := by
  induction data generalizing index with
  | nil =>
      rcases ends with nothing | ⟨rest, separated, lone⟩
      · rw [nothing]
        rfl
      · rw [separated]
        exact separatorFrom_lone lone index
  | cons b data ih =>
      by_cases special : b = esc
      · subst special
        rw [escape_cons_self, List.cons_append, List.cons_append, separatorFrom_pair, ih]
        simp only [List.length_cons]
        omega
      · rw [escape_cons_of_ne special, List.cons_append, separatorFrom_cons_of_ne special, ih]
        simp only [List.length_cons]
        omega

/-- The end of escaped data is found, whatever the data holds. -/
theorem findSeparator_escape_append (data : Bytes) {tail : Bytes} (ends : Ends esc tail) :
    findSeparator esc (escape esc data ++ tail) = (escape esc data).length := by
  rw [findSeparator, separatorFrom_escape 0 data ends, Nat.zero_add]

/-- Escaped data and what follows it can be told apart. -/
theorem escape_append_inj {a b tailA tailB : Bytes} (endsA : Ends esc tailA)
    (endsB : Ends esc tailB) (same : escape esc a ++ tailA = escape esc b ++ tailB) :
    a = b ∧ tailA = tailB := by
  have lengths : (escape esc a).length = (escape esc b).length := by
    rw [← findSeparator_escape_append a endsA, same, findSeparator_escape_append b endsB]
  rcases List.append_inj same lengths with ⟨escaped, tails⟩
  have data := congrArg (unescape esc) escaped
  rw [unescape_escape, unescape_escape] at data
  exact ⟨data, tails⟩

/-! ## Any octets -/

/-- All octets are escaped data and something that ends it. -/
private theorem exists_escape_append (esc : UInt8) (bytes : Bytes) :
    Exists fun data => Exists fun tail => bytes = escape esc data ++ tail ∧ Ends esc tail := by
  induction bytes using pairInduction esc with
  | nil => exact ⟨[], [], rfl, Or.inl rfl⟩
  | ordinary b rest different ih =>
      rcases ih with ⟨data, tail, rfl, ends⟩
      exact ⟨b :: data, tail, by rw [escape_cons_of_ne different]; rfl, ends⟩
  | pair rest ih =>
      rcases ih with ⟨data, tail, rfl, ends⟩
      exact ⟨esc :: data, tail, by rw [escape_cons_self]; rfl, ends⟩
  | lone rest alone _ => exact ⟨[], esc :: rest, rfl, Or.inr ⟨rest, rfl, alone⟩⟩

/-- The search for a lone escape octet cuts all octets into escaped data and
something that ends it. -/
theorem cut_findSeparator (esc : UInt8) (bytes : Bytes) :
    bytes = escape esc (unescape esc (bytes.take (findSeparator esc bytes))) ++
        bytes.drop (findSeparator esc bytes) ∧
      Ends esc (bytes.drop (findSeparator esc bytes)) := by
  rcases exists_escape_append esc bytes with ⟨data, tail, rfl, ends⟩
  rw [findSeparator_escape_append data ends, List.take_left, List.drop_left, unescape_escape]
  exact ⟨rfl, ends⟩

theorem findSeparator_le (esc : UInt8) (bytes : Bytes) :
    findSeparator esc bytes ≤ bytes.length := by
  rcases exists_escape_append esc bytes with ⟨data, tail, rfl, ends⟩
  rw [findSeparator_escape_append data ends, List.length_append]
  exact Nat.le_add_right _ _

/-- Escaped data never begins other escaped data in the middle of a pair, so it
begins it, and what ends that, exactly when the data begins the other data. -/
theorem escape_prefix_iff (a b : Bytes) {tail : Bytes} (ends : Ends esc tail) :
    escape esc a <+: escape esc b ++ tail <-> a <+: b := by
  constructor
  · rintro ⟨left, whole⟩
    rcases exists_escape_append esc left with ⟨more, behind, rfl, endsLeft⟩
    rw [← List.append_assoc, ← escape_append] at whole
    rw [← (escape_append_inj endsLeft ends whole).1]
    exact List.prefix_append a more
  · rintro ⟨more, rfl⟩
    rw [escape_append, List.append_assoc]
    exact List.prefix_append _ _

/-! ## Octets with their escapes in pairs -/

/-- Every escape octet is half of a pair. -/
inductive Paired (esc : UInt8) : Bytes -> Prop
  | nil : Paired esc []
  | ordinary {b : UInt8} {rest : Bytes} (different : b ≠ esc) (others : Paired esc rest) :
      Paired esc (b :: rest)
  | pair {rest : Bytes} (others : Paired esc rest) : Paired esc (esc :: esc :: rest)

theorem paired_escape (data : Bytes) : Paired esc (escape esc data) := by
  induction data with
  | nil => exact .nil
  | cons b data ih =>
      by_cases special : b = esc
      · subst special
        rw [escape_cons_self]
        exact .pair ih
      · rw [escape_cons_of_ne special]
        exact .ordinary special ih

/-- Such octets are escaped data, and it is found by collapsing the pairs. -/
theorem Paired.escape_unescape {body : Bytes} (paired : Paired esc body) :
    escape esc (unescape esc body) = body := by
  have escaped : Exists fun data => body = escape esc data := by
    induction paired with
    | nil => exact ⟨[], rfl⟩
    | @ordinary b rest different _ ih =>
        rcases ih with ⟨data, rfl⟩
        exact ⟨b :: data, (escape_cons_of_ne different data).symm⟩
    | pair _ ih =>
        rcases ih with ⟨data, rfl⟩
        exact ⟨esc :: data, (escape_cons_self data).symm⟩
  rcases escaped with ⟨data, rfl⟩
  rw [unescape_escape]

theorem paired_iff (esc : UInt8) (body : Bytes) :
    Paired esc body <-> escape esc (unescape esc body) = body := by
  constructor
  · exact Paired.escape_unescape
  · intro escaped
    rw [← escaped]
    exact paired_escape _

/-- Escaping undoes the collapsing of pairs where no lone escape octet is found,
and nowhere else. -/
theorem escape_unescape_iff (esc : UInt8) (bytes : Bytes) :
    escape esc (unescape esc bytes) = bytes <-> findSeparator esc bytes = bytes.length := by
  constructor
  · intro escaped
    have found : findSeparator esc (escape esc (unescape esc bytes) ++ []) =
        (escape esc (unescape esc bytes)).length := findSeparator_escape_append _ (Or.inl rfl)
    rwa [List.append_nil, escaped] at found
  · intro found
    have cut := (cut_findSeparator esc bytes).1
    rw [found, List.take_length, List.drop_length, List.append_nil] at cut
    exact cut.symm

instance (esc : UInt8) : DecidablePred (Paired esc) :=
  fun body => decidable_of_iff _ (paired_iff esc body).symm

end Escape
end SortKey
