import SortKey.Proofs.Key.Reread

namespace SortKey

/-!
# What a beginning of a key matches

The first entries of a record, written with the separator behind the last of
them, are meant to match the keys of records that start with the same entries.
They do match these.  They also match a record whose last compared entry goes
on with the separator octet: escaped, that octet begins like the separator
which ends the entry, and nothing more of the prefix is left to tell the two
apart.  An earlier entry cannot run on in this way, because the prefix goes on
with a code behind its separator, and no code is the separator.
-/

/-! ## Escaped data as a beginning -/

/-- Escaped data with a separator begins other escaped data with a separator
when the data agree, or when nothing is left behind the first separator and the
other data goes on with the separator octet. -/
theorem escape_separator_prefix_iff (a b : Bytes) {behindA behindB : Bytes}
    (loneA : behindA.head? ≠ some separator) (loneB : behindB.head? ≠ some separator) :
    Escape.escape separator a ++ separator :: behindA <+:
        Escape.escape separator b ++ separator :: behindB <->
      (a = b ∧ behindA <+: behindB) ∨ (behindA = [] ∧ a ++ [separator] <+: b) := by
  induction a generalizing b with
  | nil =>
      cases b with
      | nil => simp
      | cons y b =>
          by_cases special : y = separator
          · subst special
            rw [Escape.escape_cons_self]
            cases behindA with
            | nil => simp
            | cons next more =>
                have different : next ≠ separator := by
                  intro same
                  exact loneA (by rw [same]; rfl)
                simp [different]
          · rw [Escape.escape_cons_of_ne special]
            simp [Ne.symm special]
  | cons x a ih =>
      cases b with
      | nil =>
          by_cases special : x = separator
          · subst special
            rw [Escape.escape_cons_self]
            cases behindB with
            | nil => simp
            | cons next more =>
                have different : separator ≠ next := by
                  intro same
                  exact loneB (by rw [same]; rfl)
                simp [different]
          · rw [Escape.escape_cons_of_ne special]
            simp [special]
      | cons y b =>
          by_cases same : x = y
          · subst same
            by_cases special : x = separator
            · subst special
              simp only [Escape.escape_cons_self, List.cons_append, List.cons_prefix_cons,
                true_and, ih b, List.cons.injEq]
            · simp only [Escape.escape_cons_of_ne special, List.cons_append,
                List.cons_prefix_cons, true_and, ih b, List.cons.injEq]
          · rcases Escape.exists_escape_cons separator x a with ⟨moreX, startX⟩
            rcases Escape.exists_escape_cons separator y b with ⟨moreY, startY⟩
            rw [startX, startY]
            simp [same]

/-! ## Entries as a beginning -/

/-- What keys tell about an entry. -/
def Entry.content (entry : Entry) : Kind × Bytes :=
  (entry.kind, entry.data)

namespace Record

/-- The record has at least `count` entries, and the first ones have the kinds
and the data of those of the other record. -/
def StartsLike (count : Nat) (record other : Record) : Prop :=
  count ≤ record.length ∧
    (record.take count).map Entry.content = (other.take count).map Entry.content

/-- The record starts like the other one up to its entry at a position, where
the entries of the two are related. -/
def MeetsAt (related : Entry -> Entry -> Prop) (position : Nat) (record other : Record) : Prop :=
  StartsLike position record other ∧
    Exists fun entry => Exists fun counterpart =>
      record[position]? = some entry ∧ other[position]? = some counterpart ∧
        related entry counterpart

/-- The record starts like the other one up to its entry at a position, which
has the same kind there, but data that goes on with the separator octet. -/
def RunsOn (position : Nat) (record other : Record) : Prop :=
  MeetsAt (fun entry shorter =>
      entry.kind = shorter.kind ∧ shorter.data ++ [separator] <+: entry.data)
    position record other

theorem startsLike_cons_iff (count : Nat) (x y : Entry) (record other : Record) :
    StartsLike (count + 1) (x :: record) (y :: other) <->
      x.content = y.content ∧ StartsLike count record other := by
  simp only [StartsLike, List.length_cons, Nat.add_le_add_iff_right, List.take_succ_cons,
    List.map_cons, List.cons.injEq]
  constructor
  · rintro ⟨inside, first, others⟩
    exact ⟨first, inside, others⟩
  · rintro ⟨first, inside, others⟩
    exact ⟨inside, first, others⟩

theorem meetsAt_zero_iff (related : Entry -> Entry -> Prop) (x y : Entry)
    (record other : Record) :
    MeetsAt related 0 (x :: record) (y :: other) <-> related x y := by
  simp [MeetsAt, StartsLike]

theorem meetsAt_cons_iff (related : Entry -> Entry -> Prop) (position : Nat) (x y : Entry)
    (record other : Record) :
    MeetsAt related (position + 1) (x :: record) (y :: other) <->
      x.content = y.content ∧ MeetsAt related position record other := by
  simp only [MeetsAt, startsLike_cons_iff, List.getElem?_cons_succ, and_assoc]

theorem runsOn_zero_iff (x y : Entry) (record other : Record) :
    RunsOn 0 (x :: record) (y :: other) <->
      x.kind = y.kind ∧ y.data ++ [separator] <+: x.data :=
  meetsAt_zero_iff _ x y record other

theorem runsOn_cons_iff (position : Nat) (x y : Entry) (record other : Record) :
    RunsOn (position + 1) (x :: record) (y :: other) <->
      x.content = y.content ∧ RunsOn position record other :=
  meetsAt_cons_iff _ position x y record other

theorem StartsLike.not_runsOn {position : Nat} {record other : Record}
    (starts : StartsLike (position + 1) record other) : ¬ RunsOn position record other := by
  rintro ⟨_, entry, shorter, atRecord, atOther, _, longer⟩
  have same := congrArg (fun contents => contents[position]?) starts.2
  simp only [List.getElem?_map, List.getElem?_take_of_lt (Nat.lt_succ_self position), atRecord,
    atOther, Option.map_some, Option.some.injEq, Entry.content, Prod.mk.injEq] at same
  have shorterThan := longer.length_le
  rw [same.2, List.length_append, List.length_singleton] at shorterThan
  omega

theorem take_ne_nil {count : Nat} {record : Record} (positive : 0 < count)
    (inside : count ≤ record.length) : record.take count ≠ [] := by
  rw [ne_eq, List.take_eq_nil_iff, List.eq_nil_iff_length_eq_zero]
  omega

theorem head?_closed_ne_separator (record : Record) : record.closed.head? ≠ some separator := by
  cases record with
  | nil => simp [closed]
  | cons entry entries =>
      rw [closed_cons, List.head?_cons]
      intro same
      exact UInt8.ne_of_lt entry.kind.code_lt_separator (Option.some.inj same)

/-- The separator in front of closed entries is a lone one. -/
theorem ends_separator_closed (record : Record) :
    Escape.Ends separator (separator :: record.closed) :=
  Or.inr ⟨record.closed, rfl, record.head?_closed_ne_separator⟩

theorem closed_eq_nil_iff (record : Record) : record.closed = [] <-> record = [] := by
  cases record with
  | nil => simp [closed]
  | cons entry entries => simp [closed_cons]

/-- The first entry of the beginning is matched by an entry with the same
content.  Only a last entry may also be matched by one that runs on. -/
theorem closed_cons_prefix_iff (x y : Entry) (record other : Record) :
    closed (x :: record) <+: closed (y :: other) <->
      x.kind = y.kind ∧ ((x.data = y.data ∧ record.closed <+: other.closed) ∨
        (record = [] ∧ x.data ++ [separator] <+: y.data)) := by
  rw [closed_cons, closed_cons, List.cons_prefix_cons, Kind.code_inj,
    escape_separator_prefix_iff _ _ record.head?_closed_ne_separator
      other.head?_closed_ne_separator, closed_eq_nil_iff]

/-- No entries are left to match. -/
private theorem closed_take_prefix_nil_iff (last : Nat) (y : Entry) (other : Record) :
    closed ((y :: other).take (last + 1)) <+: closed [] <->
      StartsLike (last + 1) [] (y :: other) ∨ RunsOn last [] (y :: other) := by
  have emptyClosed : closed [] = [] := rfl
  rw [emptyClosed, List.prefix_nil, closed_eq_nil_iff]
  simp [StartsLike, RunsOn, MeetsAt]

theorem closed_take_prefix_closed_iff (last : Nat) (record other : Record)
    (inside : last < other.length) :
    closed (other.take (last + 1)) <+: record.closed <->
      StartsLike (last + 1) record other ∨ RunsOn last record other := by
  induction last generalizing record other with
  | zero =>
      rcases other with _ | ⟨y, other⟩
      · exact absurd inside (Nat.not_lt_zero 0)
      rcases record with _ | ⟨x, record⟩
      · exact closed_take_prefix_nil_iff 0 y other
      have onlyFirst : (y :: other).take 1 = [y] := rfl
      have noneLeft : StartsLike 0 record other := ⟨Nat.zero_le _, rfl⟩
      have nothing : closed [] <+: closed record := List.nil_prefix
      rw [onlyFirst, closed_cons_prefix_iff, startsLike_cons_iff, runsOn_zero_iff]
      simp only [Entry.content, Prod.mk.injEq, noneLeft, nothing, and_true, true_and, and_or_left,
        eq_comm]
  | succ last ih =>
      rcases other with _ | ⟨y, other⟩
      · exact absurd inside (Nat.not_lt_zero _)
      rcases record with _ | ⟨x, record⟩
      · exact closed_take_prefix_nil_iff (last + 1) y other
      have insideRest : last < other.length := Nat.lt_of_succ_lt_succ inside
      have someLeft : other.take (last + 1) ≠ [] := take_ne_nil (Nat.succ_pos last) insideRest
      rw [List.take_succ_cons, closed_cons_prefix_iff, startsLike_cons_iff, runsOn_cons_iff,
        ih record other insideRest]
      simp only [someLeft, false_and, or_false, Entry.content, Prod.mk.injEq, and_assoc,
        ← and_or_left, eq_comm]

theorem keyPrefix_terminated {count : Nat} {record : Record} (inside : count ≤ record.length) :
    record.keyPrefix true count = .ok (closed (record.take count)) := by
  rw [keyPrefix, if_neg (Nat.not_lt.mpr inside)]
  exact congrArg Except.ok (flatMap_frames (record.take count))

theorem closed_take_prefix_key_iff (last : Nat) (record other : Record)
    (inside : last < other.length) :
    closed (other.take (last + 1)) <+: record.key <->
      StartsLike (last + 1) record other ∨ RunsOn last record other := by
  by_cases filled : record = []
  · subst filled
    rcases other with _ | ⟨y, other⟩
    · exact absurd inside (Nat.not_lt_zero _)
    have emptyKey : key [] = [separator] := rfl
    have code : y.kind.code ≠ separator := UInt8.ne_of_lt y.kind.code_lt_separator
    rw [emptyKey, List.take_succ_cons, closed_cons]
    simp [StartsLike, RunsOn, MeetsAt, code]
  · rw [key_eq_closed filled, closed_take_prefix_closed_iff last record other inside]

/-- The first entries with their last separator begin the key of a record
exactly when the record starts with these entries or runs on in the last of
them.  So they match exactly the records that start with these entries, apart
from those that run on. -/
theorem keyPrefix_terminated_prefix_iff (record other : Record) (count : Nat)
    (positive : 0 < count) (inside : count ≤ other.length) :
    Exists fun bytes => other.keyPrefix true count = .ok bytes ∧
      (bytes <+: record.key <->
        StartsLike count record other ∨ RunsOn (count - 1) record other) ∧
      ((bytes <+: record.key <-> StartsLike count record other) <->
        ¬ RunsOn (count - 1) record other) := by
  rcases count with _ | last
  · exact absurd positive (Nat.not_lt_zero 0)
  rw [Nat.add_sub_cancel]
  have matched := closed_take_prefix_key_iff last record other inside
  have exclusive : StartsLike (last + 1) record other -> ¬ RunsOn last record other :=
    StartsLike.not_runsOn
  refine ⟨_, keyPrefix_terminated inside, matched, ?_⟩
  rw [matched]
  constructor
  · intro exact runsOn
    exact exclusive (exact.mp (Or.inr runsOn)) runsOn
  · intro stops
    constructor
    · rintro (starts | runsOn)
      · exact starts
      · exact absurd runsOn stops
    · exact Or.inl

theorem keyPrefix_matches_equal_octets :
    0 < 1 ∧ 1 ≤ List.length [Entry.ofValue (.bytes [separator])] ∧
      Exists fun bytes =>
        keyPrefix [.ofValue (.bytes [separator])] true 1 = .ok bytes ∧
          bytes <+: key [.ofValue (.bytes [separator]), .ofValue (.byte 7)] := by
  have starts : StartsLike 1 [.ofValue (.bytes [separator]), .ofValue (.byte 7)]
      [.ofValue (.bytes [separator])] := ⟨by decide, rfl⟩
  rcases keyPrefix_terminated_prefix_iff [.ofValue (.bytes [separator]), .ofValue (.byte 7)]
    [.ofValue (.bytes [separator])] 1 (by decide) (by decide) with ⟨bytes, written, matched, _⟩
  exact ⟨by decide, by decide, bytes, written, matched.mpr (Or.inl starts)⟩

/-- Octets that go on with the separator octet are matched by a prefix that
ends before it. -/
theorem keyPrefix_matches_longer_octets :
    keyPrefix [.ofValue (.bytes [1])] true 1 = .ok [1, 1, separator] ∧
      [1, 1, separator] <+: key [.ofValue (.bytes [1, separator])] ∧
      ¬ StartsLike 1 [.ofValue (.bytes [1, separator])] [.ofValue (.bytes [1])] := by
  refine ⟨rfl, ⟨[separator, separator], rfl⟩, ?_⟩
  rintro ⟨_, same⟩
  exact absurd same (by decide)

end Record
end SortKey
