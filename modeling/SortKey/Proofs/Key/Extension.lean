import SortKey.Proofs.Key.Grammar
import SortKey.Proofs.Key.Prefix

namespace SortKey

/-!
# What an open beginning of a key matches

The first entries of a record can also be written without the separator behind
the last of them.  Nothing ends that entry then, and what is matched are the keys
of the records that start with the same entries or whose last compared entry goes
on with more octets.  The entries in front of it are matched exactly: a code
follows each of their separators, and no code is the separator.  The last entry
is never matched up to the middle of an escape, because both halves of it are
written.
-/

/-! ## Beginnings in pieces -/

/-- The piece as which an entry is written. -/
def Entry.piece (entry : Entry) : Key.Piece :=
  entry.frame.piece

theorem Entry.piece_wellFormed (entry : Entry) : entry.piece.WellFormed :=
  Key.Frame.piece_wellFormed entry.frame_announced

namespace Record

/-- The written entries of a record with a separator between any two, and with
or without one at the end. -/
def joined (record : Record) (terminated : Bool) : Bytes :=
  Key.Piece.joined (record.map Entry.piece) terminated

theorem cut_joined {record : Record} (filled : record ≠ []) (terminated : Bool) :
    Key.Cut (record.joined terminated) (record.map Entry.piece) terminated := by
  refine ⟨by simpa using filled, rfl, ?_⟩
  intro piece member
  rcases List.mem_map.mp member with ⟨entry, _, rfl⟩
  exact entry.piece_wellFormed

theorem joined_singleton (entry : Entry) :
    joined [entry] false = entry.kind.code :: Escape.escape separator entry.data := by
  have alone := Key.Piece.joined_cons entry.piece [] false
  rwa [Key.Piece.behind, if_neg Bool.false_ne_true, List.append_nil] at alone

theorem joined_cons {entries : Record} (filled : entries ≠ []) (entry : Entry)
    (terminated : Bool) :
    joined (entry :: entries) terminated =
      entry.kind.code ::
        (Escape.escape separator entry.data ++ separator :: joined entries terminated) := by
  cases entries with
  | nil => exact absurd rfl filled
  | cons next entries => exact Key.Piece.joined_cons entry.piece _ terminated

theorem head?_joined_ne_separator (record : Record) (terminated : Bool) (filled : record ≠ []) :
    (record.joined terminated).head? ≠ some separator := by
  cases record with
  | nil => exact absurd rfl filled
  | cons entry entries =>
      rw [joined, List.map_cons, Key.Piece.joined_cons, List.head?_cons]
      intro same
      exact entry.piece_wellFormed.code_ne_separator (Option.some.inj same)

/-- With a separator at the end, each entry has one. -/
theorem joined_true {record : Record} (filled : record ≠ []) :
    record.joined true = record.closed := by
  induction record with
  | nil => exact absurd rfl filled
  | cons entry entries ih =>
      by_cases last : entries = []
      · subst last
        rw [closed_cons]
        exact Key.Piece.joined_cons entry.piece [] true
      · rw [joined_cons last, closed_cons, ih last]

/-- The first entries of a record are written joined. -/
theorem keyPrefix_eq_joined {record : Record} {count : Nat} (positive : 0 < count)
    (inside : count ≤ record.length) (terminated : Bool) :
    record.keyPrefix terminated count = .ok (joined (record.take count) terminated) := by
  cases terminated with
  | true =>
      rw [keyPrefix_terminated inside, joined_true (take_ne_nil positive inside)]
  | false =>
      have octets : ((record.take count).map Entry.piece).map Key.Piece.octets =
          Entry.frames (record.take count) := by
        rw [Entry.frames_eq_map, List.map_map, List.map_map]
        rfl
      rw [keyPrefix, if_neg (Nat.not_lt.mpr inside), joined, Key.Piece.joined, octets]
      simp

/-! ## Matching -/

/-- The record starts like the other one up to its entry at a position, which
has the same kind there and data that begins with the data of the other. -/
def Extends (position : Nat) (record other : Record) : Prop :=
  MeetsAt (fun entry shorter => entry.kind = shorter.kind ∧ shorter.data <+: entry.data)
    position record other

/-- The first entry of a beginning that goes on is matched by an entry with the
same content. -/
private theorem joined_cons_prefix_iff (x y : Entry) (record : Record) {other : Record}
    (filled : other ≠ []) :
    joined (y :: other) false <+: closed (x :: record) <->
      x.content = y.content ∧ other.joined false <+: record.closed := by
  have someOctets : other.joined false ≠ [] := by
    cases other with
    | nil => exact absurd rfl filled
    | cons entry entries =>
        rw [joined, List.map_cons, Key.Piece.joined_cons]
        exact List.cons_ne_nil _ _
  rw [joined_cons filled, closed_cons, List.cons_prefix_cons, Kind.code_inj,
    escape_separator_prefix_iff _ _ (head?_joined_ne_separator other false filled)
      record.head?_closed_ne_separator]
  simp only [someOctets, false_and, or_false, Entry.content, Prod.mk.injEq, and_assoc, eq_comm]

theorem joined_prefix_closed_iff (last : Nat) (record other : Record)
    (inside : last < other.length) :
    joined (other.take (last + 1)) false <+: record.closed <-> Extends last record other := by
  induction last generalizing record other with
  | zero =>
      rcases other with _ | ⟨y, other⟩
      · exact absurd inside (Nat.not_lt_zero 0)
      have onlyFirst : (y :: other).take 1 = [y] := rfl
      rw [onlyFirst, joined_singleton]
      cases record with
      | nil => simp [closed, Extends, MeetsAt]
      | cons x record =>
          rw [closed_cons, List.cons_prefix_cons,
            Escape.escape_prefix_iff _ _ (ends_separator_closed record), Extends,
            meetsAt_zero_iff, Kind.code_inj, eq_comm]
  | succ last ih =>
      rcases other with _ | ⟨y, other⟩
      · exact absurd inside (Nat.not_lt_zero _)
      have insideRest : last < other.length := Nat.lt_of_succ_lt_succ inside
      have someLeft : other.take (last + 1) ≠ [] := take_ne_nil (Nat.succ_pos last) insideRest
      rw [List.take_succ_cons]
      cases record with
      | nil =>
          rw [joined_cons someLeft]
          simp [closed, Extends, MeetsAt]
      | cons x record =>
          rw [joined_cons_prefix_iff x y record someLeft, ih record other insideRest, Extends,
            Extends, meetsAt_cons_iff]

theorem joined_prefix_key_iff (last : Nat) (record other : Record)
    (inside : last < other.length) :
    joined (other.take (last + 1)) false <+: record.key <-> Extends last record other := by
  by_cases filled : record = []
  · subst filled
    rcases other with _ | ⟨y, other⟩
    · exact absurd inside (Nat.not_lt_zero _)
    have emptyKey : key [] = [separator] := rfl
    have code : y.kind.code ≠ separator := UInt8.ne_of_lt y.kind.code_lt_separator
    rw [emptyKey, List.take_succ_cons, joined, List.map_cons, Key.Piece.joined_cons]
    simp [Extends, MeetsAt, Entry.piece, Key.Frame.piece, Entry.frame, code]
  · rw [key_eq_closed filled, joined_prefix_closed_iff last record other inside]

/-- The first entries without their last separator begin the key of a record
exactly when the record starts like these entries, up to the last of them, and has
there an entry of the same kind with data that begins with the data of that one. -/
theorem keyPrefix_open_prefix_iff (record other : Record) (count : Nat)
    (positive : 0 < count) (inside : count ≤ other.length) :
    Exists fun bytes => other.keyPrefix false count = .ok bytes ∧
      (bytes <+: record.key <->
        count ≤ record.length ∧
        (record.take (count - 1)).map Entry.content = (other.take (count - 1)).map Entry.content ∧
        Exists fun entry => Exists fun shorter =>
          record[count - 1]? = some entry ∧ other[count - 1]? = some shorter ∧
            entry.kind = shorter.kind ∧ shorter.data <+: entry.data) := by
  refine ⟨_, keyPrefix_eq_joined positive inside false, ?_⟩
  rcases count with _ | last
  · exact absurd positive (Nat.not_lt_zero 0)
  rw [joined_prefix_key_iff last record other inside, Nat.add_sub_cancel]
  constructor
  · rintro ⟨⟨_, before⟩, entry, shorter, atRecord, rest⟩
    exact ⟨(List.getElem?_eq_some_iff.mp atRecord).1, before, entry, shorter, atRecord, rest⟩
  · rintro ⟨reaches, before, meets⟩
    exact ⟨⟨Nat.le_of_succ_le reaches, before⟩, meets⟩

/-- A separator as the data of an entry in front of one without data, and
octets that go on behind both. -/
theorem keyPrefix_open_matches_more_octets :
    let other : Record := [.ofValue (.bytes [separator]), .ofValue (.bytes [])]
    let record : Record :=
      [.ofValue (.bytes [separator]), .ofValue (.bytes [separator, 1]), .ofValue (.byte 7)]
    0 < 2 ∧ 2 ≤ other.length ∧
      Exists fun bytes => other.keyPrefix false 2 = .ok bytes ∧ bytes <+: record.key := by
  intro other record
  rcases keyPrefix_open_prefix_iff record other 2 (by decide) (by decide) with
    ⟨bytes, written, matched⟩
  refine ⟨by decide, by decide, bytes, written, matched.mpr ⟨by decide, rfl, ?_⟩⟩
  exact ⟨_, _, rfl, rfl, rfl, List.nil_prefix⟩

end Record
end SortKey
