import SortKey.Proofs.Failures
import SortKey.Proofs.Nesting
import SortKey.Stream.Room

namespace SortKey

/-!
# What is read is paid for

A stream form may announce more entries than it holds.  It cannot make the reader find
them: each entry takes a code and at least one octet more, and each record the four
octets of its count.  `leastOctets` adds this up over the whole record, and no form in
which the record is found is shorter.

Everything else follows from that sum.  The entries at all depths together are at most
half of what was read, and each level of nesting takes the five octets of a code and
a count.  So the room that is reserved for the entries of a record, on any level,
suffices for all that are ever put into it, also if reading fails later on; and where it
is less than what was announced, reading does fail.
-/

/-! ## The least a form can take -/

mutual

/-- The octets that a value takes at least, without its code. -/
def Value.leastOctets : Value -> Nat
  | .record entries => 4 + Entry.leastOctetsOfAll entries
  | _ => 1

/-- The octets that an entry takes at least.  One without a value is not found in a
stream; it counts like an entry with data of one octet. -/
def Entry.leastOctets : Entry -> Nat
  | .ofValue value => 1 + value.leastOctets
  | .undecodable _ _ _ => 2

def Entry.leastOctetsOfAll : List Entry -> Nat
  | [] => 0
  | entry :: entries => entry.leastOctets + Entry.leastOctetsOfAll entries

end

/-- The octets that a record takes at least, with its count. -/
def Record.leastOctets (record : Record) : Nat :=
  4 + Entry.leastOctetsOfAll record

theorem Value.leastOctets_of_ne_record {value : Value} (plain : value.kind ≠ .record) :
    value.leastOctets = 1 := by
  cases value with
  | record entries => exact absurd rfl plain
  | _ => rfl

theorem Value.depth_of_ne_record {value : Value} (plain : value.kind ≠ .record) :
    value.depth = 0 := by
  cases value with
  | record entries => exact absurd rfl plain
  | _ => rfl

/-! ### Two octets for each entry -/

mutual

theorem Value.two_mul_length_preorder_le (value : Value) :
    1 + 2 * value.preorder.length ≤ value.leastOctets := by
  cases value with
  | record entries =>
      have inside := Entry.two_mul_length_preorderAll_le entries
      rw [Value.preorder, Value.leastOctets]
      omega
  | _ => exact Nat.le_refl 1

theorem Entry.two_mul_length_preorder_le (entry : Entry) :
    2 * entry.preorder.length ≤ entry.leastOctets := by
  cases entry with
  | undecodable kind data cause => exact Nat.le_refl 2
  | ofValue value =>
      have inside := value.two_mul_length_preorder_le
      rw [Entry.preorder, Entry.leastOctets, List.length_cons]
      omega

theorem Entry.two_mul_length_preorderAll_le (entries : List Entry) :
    2 * (Entry.preorderAll entries).length ≤ Entry.leastOctetsOfAll entries := by
  cases entries with
  | nil => exact Nat.le_refl 0
  | cons entry entries =>
      have first := entry.two_mul_length_preorder_le
      have others := Entry.two_mul_length_preorderAll_le entries
      rw [Entry.preorderAll, Entry.leastOctetsOfAll, List.length_append]
      omega

end

theorem Entry.length_preorder_pos (entry : Entry) : 0 < entry.preorder.length :=
  List.length_pos_of_mem ((entry.mem_preorder_iff entry).mpr (Or.inl rfl))

theorem Entry.two_le_leastOctets (entry : Entry) : 2 ≤ entry.leastOctets := by
  have itself := entry.length_preorder_pos
  have paid := entry.two_mul_length_preorder_le
  omega

/-! ### Five octets for each level -/

mutual

theorem Value.five_mul_depth_le (value : Value) : 5 * value.depth ≤ 1 + value.leastOctets := by
  cases value with
  | record entries =>
      have inside := Entry.five_mul_depthIn_le entries
      rw [Value.depth, Value.leastOctets]
      omega
  | _ => exact Nat.zero_le _

theorem Entry.five_mul_depth_le (entry : Entry) : 5 * entry.depth ≤ entry.leastOctets := by
  cases entry with
  | undecodable kind data cause => exact Nat.zero_le _
  | ofValue value => exact value.five_mul_depth_le

theorem Entry.five_mul_depthIn_le (entries : List Entry) :
    5 * Entry.depthIn entries ≤ Entry.leastOctetsOfAll entries := by
  cases entries with
  | nil => exact Nat.le_refl 0
  | cons entry entries =>
      have first := entry.five_mul_depth_le
      have others := Entry.five_mul_depthIn_le entries
      rw [Entry.depthIn, Entry.leastOctetsOfAll]
      omega

end

namespace Record

theorem two_mul_length_preorder_le (record : Record) :
    4 + 2 * record.preorder.length ≤ record.leastOctets :=
  Nat.add_le_add_left (Entry.two_mul_length_preorderAll_le record) 4

theorem five_mul_depth_le (record : Record) : 4 + 5 * record.depth ≤ record.leastOctets :=
  Nat.add_le_add_left (Entry.five_mul_depthIn_le record) 4

/-- The entries of a record are some of those at all depths. -/
theorem length_le_length_preorder (record : Record) : record.length ≤ record.preorder.length := by
  rw [preorder_eq_flatMap]
  induction record with
  | nil => exact Nat.le_refl 0
  | cons entry entries ih =>
      have first := entry.length_preorder_pos
      rw [List.flatMap_cons, List.length_append, List.length_cons]
      omega

end Record

namespace Stream

/-! ## What a step takes -/

/-- A step that succeeds takes at least so many octets off the front. -/
def Pays {α : Type} (price : α -> Nat) (step : Bytes -> Step α) : Prop :=
  forall bytes content rest, (step bytes).Yields content rest ->
    Exists fun front => bytes = front ++ rest ∧ price content ≤ front.length

section Nested

variable {dialect : Option Dialect} {nested : Bytes -> Step Record}

/-- A value that is read is a record that was read one level further in, or it takes
some octets. -/
theorem readValue_yields_cases {code : UInt8} {wire : Wire} {bytes rest : Bytes} {value : Value}
    (found : (readValue nested code wire bytes).Yields value rest) :
    (Exists fun entries => value = .record entries ∧ (nested bytes).Yields entries rest) ∨
      (value.kind ≠ .record ∧ Exists fun front => bytes = front ++ rest ∧ 1 ≤ front.length) := by
  have reads := readsValue_readValue nested code wire bytes
  generalize readValue nested code wire bytes = step at found reads
  cases reads with
  | refused => cases found.result
  | record => exact .inl found.of_map
  | field shape spanned sized plain =>
      rcases exists_of_fieldStep_yields found with ⟨content, rfl, read⟩
      rw [read] at spanned
      rcases spanned.exists_front with ⟨front, same, told⟩
      exact .inr ⟨plain content, front, same, shape.extent_pos sized told⟩

theorem pays_readValue (pays : Pays Record.leastOctets nested) (code : UInt8) (wire : Wire) :
    Pays Value.leastOctets (readValue nested code wire) := by
  intro bytes value rest found
  rcases readValue_yields_cases found with ⟨entries, rfl, inside⟩ | ⟨plain, taken⟩
  · exact pays bytes entries rest inside
  · rw [Value.leastOctets_of_ne_record plain]
    exact taken

/-- The code of an entry is one more octet. -/
theorem pays_readEntry (pays : Pays Record.leastOctets nested) :
    Pays Entry.leastOctets (readEntry nested dialect) := by
  intro bytes entry rest found
  rcases exists_of_readEntry_yields found with ⟨code, behind, wire, value, rfl, _, rfl, inside⟩
  rcases pays_readValue pays code wire behind value rest inside with ⟨front, rfl, taken⟩
  refine ⟨code :: front, rfl, ?_⟩
  rw [Entry.leastOctets, List.length_cons]
  omega

theorem Accepted.exists_front (pays : Pays Entry.leastOctets (readEntry nested dialect))
    {entries : List Entry} {bytes rest : Bytes}
    (accepted : Accepted nested dialect entries bytes rest) :
    Exists fun front => bytes = front ++ rest ∧ Entry.leastOctetsOfAll entries ≤ front.length := by
  induction accepted with
  | none bytes => exact ⟨[], rfl, Nat.le_refl 0⟩
  | next first _ ih =>
      rcases pays _ _ _ first with ⟨front, rfl, taken⟩
      rcases ih with ⟨behind, rfl, others⟩
      refine ⟨front ++ behind, (List.append_assoc _ _ _).symm, ?_⟩
      rw [Entry.leastOctetsOfAll, List.length_append]
      exact Nat.add_le_add taken others

/-- An entry that is read is nested no deeper than the reader for nested records goes. -/
theorem depth_le_of_readEntry {levels : Nat}
    (inside : forall bytes entries rest, (nested bytes).Yields entries rest ->
      entries.depth < levels) {bytes rest : Bytes} {entry : Entry}
    (found : (readEntry nested dialect bytes).Yields entry rest) : entry.depth ≤ levels := by
  rcases exists_of_readEntry_yields found with ⟨_, _, _, value, _, _, rfl, read⟩
  rcases readValue_yields_cases read with ⟨entries, rfl, nestedRead⟩ | ⟨plain, _⟩
  · exact inside _ _ _ nestedRead
  · exact (Value.depth_of_ne_record plain).trans_le (Nat.zero_le levels)

end Nested

/-- A count is four octets. -/
theorem exists_front_of_count {count : Int32} {bytes left : Bytes}
    (counted : Reading.int32 bytes = (.ok count, left)) :
    Exists fun front => bytes = front ++ left ∧ front.length = 4 := by
  have spanned := Reading.spanned_int32 bytes
  rw [counted] at spanned
  rcases spanned.exists_front with ⟨front, same, told⟩
  exact ⟨front, same, (Except.ok.inj told).symm⟩

/-- Records are paid for on every level, because those inside them are. -/
theorem pays_readRecord (dialect : Option Dialect) (levels : Nat) :
    Pays Record.leastOctets (readRecord dialect levels) := by
  induction levels with
  | zero =>
      intro bytes record rest found
      cases found.result
  | succ levels ih =>
      intro bytes record rest found
      rcases exists_of_readRecord_yields found with ⟨_, count, left, ⟨⟩, counted, _, accepted⟩
      rcases exists_front_of_count counted with ⟨front, rfl, four⟩
      rcases accepted.exists_front (pays_readEntry ih) with ⟨behind, rfl, taken⟩
      refine ⟨front ++ behind, (List.append_assoc _ _ _).symm, ?_⟩
      rw [Record.leastOctets, List.length_append, four]
      exact Nat.add_le_add_left taken 4

/-- Each level of nesting uses up one level of the reader. -/
theorem depth_lt_of_yields {dialect : Option Dialect} {levels : Nat} {bytes rest : Bytes}
    {record : Record} (found : (readRecord dialect levels bytes).Yields record rest) :
    record.depth < levels := by
  induction levels generalizing bytes record rest with
  | zero => cases found.result
  | succ levels ih =>
      rcases exists_of_readRecord_yields found with ⟨_, _, _, ⟨⟩, _, _, accepted⟩
      refine Nat.lt_succ_of_le ((record.depth_le_iff levels).mpr ?_)
      exact accepted.forall_mem fun _ _ _ read => depth_le_of_readEntry (fun _ _ _ => ih) read

/-! ## Announced and found -/

/-- As many entries are found as were announced, and two octets for each of them. -/
theorem length_of_yields {dialect : Option Dialect} {levels : Nat} {count : Int32}
    {bytes left rest : Bytes} {record : Record}
    (counted : Reading.int32 bytes = (.ok count, left))
    (found : (readRecord dialect levels bytes).Yields record rest) :
    record.length = count.toInt.toNat ∧ 2 * record.length ≤ left.length := by
  rcases exists_of_readRecord_yields found with ⟨inner, _, _, rfl, again, announced, accepted⟩
  cases counted.symm.trans again
  rcases accepted.exists_front (pays_readEntry (pays_readRecord dialect inner)) with
    ⟨front, rfl, taken⟩
  have shown : record.length ≤ (Entry.preorderAll record).length := record.length_le_length_preorder
  have paid := Entry.two_mul_length_preorderAll_le record
  refine ⟨announced, ?_⟩
  rw [List.length_append]
  omega

/-! ## Room -/

theorem Room.push_of_lt {capacity : Nat} (room : Room capacity)
    (free : room.entries.length < capacity) (entry : Entry) :
    room.push entry = .ok ⟨entry :: room.entries, free⟩ :=
  dif_pos free

/-- No entry is refused for want of room, if there is room for as many as are announced
or for one to every two octets. -/
theorem readEntriesInto_eq {capacity : Nat} {nested : Bytes -> Step Record}
    {dialect : Option Dialect} (pays : Pays Entry.leastOctets (readEntry nested dialect))
    (count : Nat) (room : Room capacity) (reported : List Event) (bytes : Bytes)
    (enough : room.entries.length + min count (bytes.length / 2) ≤ capacity) :
    readEntriesInto nested dialect count room reported bytes =
      readEntriesOnto nested dialect count room.entries reported bytes := by
  induction count generalizing room reported bytes with
  | zero => rfl
  | succ count ih =>
      rw [readEntriesInto, readEntriesOnto]
      rcases step : readEntry nested dialect bytes with ⟨cause | entry, rest, events⟩
      · rfl
      · have first : (readEntry nested dialect bytes).Yields entry rest := by
          rw [step]
          exact ⟨rfl, rfl⟩
        rcases pays _ _ _ first with ⟨front, rfl, taken⟩
        have two := entry.two_le_leastOctets
        -- The entry has taken two octets, so it takes no room from the others.
        rw [List.length_append] at enough
        have free : room.entries.length < capacity := by omega
        simp only [room.push_of_lt free]
        apply ih
        rw [List.length_cons]
        omega

/-- Reading never needs more room than was reserved. -/
theorem readRecordInto_eq (dialect : Option Dialect) (levels : Nat) (bytes : Bytes) :
    readRecordInto dialect levels bytes = readRecord dialect levels bytes := by
  induction levels generalizing bytes with
  | zero => rfl
  | succ levels ih =>
      rw [readRecordInto, readRecord, funext ih]
      rcases Reading.int32 bytes with ⟨cause | count, left⟩
      · rfl
      · have enough : min count.toInt.toNat (left.length / 2) ≤ roomFor count left := Nat.le_refl _
        rw [← Nat.zero_add (min _ _)] at enough
        have pays : Pays Entry.leastOctets (readEntry (readRecord dialect levels) dialect) :=
          pays_readEntry (pays_readRecord dialect levels)
        simp only [readEntriesInto_eq pays _ (Room.reserved _) _ _ enough]
        rfl

/-- In particular nothing is refused for want of room: such a refusal is none of those
that a stream form gets. -/
theorem readRecordInto_ne_tooLong (dialect : Option Dialect) (levels : Nat) (bytes : Bytes)
    (len max : Nat) : (readRecordInto dialect levels bytes).result ≠ .error (.tooLong len max) := by
  rw [readRecordInto_eq]
  intro refused
  cases RecordError.failsOnly_iff.mp (failsOnly_readRecord dialect levels bytes) _ refused

/-! ## Paid for -/

/-- A record that is read is nested at most 512 deep.  Its count takes four octets, each
of the entries at all depths takes two at least, and each level takes five.

On every level, room for as many entries as are announced, but for at most one to every
two octets that are left, is never exceeded, however the reading ends.  A record that
is read there has found room, and one that announces more entries than that is not
read. -/
theorem read_is_paid_for (dialect : Option Dialect) (bytes : Bytes) :
    (forall record rest, (read dialect bytes).Yields record rest ->
      record.depth ≤ 512 ∧ Exists fun front => bytes = front ++ rest ∧
        4 + 2 * record.length ≤ front.length ∧
        4 + 2 * record.preorder.length ≤ front.length ∧
        4 + 5 * record.depth ≤ front.length) ∧
    (forall levels, readRecordInto dialect levels bytes = readRecord dialect levels bytes ∧
      forall len max, (readRecordInto dialect levels bytes).result ≠ .error (.tooLong len max)) ∧
    (forall levels count left, Reading.int32 bytes = (.ok count, left) ->
      (forall record rest, (readRecord dialect levels bytes).Yields record rest ->
        record.length ≤ roomFor count left) ∧
      (left.length / 2 < count.toInt.toNat -> Exists fun cause =>
        (readRecord dialect levels bytes).result = .error cause)) := by
  refine ⟨?_, fun levels => ⟨readRecordInto_eq dialect levels bytes,
    readRecordInto_ne_tooLong dialect levels bytes⟩, ?_⟩
  · intro record rest found
    rcases pays_readRecord dialect (maxDepth + 1) bytes record rest found with ⟨front, same, paid⟩
    have shown := record.length_le_length_preorder
    have entries := record.two_mul_length_preorder_le
    have levels := record.five_mul_depth_le
    refine ⟨Nat.le_of_lt_succ (depth_lt_of_yields found), front, same, ?_, ?_, ?_⟩ <;> omega
  · intro levels count left counted
    constructor
    · intro record rest found
      rcases length_of_yields counted found with ⟨announced, paid⟩
      rw [roomFor]
      omega
    · intro many
      cases result : (readRecord dialect levels bytes).result with
      | error cause => exact ⟨cause, rfl⟩
      | ok record =>
          rcases length_of_yields counted ⟨result, rfl⟩ with ⟨announced, paid⟩
          omega

/-- A record in a record, in the codes of a dialect, takes no more octets than it has to.
Two octets with their codes and one octet more are not enough for three entries. -/
theorem read_is_paid_for_to_the_octet :
    let form : Bytes := [0, 0, 0, 1, 5, 0, 0, 0, 0]
    let record : Record := [.ofValue (.record [])]
    let short : Bytes := [0, 0, 0, 3, 0, 7, 0, 8, 0]
    (read (some .sherlock) (form ++ [42])).Yields record [42] ∧
      form.length = 4 + 5 * record.depth ∧ record.depth ≤ 512 ∧
      (Exists fun front => form ++ [42] = front ++ [42] ∧ 4 + 5 * record.depth ≤ front.length) ∧
      Reading.int32 short = (.ok 3, [0, 7, 0, 8, 0]) ∧
      (Exists fun cause => (read none short).result = .error cause) := by
  intro form record short
  have found : (read (some .sherlock) (form ++ [42])).Yields record [42] := ⟨rfl, rfl⟩
  have counted : Reading.int32 short = (.ok 3, [0, 7, 0, 8, 0]) := by decide
  rcases (read_is_paid_for (some .sherlock) (form ++ [42])).1 record [42] found with
    ⟨shallow, front, same, _, _, paid⟩
  rcases (read_is_paid_for none short).2.2 (maxDepth + 1) 3 _ counted with ⟨_, lying⟩
  exact ⟨found, rfl, shallow, ⟨front, same, paid⟩, counted, lying (by decide)⟩

end Stream
end SortKey
