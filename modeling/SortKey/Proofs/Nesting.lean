import SortKey.Record

namespace SortKey

/-!
# Properties at every depth

A record is a finite tree, so what holds of a record whenever it holds of the
records nested in it holds of every record.  `Record.Everywhere` asks for a
property of all entries, those of nested records included.  An entry without a
value is a leaf of the tree, whatever its data would mean as a record.
`Record.preorder` lists the entries of the tree in the order in which a record is
written, and `Record.depth` is its height.
-/

/-- To prove something of a record, it may be assumed of the records that are
values of its entries. -/
@[elab_as_elim]
theorem Record.nestedInduction {motive : Record -> Prop}
    (step : forall record : Record,
      (forall entries, Entry.ofValue (.record entries) ∈ record -> motive entries) -> motive record)
    (record : Record) : motive record :=
  step record fun entries _member => nestedInduction step entries
termination_by sizeOf record
decreasing_by
  have smaller := List.sizeOf_lt_of_mem _member
  simp only [Entry.ofValue.sizeOf_spec, Value.record.sizeOf_spec] at smaller
  omega

/-- A value is a record, or nothing is nested in it. -/
theorem Value.record_or_plain (value : Value) :
    (Exists fun entries => value = .record entries) ∨ value.kind ≠ .record := by
  cases value with
  | record entries => exact Or.inl ⟨entries, rfl⟩
  | _ => exact Or.inr (by rintro ⟨⟩)

/-! ## Every entry at every depth -/

mutual

/-- The property holds of all entries inside a value. -/
def Value.Everywhere (P : Entry -> Prop) : Value -> Prop
  | .record entries => Entry.EverywhereIn P entries
  | _ => True

/-- The property holds of an entry and of all entries inside its value. -/
def Entry.Everywhere (P : Entry -> Prop) : Entry -> Prop
  | .ofValue value => P (.ofValue value) ∧ value.Everywhere P
  | .undecodable kind data cause => P (.undecodable kind data cause)

/-- The property holds of all entries and of all entries inside them. -/
def Entry.EverywhereIn (P : Entry -> Prop) : List Entry -> Prop
  | [] => True
  | entry :: entries => entry.Everywhere P ∧ Entry.EverywhereIn P entries

end

/-- The property holds of all entries of a record, at every depth. -/
def Record.Everywhere (P : Entry -> Prop) (record : Record) : Prop :=
  Entry.EverywhereIn P record

theorem Entry.everywhere_iff (P : Entry -> Prop) (entry : Entry) :
    entry.Everywhere P <->
      P entry ∧ forall entries, entry = .ofValue (.record entries) -> Record.Everywhere P entries := by
  cases entry with
  | undecodable kind data cause => simp [Entry.Everywhere]
  | ofValue value => cases value <;> simp [Entry.Everywhere, Value.Everywhere, Record.Everywhere]

namespace Record

theorem everywhere_iff_forall_mem (P : Entry -> Prop) (record : Record) :
    record.Everywhere P <-> ∀ entry ∈ record, entry.Everywhere P := by
  unfold Everywhere
  induction record with
  | nil => simp [Entry.EverywhereIn]
  | cons entry entries ih => simp [Entry.EverywhereIn, ih]

theorem Everywhere.of_mem {P : Entry -> Prop} {record : Record} (holds : record.Everywhere P)
    {entry : Entry} (member : entry ∈ record) : P entry :=
  ((entry.everywhere_iff P).mp ((record.everywhere_iff_forall_mem P).mp holds entry member)).1

theorem Everywhere.of_subset {P : Entry -> Prop} {record part : Record}
    (holds : record.Everywhere P) (inside : part ⊆ record) : part.Everywhere P := by
  rw [everywhere_iff_forall_mem] at holds ⊢
  exact fun entry member => holds entry (inside member)

theorem Everywhere.nested {P : Entry -> Prop} {record : Record} (holds : record.Everywhere P)
    {entries : List Entry} (member : Entry.ofValue (.record entries) ∈ record) :
    Record.Everywhere P entries :=
  ((Entry.everywhere_iff P _).mp
    ((record.everywhere_iff_forall_mem P).mp holds _ member)).2 entries rfl

theorem Everywhere.mono {P Q : Entry -> Prop} (weaker : forall entry, P entry -> Q entry)
    {record : Record} (holds : record.Everywhere P) : record.Everywhere Q := by
  induction record using Record.nestedInduction with
  | step record ih =>
      rw [everywhere_iff_forall_mem]
      intro entry member
      refine (Entry.everywhere_iff Q entry).mpr ⟨weaker entry (holds.of_mem member), ?_⟩
      rintro entries rfl
      exact ih entries member (holds.nested member)

theorem Everywhere.and {P Q : Entry -> Prop} {record : Record} (holds : record.Everywhere P)
    (also : record.Everywhere Q) : record.Everywhere fun entry => P entry ∧ Q entry := by
  induction record using Record.nestedInduction with
  | step record ih =>
      rw [everywhere_iff_forall_mem]
      intro entry member
      refine (Entry.everywhere_iff _ entry).mpr ⟨⟨holds.of_mem member, also.of_mem member⟩, ?_⟩
      rintro entries rfl
      exact ih entries member (holds.nested member) (also.nested member)

end Record

/-! ### Deciding

A property that is decided for an entry is decided throughout a record. -/

mutual

def Value.decideEverywhere (P : Entry -> Prop) [DecidablePred P] :
    (value : Value) -> Decidable (value.Everywhere P)
  | .record entries => Entry.decideEverywhereIn P entries
  | .byte _ | .bytes _ | .double _ | .integer _ | .long _ | .text _ => isTrue trivial

def Entry.decideEverywhere (P : Entry -> Prop) [DecidablePred P] :
    (entry : Entry) -> Decidable (entry.Everywhere P)
  | .ofValue value =>
      have := value.decideEverywhere P
      inferInstanceAs (Decidable (P (.ofValue value) ∧ value.Everywhere P))
  | .undecodable kind data cause => inferInstanceAs (Decidable (P (.undecodable kind data cause)))

def Entry.decideEverywhereIn (P : Entry -> Prop) [DecidablePred P] :
    (entries : List Entry) -> Decidable (Entry.EverywhereIn P entries)
  | [] => isTrue trivial
  | entry :: entries =>
      have := entry.decideEverywhere P
      have := Entry.decideEverywhereIn P entries
      inferInstanceAs (Decidable (entry.Everywhere P ∧ Entry.EverywhereIn P entries))

end

instance (P : Entry -> Prop) [DecidablePred P] (record : Record) : Decidable (record.Everywhere P) :=
  Entry.decideEverywhereIn P record

/-! ## Every entry in order -/

mutual

/-- The entries inside a value. -/
def Value.preorder : Value -> List Entry
  | .record entries => Entry.preorderAll entries
  | _ => []

/-- An entry, and behind it the entries inside its value. -/
def Entry.preorder : Entry -> List Entry
  | .ofValue value => .ofValue value :: value.preorder
  | .undecodable kind data cause => [.undecodable kind data cause]

def Entry.preorderAll : List Entry -> List Entry
  | [] => []
  | entry :: entries => entry.preorder ++ Entry.preorderAll entries

end

/-- The entries of a record at every depth, each in front of those inside it. -/
def Record.preorder (record : Record) : List Entry :=
  Entry.preorderAll record

/-- Behind an entry stand the entries of the record that is its value. -/
theorem Entry.mem_preorder_iff (entry inside : Entry) :
    inside ∈ entry.preorder <->
      inside = entry ∨
        Exists fun entries => entry = .ofValue (.record entries) ∧ inside ∈ Record.preorder entries := by
  cases entry with
  | undecodable kind data cause => simp [preorder]
  | ofValue value => cases value <;> simp [preorder, Value.preorder, Record.preorder]

namespace Record

theorem preorder_eq_flatMap (record : Record) : record.preorder = record.flatMap Entry.preorder := by
  unfold preorder
  induction record with
  | nil => rfl
  | cons entry entries ih => rw [Entry.preorderAll, ih, List.flatMap_cons]

theorem everywhere_iff_forall_mem_preorder (P : Entry -> Prop) (record : Record) :
    record.Everywhere P <-> ∀ entry ∈ record.preorder, P entry := by
  induction record using Record.nestedInduction with
  | step record nested =>
      rw [everywhere_iff_forall_mem, preorder_eq_flatMap, List.forall_mem_flatMap]
      refine forall₂_congr fun entry member => ?_
      cases entry with
      | undecodable kind data cause => simp [Entry.Everywhere, Entry.preorder]
      | ofValue value =>
          rw [Entry.Everywhere, Entry.preorder, List.forall_mem_cons]
          refine and_congr_right fun _ => ?_
          cases value with
          | record entries => exact nested entries member
          | _ => simp [Value.Everywhere, Value.preorder]

end Record

/-! ## Depth -/

mutual

def Value.depth : Value -> Nat
  | .record entries => Entry.depthIn entries + 1
  | _ => 0

def Entry.depth : Entry -> Nat
  | .ofValue value => value.depth
  | .undecodable _ _ _ => 0

def Entry.depthIn : List Entry -> Nat
  | [] => 0
  | entry :: entries => max entry.depth (Entry.depthIn entries)

end

/-- How deep records are nested in a record: zero where none is. -/
def Record.depth (record : Record) : Nat :=
  Entry.depthIn record

theorem Record.depth_le_iff (record : Record) (levels : Nat) :
    record.depth ≤ levels <-> ∀ entry ∈ record, entry.depth ≤ levels := by
  unfold depth
  induction record with
  | nil => simp [Entry.depthIn]
  | cons entry entries ih => rw [Entry.depthIn, Nat.max_le, ih, List.forall_mem_cons]

/-- A nested record counts as one more level. -/
theorem Entry.depth_record (entries : List Entry) :
    (ofValue (.record entries)).depth = Record.depth entries + 1 :=
  rfl

/-! ## Values throughout -/

/-- An entry that has a value. -/
def Entry.HasValue (entry : Entry) : Prop :=
  Exists fun value => entry = .ofValue value

/-- Every entry has a value, at every depth.  Records built from values are
complete. -/
def Record.Complete (record : Record) : Prop :=
  record.Everywhere Entry.HasValue

instance : DecidablePred Entry.HasValue
  | .ofValue value => isTrue ⟨value, rfl⟩
  | .undecodable _ _ _ => isFalse (by rintro ⟨value, impossible⟩; cases impossible)

instance : DecidablePred Record.Complete :=
  fun record => inferInstanceAs (Decidable (record.Everywhere Entry.HasValue))

/-! ## Records around a record -/

namespace Record

/-- A record inside others, each of which has no other entry. -/
def wrapped : (times : Nat) -> Record -> Record
  | 0, record => record
  | times + 1, record => [.ofValue (.record (wrapped times record))]

theorem depth_wrapped (times : Nat) (record : Record) :
    (record.wrapped times).depth = record.depth + times := by
  induction times with
  | zero => rfl
  | succ times ih =>
      have around : (record.wrapped (times + 1)).depth = max ((record.wrapped times).depth + 1) 0 :=
        rfl
      rw [around, ih, Nat.max_zero, Nat.add_assoc]

/-- A property of all entries that holds of records with one entry holds around
a record for which it holds. -/
theorem Everywhere.wrapped {P : Entry -> Prop} {record : Record} (holds : record.Everywhere P)
    (around : forall times, P (.ofValue (.record (record.wrapped times)))) (times : Nat) :
    (record.wrapped times).Everywhere P := by
  induction times with
  | zero => exact holds
  | succ times ih => exact ⟨⟨around times, ih⟩, trivial⟩

theorem Complete.wrapped {record : Record} (complete : record.Complete) (times : Nat) :
    (record.wrapped times).Complete :=
  Everywhere.wrapped complete (fun _ => ⟨_, rfl⟩) times

end Record

end SortKey
