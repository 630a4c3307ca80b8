import SortKey.Proofs.Key.Order
import SortKey.Proofs.Key.Prefix

namespace SortKey

/-!
# The order of nested records

The data of a nested record is its key, and keys are themselves compared by the
order of data when they stand in an entry.  That is not the order of octets: data
that begins other data is the larger one if the other data goes on with an octet
below the separator.  Between keys this happens in one way.  Behind a complete key
only the code of a further entry is below the separator, so one record has all the
entries of the other one and more.

A key can also begin another one because the data of its last entry does so and the
other data goes on with the separator octet.  The octet behind the shorter key is
then a separator, and the order stays as it is.
-/

/-! ## Data that begins other data -/

/-- Data begins other data, which goes on with an octet below the separator. -/
def GoesOnBelow (data longer : Bytes) : Prop :=
  Exists fun next => Exists fun more => longer = data ++ next :: more ∧ next < separator

theorem goesOnBelow_nil_cons_iff (next : UInt8) (more : Bytes) :
    GoesOnBelow [] (next :: more) <-> next < separator := by
  constructor
  · rintro ⟨_, _, whole, below⟩
    rw [(List.cons.inj whole).1]
    exact below
  · intro below
    exact ⟨next, more, rfl, below⟩

theorem goesOnBelow_cons_cons_iff (b : UInt8) (data longer : Bytes) :
    GoesOnBelow (b :: data) (b :: longer) <-> GoesOnBelow data longer := by
  simp only [GoesOnBelow, List.cons_append, List.cons.injEq, true_and]

/-- As data the shorter one is larger, as octets it is smaller. -/
theorem GoesOnBelow.orders {a b : Bytes} (goesOn : GoesOnBelow a b) :
    dataOrder a b = .gt ∧ a.order b = .lt := by
  rcases goesOn with ⟨next, more, rfl, below⟩
  have asData := dataOrder_append_left a [] (next :: more)
  have asOctets := Bytes.order_append_left a [] (next :: more)
  rw [List.append_nil] at asData asOctets
  rw [asData, asOctets, dataOrder_nil_cons, if_pos below]
  exact ⟨rfl, rfl⟩

/-- Otherwise there is no difference between the two orders. -/
theorem dataOrder_eq_order {a b : Bytes} (forth : ¬ GoesOnBelow a b) (back : ¬ GoesOnBelow b a) :
    dataOrder a b = a.order b := by
  induction a generalizing b with
  | nil =>
      cases b with
      | nil => rfl
      | cons y b =>
          rw [goesOnBelow_nil_cons_iff] at forth
          rw [dataOrder_nil_cons, if_neg forth]
          rfl
  | cons x a ih =>
      cases b with
      | nil =>
          rw [goesOnBelow_nil_cons_iff] at back
          rw [dataOrder_cons_nil, if_neg back]
          rfl
      | cons y b =>
          by_cases same : x = y
          · subst same
            rw [goesOnBelow_cons_cons_iff] at forth back
            rw [dataOrder_cons_self, Bytes.order_cons_self, ih forth back]
          · rw [dataOrder_cons_of_ne same, Bytes.order_cons_of_ne same]

/-! ## Keys that begin other keys -/

namespace Record

/-- The record has the kinds and the data of all entries of the other one in front,
which has some, and has further entries. -/
def Continues (record other : Record) : Prop :=
  other ≠ [] ∧ other.length < record.length ∧
    other.map Entry.content <+: record.map Entry.content

instance (record other : Record) : Decidable (record.Continues other) :=
  inferInstanceAs (Decidable (other ≠ [] ∧ other.length < record.length ∧
    other.map Entry.content <+: record.map Entry.content))

/-- Further entries follow in the octets with a code, which is below the
separator. -/
private theorem goesOnBelow_closed (record other : Record)
    (longer : other.length < record.length)
    (starts : other.map Entry.content <+: record.map Entry.content) :
    GoesOnBelow other.closed record.closed := by
  induction other generalizing record with
  | nil =>
      cases record with
      | nil => exact absurd longer (Nat.lt_irrefl 0)
      | cons entry entries =>
          have none : closed [] = [] := rfl
          rw [none, closed_cons, goesOnBelow_nil_cons_iff]
          exact entry.kind.code_lt_separator
  | cons y other ih =>
      cases record with
      | nil => exact absurd longer (Nat.not_lt_zero _)
      | cons x record =>
          rw [List.map_cons, List.map_cons, List.cons_prefix_cons] at starts
          rcases ih record (Nat.lt_of_succ_lt_succ longer) starts.2 with ⟨next, more, whole, below⟩
          rcases Prod.mk.inj starts.1 with ⟨kinds, data⟩
          refine ⟨next, more, ?_, below⟩
          rw [closed_cons, closed_cons, whole, kinds, data]
          simp

/-- An octet behind closed entries that is no separator belongs to a further
entry. -/
private theorem starts_of_closed_eq (record other : Record) {next : UInt8} {more : Bytes}
    (different : next ≠ separator) (whole : record.closed = other.closed ++ next :: more) :
    other.length < record.length ∧ other.map Entry.content <+: record.map Entry.content := by
  induction other generalizing record with
  | nil =>
      cases record with
      | nil => exact absurd whole (by simp [closed])
      | cons entry entries => exact ⟨Nat.succ_pos _, List.nil_prefix⟩
  | cons y other ih =>
      cases record with
      | nil => exact absurd whole (by simp [closed])
      | cons x record =>
          -- On both sides a code or the octet in question follows, so the data ends there.
          have lone : (next :: more).head? ≠ some separator := by simpa using different
          have ends : Escape.Ends separator (separator :: (closed other ++ next :: more)) :=
            Key.Frame.ends_closed_append (frames_announced other) lone
          rw [closed_cons, closed_cons, List.cons_append, List.append_assoc, List.cons_append,
            List.cons.injEq, Kind.code_inj] at whole
          rcases Escape.escape_append_inj (ends_separator_closed record) ends whole.2 with ⟨data, tails⟩
          rcases ih record (List.cons.inj tails).2 with ⟨longer, starts⟩
          have first : y.content = x.content := by rw [Entry.content, Entry.content, whole.1, data]
          refine ⟨Nat.succ_lt_succ longer, ?_⟩
          rw [List.map_cons, List.map_cons, List.cons_prefix_cons]
          exact ⟨first, starts⟩

/-- One key goes on below the separator behind another one exactly when its record
has further entries.  The key of the empty record is no beginning of this sort. -/
theorem goesOnBelow_key_iff (record other : Record) :
    GoesOnBelow other.key record.key <-> record.Continues other := by
  have emptyKey : key [] = [separator] := rfl
  by_cases noOther : other = []
  · subst noOther
    refine iff_of_false ?_ (fun continues => continues.1 rfl)
    rintro ⟨next, more, whole, _⟩
    by_cases none : record = []
    · subst none
      exact absurd whole (by simp [emptyKey])
    · -- The other key would have to begin with a separator.
      have front := record.head?_closed_ne_separator
      rw [← key_eq_closed none, whole, emptyKey] at front
      exact front rfl
  by_cases none : record = []
  · subst none
    refine iff_of_false ?_ (fun continues => absurd continues.2.1 (Nat.not_lt_zero _))
    rintro ⟨next, more, whole, _⟩
    rw [emptyKey, key_eq_closed noOther] at whole
    cases other with
    | nil => exact noOther rfl
    | cons y other => exact absurd whole (by simp [closed_cons])
  rw [key_eq_closed none, key_eq_closed noOther]
  constructor
  · rintro ⟨next, more, whole, below⟩
    exact ⟨noOther, starts_of_closed_eq record other (UInt8.ne_of_lt below) whole⟩
  · rintro ⟨_, longer, starts⟩
    exact goesOnBelow_closed record other longer starts

/-! ## Order -/

/-- Nested records with different keys, behind common entries, are ordered as they
are on their own, whatever stands behind them.  It is the other way round if one of
them continues the other: then the shorter one comes last.  The empty record is
continued by none. -/
theorem order_of_nested (common behindA behindB a b : Record) (different : a.key ≠ b.key) :
    (¬ (a.Continues b ∨ b.Continues a) ->
      orderBehind common (.record a) behindA (.record b) behindB = a.order b) ∧
    (a.Continues b ∨ b.Continues a ->
      orderBehind common (.record a) behindA (.record b) behindB = (a.order b).swap) ∧
    (a.Continues b -> orderBehind common (.record a) behindA (.record b) behindB = .lt) ∧
    (b.Continues a -> orderBehind common (.record a) behindA (.record b) behindB = .gt) := by
  have kinds : (Value.record a).kind = (Value.record b).kind := rfl
  have data : (Value.record a).data ≠ (Value.record b).data := different
  have decided : orderBehind common (.record a) behindA (.record b) behindB =
      dataOrder a.key b.key := orderBehind_of_data_ne kinds data common behindA behindB
  have shorterFirst : b.Continues a -> dataOrder a.key b.key = .gt ∧ a.order b = .lt := by
    intro continues
    exact ((goesOnBelow_key_iff b a).mpr continues).orders
  have shorterSecond : a.Continues b -> dataOrder a.key b.key = .lt ∧ a.order b = .gt := by
    intro continues
    have orders := ((goesOnBelow_key_iff a b).mpr continues).orders
    rw [← dataOrder_swap, order, ← Bytes.order_swap]
    exact ⟨congrArg Ordering.swap orders.1, congrArg Ordering.swap orders.2⟩
  rw [decided]
  refine ⟨?_, ?_, ?_, ?_⟩
  · intro neither
    rw [not_or, ← goesOnBelow_key_iff, ← goesOnBelow_key_iff] at neither
    exact dataOrder_eq_order neither.2 neither.1
  · rintro (continues | continues)
    · rw [(shorterSecond continues).1, (shorterSecond continues).2]
      rfl
    · rw [(shorterFirst continues).1, (shorterFirst continues).2]
      rfl
  · exact fun continues => (shorterSecond continues).1
  · exact fun continues => (shorterFirst continues).1

/-- Records that continue the other one, on either side, and one whose octets run on
with the separator instead. -/
theorem order_of_nested_at_key_ends :
    let short : Record := [.ofValue (.bytes [1])]
    let long : Record := [.ofValue (.bytes [1]), .ofValue (.byte 7)]
    let runsOn : Record := [.ofValue (.bytes [1, separator])]
    short.key ≠ long.key ∧ long.Continues short ∧ short.order long = .lt ∧
      orderBehind [.ofValue (.text "k")] (.record short) [.ofValue (.byte 0)] (.record long) [] =
        .gt ∧
    short.key ≠ runsOn.key ∧ ¬ (short.Continues runsOn ∨ runsOn.Continues short) ∧
      short.order runsOn = .lt ∧
      orderBehind [.ofValue (.text "k")] (.record short) [.ofValue (.byte 0)] (.record runsOn) [] =
        .lt := by
  intro short long runsOn
  have differentLong : short.key ≠ long.key := by decide
  have differentRunsOn : short.key ≠ runsOn.key := by decide
  have continues : long.Continues short := by decide
  have neither : ¬ (short.Continues runsOn ∨ runsOn.Continues short) := by decide
  have turned := order_of_nested [.ofValue (.text "k")] [.ofValue (.byte 0)] [] short long
    differentLong
  have kept := order_of_nested [.ofValue (.text "k")] [.ofValue (.byte 0)] [] short runsOn
    differentRunsOn
  exact ⟨differentLong, continues, by decide, turned.2.2.2 continues, differentRunsOn, neither,
    by decide, (kept.1 neither).trans (by decide)⟩

end Record
end SortKey
