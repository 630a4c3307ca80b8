import SortKey.Proofs.Key.Reread
import SortKey.Session.Look

namespace SortKey

/-!
# The order of keys is the order of entries

`Record.entryOrder` orders records without mentioning their keys.  The first
place where entries differ in kind or data decides.  Different kinds compare
by their codes, and different data by its first different octet.  Data that is
the beginning of other data compares the separator behind it with the octet
with which the other one goes on, and so comes last unless that octet is at
least the separator.  The empty record comes behind all others.

Escaping does not disturb this.  It keeps the first octet of what remains of
the data, and the only octet that it doubles meets, on the other side, either
itself or a separator with a code or nothing behind it.  All codes are smaller
than the separator.
-/

/-! ## The order of data and of entries -/

/-- The order of data of one kind. -/
def dataOrder (a b : Bytes) : Ordering :=
  match (a.zip b).find? fun pair => pair.1 != pair.2 with
  | some (x, y) => compare x y
  | none =>
      match a.drop b.length, b.drop a.length with
      | [], [] => .eq
      | [], next :: _ => if next < separator then .gt else .lt
      | next :: _, _ => if next < separator then .lt else .gt

namespace Record

/-- The first entries that differ in kind or data decide.  Without any, the
record with fewer entries is the smaller one. -/
def differenceOrder (a b : Record) : Ordering :=
  match (a.zip b).find? fun pair =>
      pair.1.kind != pair.2.kind || pair.1.data != pair.2.data with
  | some (x, y) =>
      if x.kind = y.kind then dataOrder x.data y.data else Ord.compare x.kind.code y.kind.code
  | none => Ord.compare a.length b.length

/-- The order of records by their entries, the empty record last. -/
def entryOrder (a b : Record) : Ordering :=
  match a.isEmpty, b.isEmpty with
  | true, true => .eq
  | true, false => .gt
  | false, true => .lt
  | false, false => differenceOrder a b

end Record

/-! ## Data against data -/

theorem dataOrder_nil_cons (b : UInt8) (bs : Bytes) :
    dataOrder [] (b :: bs) = if b < separator then .gt else .lt := by
  simp [dataOrder]

theorem dataOrder_cons_nil (a : UInt8) (as : Bytes) :
    dataOrder (a :: as) [] = if a < separator then .lt else .gt := by
  simp [dataOrder]

theorem dataOrder_cons_self (b : UInt8) (as bs : Bytes) :
    dataOrder (b :: as) (b :: bs) = dataOrder as bs := by
  simp [dataOrder]

theorem dataOrder_cons_of_ne {a b : UInt8} (different : a ≠ b) (as bs : Bytes) :
    dataOrder (a :: as) (b :: bs) = compare a b := by
  simp [dataOrder, different]

theorem dataOrder_append_left (common a b : Bytes) :
    dataOrder (common ++ a) (common ++ b) = dataOrder a b := by
  induction common with
  | nil => rfl
  | cons x common ih => rw [List.cons_append, List.cons_append, dataOrder_cons_self, ih]

theorem dataOrder_swap (a b : Bytes) : (dataOrder a b).swap = dataOrder b a := by
  induction a generalizing b with
  | nil =>
      cases b with
      | nil => rfl
      | cons y b =>
          rw [dataOrder_nil_cons, dataOrder_cons_nil]
          split <;> rfl
  | cons x a ih =>
      cases b with
      | nil =>
          rw [dataOrder_nil_cons, dataOrder_cons_nil]
          split <;> rfl
      | cons y b =>
          by_cases same : x = y
          · subst same
            rw [dataOrder_cons_self, dataOrder_cons_self, ih]
          · rw [dataOrder_cons_of_ne same, dataOrder_cons_of_ne (Ne.symm same)]
            exact Std.OrientedCmp.eq_swap.symm

/-- What stands behind a separator: nothing, or an octet below it. -/
def BelowSeparator (rest : Bytes) : Prop :=
  ∀ next ∈ rest.head?, next < separator

theorem compare_separator_of_ne {b : UInt8} (different : b ≠ separator) :
    compare separator b = if b < separator then .gt else .lt := by
  by_cases below : b < separator
  · rw [if_pos below]
    exact Std.compare_eq_gt.mpr below
  · have above : separator < b := by
      rcases UInt8.lt_or_lt_of_ne different with less | greater
      · exact absurd less below
      · exact greater
    rw [if_neg below]
    exact Std.compare_eq_lt.mpr above

theorem order_low_separator {rest : Bytes} (low : BelowSeparator rest) (more : Bytes) :
    Bytes.order rest (separator :: more) = .lt := by
  cases rest with
  | nil => rfl
  | cons next behind =>
      have below : next < separator := low next rfl
      rw [Bytes.order_cons_of_ne (UInt8.ne_of_lt below)]
      exact Std.compare_eq_lt.mpr below

/-- The end of data compares, as a separator, with the octet with which other
data goes on. -/
theorem order_separator_escape_cons (b : UInt8) (data tail : Bytes) {behind : Bytes}
    (low : BelowSeparator behind) :
    Bytes.order (separator :: behind) (Escape.escape separator (b :: data) ++ tail) =
      if b < separator then .gt else .lt := by
  by_cases special : b = separator
  · rw [special, Escape.escape_cons_self, List.cons_append, Bytes.order_cons_self,
      if_neg (UInt8.lt_irrefl separator)]
    exact order_low_separator low _
  · rw [Escape.escape_cons_of_ne special, List.cons_append,
      Bytes.order_cons_of_ne (Ne.symm special), compare_separator_of_ne special]

/-- Escaped data with the separators behind it compares like the data.  Only
for equal data does it matter what stands behind. -/
theorem order_escape_append (a b : Bytes) {behindA behindB : Bytes}
    (lowA : BelowSeparator behindA) (lowB : BelowSeparator behindB) :
    Bytes.order (Escape.escape separator a ++ separator :: behindA)
        (Escape.escape separator b ++ separator :: behindB) =
      if a = b then Bytes.order behindA behindB else dataOrder a b := by
  induction a generalizing b with
  | nil =>
      cases b with
      | nil =>
          rw [if_pos rfl, Escape.escape_nil, List.nil_append, List.nil_append,
            Bytes.order_cons_self]
      | cons y b =>
          rw [if_neg (List.cons_ne_nil y b).symm, dataOrder_nil_cons]
          exact order_separator_escape_cons y b _ lowA
  | cons x a ih =>
      cases b with
      | nil =>
          have turned := order_separator_escape_cons x a (separator :: behindA) lowB
          rw [if_neg (List.cons_ne_nil x a), dataOrder_cons_nil, ← Bytes.order_swap,
            Escape.escape_nil, List.nil_append, turned]
          split <;> rfl
      | cons y b =>
          by_cases same : x = y
          · subst same
            have front : Bytes.order (Escape.escape separator (x :: a) ++ separator :: behindA)
                (Escape.escape separator (x :: b) ++ separator :: behindB) =
                  Bytes.order (Escape.escape separator a ++ separator :: behindA)
                    (Escape.escape separator b ++ separator :: behindB) := by
              rw [Escape.escape_cons, Escape.escape_cons x b, List.append_assoc, List.append_assoc,
                Bytes.order_append_left]
            rw [front, ih b, dataOrder_cons_self]
            simp only [List.cons.injEq, true_and]
          · have apart : x :: a ≠ y :: b := by
              intro equal
              exact same (List.cons.inj equal).1
            rcases Escape.exists_escape_cons separator x a with ⟨moreX, startX⟩
            rcases Escape.exists_escape_cons separator y b with ⟨moreY, startY⟩
            rw [startX, startY, List.cons_append, List.cons_append, Bytes.order_cons_of_ne same,
              if_neg apart, dataOrder_cons_of_ne same]

/-- Longer data is the smaller one, unless it goes on with the separator octet
or with the one above it. -/
example : dataOrder [1, 0xFD] [1] = .lt ∧ dataOrder [1, separator] [1] = .gt := by
  decide

/-! ## Entries against entries -/

namespace Record

theorem differenceOrder_cons_of_kind_ne {x y : Entry} (different : x.kind ≠ y.kind)
    (a b : Record) :
    differenceOrder (x :: a) (y :: b) = Ord.compare x.kind.code y.kind.code := by
  simp [differenceOrder, different]

theorem differenceOrder_cons_of_data_ne {x y : Entry} (kinds : x.kind = y.kind)
    (different : x.data ≠ y.data) (a b : Record) :
    differenceOrder (x :: a) (y :: b) = dataOrder x.data y.data := by
  simp [differenceOrder, kinds, different]

theorem differenceOrder_cons_of_eq {x y : Entry} (kinds : x.kind = y.kind)
    (data : x.data = y.data) (a b : Record) :
    differenceOrder (x :: a) (y :: b) = differenceOrder a b := by
  have lengths : Ord.compare (a.length + 1) (b.length + 1) = Ord.compare a.length b.length := by
    simp only [Nat.compare_eq_ite_lt, Nat.add_lt_add_iff_right]
  simp [differenceOrder, kinds, data, lengths]

theorem belowSeparator_closed (record : Record) : BelowSeparator record.closed := by
  cases record with
  | nil =>
      intro next member
      cases member
  | cons entry entries =>
      intro next member
      rw [closed_cons, List.head?_cons] at member
      cases member
      exact entry.kind.code_lt_separator

theorem order_closed (a b : Record) : Bytes.order a.closed b.closed = differenceOrder a b := by
  induction a generalizing b with
  | nil => cases b <;> rfl
  | cons x a ih =>
      cases b with
      | nil => rfl
      | cons y b =>
          rw [closed_cons, closed_cons]
          by_cases kinds : x.kind = y.kind
          · rw [kinds, Bytes.order_cons_self,
              order_escape_append _ _ (belowSeparator_closed a) (belowSeparator_closed b)]
            by_cases data : x.data = y.data
            · rw [if_pos data, ih b, differenceOrder_cons_of_eq kinds data]
            · rw [if_neg data, differenceOrder_cons_of_data_ne kinds data]
          · have codes : x.kind.code ≠ y.kind.code := fun same => kinds (Kind.code_injective same)
            rw [Bytes.order_cons_of_ne codes, differenceOrder_cons_of_kind_ne kinds]

/-- The key of the empty record is larger than every other key. -/
theorem order_key_nil_cons (entry : Entry) (entries : Record) :
    Bytes.order (key []) (key (entry :: entries)) = .gt := by
  have below : entry.kind.code < separator := entry.kind.code_lt_separator
  have emptyKey : key [] = [separator] := rfl
  rw [emptyKey, key_eq_closed (List.cons_ne_nil entry entries), closed_cons,
    Bytes.order_cons_of_ne (UInt8.ne_of_lt below).symm]
  exact Std.compare_eq_gt.mpr below

private theorem order_key (a b : Record) : Bytes.order a.key b.key = a.entryOrder b := by
  cases a with
  | nil =>
      cases b with
      | nil => rfl
      | cons y b => exact order_key_nil_cons y b
  | cons x a =>
      cases b with
      | nil => rw [← Bytes.order_swap, order_key_nil_cons]; rfl
      | cons y b =>
          rw [key_eq_closed (List.cons_ne_nil x a), key_eq_closed (List.cons_ne_nil y b)]
          exact order_closed (x :: a) (y :: b)

theorem differenceOrder_append (common a b : Record) :
    differenceOrder (common ++ a) (common ++ b) = differenceOrder a b := by
  induction common with
  | nil => rfl
  | cons entry entries ih =>
      rw [List.cons_append, List.cons_append, differenceOrder_cons_of_eq rfl rfl, ih]

/-- How two records compare that have the same entries in front, then one of two
values each, and anything behind it. -/
def orderBehind (common : Record) (x : Value) (a : Record) (y : Value) (b : Record) : Ordering :=
  order (common ++ .ofValue x :: a) (common ++ .ofValue y :: b)

/-- Values that differ in their data decide.  Neither what is common in front nor
what stands behind matters. -/
theorem orderBehind_of_data_ne {x y : Value} (kinds : x.kind = y.kind)
    (different : x.data ≠ y.data) (common a b : Record) :
    orderBehind common x a y b = dataOrder x.data y.data := by
  have filled : forall (value : Value) (entries : Record),
      common ++ .ofValue value :: entries ≠ [] := by simp
  have entryKinds : (Entry.ofValue x).kind = (Entry.ofValue y).kind := kinds
  rw [orderBehind, order, key_eq_closed (filled x a), key_eq_closed (filled y b), order_closed,
    differenceOrder_append, differenceOrder_cons_of_data_ne entryKinds different]
  rfl

/-- Records are ordered by their entries, also where two slices of a session
are found to be the same and their keys are not looked at. -/
theorem order_eq_entryOrder :
    (forall a b : Record, a.order b = a.entryOrder b) ∧
    (forall (session : Session) (x y : Slice),
      (compare (x = y) (session.record x) (session.record y)).order =
        (session.record x).entryOrder (session.record y)) := by
  refine ⟨order_key, ?_⟩
  intro session x y
  by_cases same : x = y
  · subst same
    have equal : (session.record x).entryOrder (session.record x) = .eq := by
      rw [← order_key, Bytes.order_self]
    simp [compare, equal]
  · simp only [compare, decide_eq_false same, Bool.false_eq_true, if_false]
    exact order_key _ _

end Record
end SortKey
