import SortKey.Proofs.View

namespace SortKey

/-!
# The order of views

Views are compared by what they show.  It does not matter which buffers they show it
of, nor where, nor whether the comparison takes the path for whole buffers.  So the
order is total, views are of equal order exactly when they are equal, and these feed
the same to hash functions.

Views that are sorted show sorted strings.  As only views that show the same are equal,
there is one row of strings that sorting can lead to, whichever way the views are
sorted.  A sorting that keeps equal items in their order arranges views as it does their
strings.
-/

/-- The positions of items in ascending order; equal ones keep theirs. -/
def sortedPositions {α : Type} (order : α -> α -> Ordering) (items : List α) : List Nat :=
  ((items.zipIdx).mergeSort fun a b => (order a.1 b.1).isLE).map Prod.snd

/-- Positions are sorted by what the order looks at. -/
theorem sortedPositions_map {α β : Type} {order : α -> α -> Ordering} {orderOf : β -> β -> Ordering}
    {shown : α -> β} (compared : forall a b, order a b = orderOf (shown a) (shown b))
    (items : List α) : sortedPositions orderOf (items.map shown) = sortedPositions order items := by
  have sorted : ((items.zipIdx).mergeSort fun a b => (order a.1 b.1).isLE).map (Prod.map shown id) =
      ((items.zipIdx).map (Prod.map shown id)).mergeSort fun a b => (orderOf a.1 b.1).isLE := by
    apply List.map_mergeSort
    intro a _ b _
    rw [compared]
    rfl
  rw [sortedPositions, sortedPositions, List.zipIdx_map, ← sorted, List.map_map]
  rfl

namespace Bytes

theorem isLE_antisymm {as bs : Bytes} (first : (order as bs).isLE = true)
    (second : (order bs as).isLE = true) : as = bs := by
  have := transCmp_order
  exact (order_eq_eq_iff as bs).mp (Std.OrientedCmp.isLE_antisymm first second)

/-- Strings can be arranged in ascending order in one way. -/
theorem eq_mergeSort_of_ascending {sorted strings : List Bytes} (same : sorted.Perm strings)
    (ascending : sorted.Pairwise fun as bs => (order as bs).isLE = true) :
    sorted = strings.mergeSort fun as bs => (order as bs).isLE := by
  have := transCmp_order
  have merged : (strings.mergeSort fun as bs => (order as bs).isLE).Pairwise
      fun as bs => (order as bs).isLE = true := by
    apply List.pairwise_mergeSort
    · exact fun as bs cs => Std.TransCmp.isLE_trans
    · intro as bs
      rw [← order_swap as bs]
      cases order as bs <;> rfl
  refine List.Perm.eq_of_pairwise ?_ ascending merged (same.trans (List.mergeSort_perm _ _).symm)
  exact fun as bs _ _ => isLE_antisymm

end Bytes

namespace View

theorem same_iff (a b : View) : a.same b = true <-> a.bytes = b.bytes := by
  rw [same, beq_iff_eq]

theorem transCmp_order : Std.TransCmp View.order := by
  have shown : View.order = fun a b : View => Bytes.order a.bytes b.bytes :=
    funext fun a => funext fun b => order_eq_order a b
  have := Bytes.transCmp_order
  rw [shown]
  exact {
    eq_swap := Std.OrientedCmp.eq_swap
    isLE_trans := Std.TransCmp.isLE_trans }

/-- Whole or not, views are compared by what they show, octet by octet, and a string
comes before those that go on behind it.  That is a total order; views are of equal order
when they are equal, which is when they show the same, and then they feed the same to hash
functions.  Views in ascending order show their strings in ascending order, and if equal
ones keep their order the arrangement is that of the strings. -/
theorem order_by_contents :
    (forall a b : View,
      a.order b = a.bytes.order b.bytes ∧
      (a.isWhole = true -> b.isWhole = true ->
        a.buffer.bytes.order b.buffer.bytes = a.bytes.walkOrder b.bytes) ∧
      (a.order b = .lt <-> Bytes.Precedes a.bytes b.bytes) ∧
      (a.order b = .gt <-> Bytes.Precedes b.bytes a.bytes) ∧
      (a.order b = .eq <-> a.same b = true) ∧
      (a.same b = true <-> a.bytes = b.bytes) ∧
      (a.same b = true <-> a.hashWrites = b.hashWrites)) ∧
    Std.TransCmp View.order ∧
    (forall views : List View,
      sortedPositions View.order views = sortedPositions Bytes.order (views.map bytes) ∧
      forall sorted : List View, sorted.Perm views ->
        (sorted.Pairwise fun a b => (a.order b).isLE = true) ->
        sorted.map bytes = (views.map bytes).mergeSort fun as bs => (as.order bs).isLE) := by
  refine ⟨?_, transCmp_order, ?_⟩
  · intro a b
    rw [order_eq_order, same_iff, Bytes.order_eq_lt_iff, Bytes.order_eq_gt_iff,
      Bytes.order_eq_eq_iff]
    refine ⟨rfl, ?_, Iff.rfl, Iff.rfl, Iff.rfl, Iff.rfl, ?_⟩
    · intro wholeA wholeB
      rw [Bytes.walkOrder_eq_order, bytes_of_isWhole wholeA, bytes_of_isWhole wholeB]
    · rw [hashWrites, hashWrites, List.cons.injEq, HashWrite.octets.injEq, and_iff_left rfl]
  · intro views
    refine ⟨(sortedPositions_map order_eq_order views).symm, ?_⟩
    intro sorted same ascending
    apply Bytes.eq_mergeSort_of_ascending (same.map bytes)
    rw [List.pairwise_map]
    exact ascending.imp fun {a b} less => by rwa [← order_eq_order]

/-- Two whole views and two partial ones, of which one shows what a whole view shows. -/
theorem order_by_contents_of_parts :
    let shared : Buffer := ⟨0, [9, 1, 254, 0]⟩
    let part : View := ⟨shared, 1, 3, by decide, by decide⟩
    let longer : View := ⟨shared, 1, 4, by decide, by decide⟩
    let whole : View := ofBuffer ⟨1, [1, 254]⟩
    let first : View := ofBuffer ⟨2, [1, 127, 9]⟩
    whole.isWhole = true ∧ first.isWhole = true ∧
      whole.buffer.bytes.order first.buffer.bytes = .gt ∧
      part.order longer = .lt ∧ part.order first = .gt ∧ part.same whole = true ∧
      [first, part, whole, longer].Perm [longer, part, first, whole] ∧
      ([first, part, whole, longer].Pairwise fun a b => (a.order b).isLE = true) ∧
      ([longer, part, first, whole].map bytes).mergeSort (fun as bs => (as.order bs).isLE) =
        [[1, 127, 9], [1, 254], [1, 254], [1, 254, 0]] ∧
      sortedPositions View.order [longer, part, first, whole] =
        sortedPositions Bytes.order [[1, 254, 0], [1, 254], [1, 127, 9], [1, 254]] := by
  intro shared part longer whole first
  have wholeA : whole.isWhole = true := by decide
  have wholeB : first.isWhole = true := by decide
  have same : [first, part, whole, longer].Perm [longer, part, first, whole] := by decide
  have ascending :
      [first, part, whole, longer].Pairwise fun a b => (a.order b).isLE = true := by decide
  rcases order_by_contents with ⟨compared, _, sorting⟩
  rcases sorting [longer, part, first, whole] with ⟨positions, sorted⟩
  have behind : Bytes.Precedes first.bytes whole.bytes :=
    .behind 1 (.smaller (by decide) [9] [])
  refine ⟨wholeA, wholeB, ?_, by decide, by decide, ?_, same, ascending,
    (sorted _ same ascending).symm.trans (by decide), positions⟩
  · rw [(compared whole first).2.1 wholeA wholeB, Bytes.walkOrder_eq_order,
      Bytes.order_eq_gt_iff]
    exact behind
  · exact (compared part whole).2.2.2.2.2.1.mpr (by decide)

end View
end SortKey
