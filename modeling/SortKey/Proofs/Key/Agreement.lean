import SortKey.Proofs.Equality
import SortKey.Proofs.Key.RoundTrip
import SortKey.Session.Look

namespace SortKey

/-!
# Equality, order and hashes agree

Equal records have the same key, so that they are of equal order and have the
same stable hash, and they feed the same to every hash function.  None of these
looks at the cause for which an entry has no value.

In the other direction a key tells the kinds and the data of the entries, and
nothing else.  Where every entry has a value, data tells the value up to the
text of the character zero, at every depth.  An entry without any data is no
exception: it is still seen in the key, although it cannot be read back.
-/

namespace Record

/-- A change that no frame shows is not seen in the key. -/
theorem key_map_eq {change : Entry -> Entry} {record : Record}
    (unseen : ∀ entry ∈ record, (change entry).frame = entry.frame) :
    key (record.map change) = record.key := by
  rw [key_eq_key_iff, List.map_map]
  exact List.map_congr_left unseen

/-! ## From equality to keys -/

theorem key_withoutCauses (record : Record) : record.withoutCauses.key = record.key := by
  induction record using Record.nestedInduction with
  | step record nested =>
      rw [withoutCauses_eq_map]
      apply key_map_eq
      intro entry member
      cases entry with
      | undecodable kind data cause => rfl
      | ofValue value =>
          cases value with
          | record entries =>
              exact congrArg (Key.Frame.mk Kind.record.code .record) (nested entries member)
          | _ => rfl

theorem key_eq_of_same {a b : Record} (equal : a.same b = true) : a.key = b.key := by
  rw [same_iff_withoutCauses_eq] at equal
  rw [← key_withoutCauses, equal, key_withoutCauses]

theorem hashWrites_eq_of_same {a b : Record} (equal : a.same b = true) :
    a.hashWrites = b.hashWrites := by
  rw [same_iff_withoutCauses_eq] at equal
  rw [← hashWrites_withoutCauses, equal, hashWrites_withoutCauses]

theorem order_eq_of_key_eq {a b : Record} (keys : a.key = b.key) : a.order b = .eq := by
  rw [order, keys, Bytes.order_self]

/-! ## From keys to equality -/

theorem key_withoutNul (record : Record) : record.withoutNul.key = record.key := by
  induction record using Record.nestedInduction with
  | step record nested =>
      rw [withoutNul_eq_map]
      apply key_map_eq
      intro entry member
      cases entry with
      | undecodable kind data cause => rfl
      | ofValue value =>
          cases value with
          | text content =>
              exact congrArg (Key.Frame.mk Kind.text.code .text) (Value.data_withoutNul_text content)
          | record entries =>
              exact congrArg (Key.Frame.mk Kind.record.code .record) (nested entries member)
          | _ => rfl

end Record

/-- Values with the same kind and data, once it is settled for records. -/
private theorem Value.withoutNul_eq_of_nested {u v : Value} (kinds : u.kind = v.kind)
    (data : u.data = v.data)
    (nested : forall xs ys : Record, u = .record xs -> v = .record ys -> xs.key = ys.key ->
      xs.withoutNul = ys.withoutNul) : u.withoutNul = v.withoutNul := by
  rcases u.record_or_plain with ⟨xs, rfl⟩ | plain
  · rcases v.record_or_plain with ⟨ys, rfl⟩ | plain
    · exact congrArg Value.record (nested xs ys rfl rfl data)
    · exact absurd kinds.symm plain
  · exact Value.withoutNul_eq_of_data_eq plain kinds data

/-- What is decided by `f` at each place is decided by it for the lists. -/
private theorem map_eq_map_of_pairs {α β γ : Type} {f : α -> β} {g : α -> γ} {as bs : List α}
    (pairs : ∀ a ∈ as, ∀ b ∈ bs, f a = f b -> g a = g b) (same : as.map f = bs.map f) :
    as.map g = bs.map g := by
  induction as generalizing bs with
  | nil =>
      cases bs with
      | nil => rfl
      | cons b bs => cases same
  | cons a as ih =>
      cases bs with
      | nil => cases same
      | cons b bs =>
          rw [List.map_cons, List.map_cons, List.cons.injEq] at same
          have first := pairs a List.mem_cons_self b List.mem_cons_self same.1
          have others := ih (fun x inA y inB =>
            pairs x (List.mem_cons_of_mem a inA) y (List.mem_cons_of_mem b inB)) same.2
          rw [List.map_cons, List.map_cons, first, others]

namespace Record

theorem Complete.withoutNul_eq_of_key_eq {a b : Record} (completeA : a.Complete)
    (completeB : b.Complete) (keys : a.key = b.key) : a.withoutNul = b.withoutNul := by
  induction a using Record.nestedInduction generalizing b with
  | step a nested =>
      rw [key_eq_key_iff] at keys
      rw [withoutNul_eq_map, withoutNul_eq_map]
      refine map_eq_map_of_pairs ?_ keys
      intro x inA y inB frames
      rcases completeA.of_mem inA with ⟨u, rfl⟩
      rcases completeB.of_mem inB with ⟨v, rfl⟩
      have values : u.withoutNul = v.withoutNul := by
        apply Value.withoutNul_eq_of_nested (congrArg Key.Frame.kind frames)
          (congrArg Key.Frame.data frames)
        rintro xs ys rfl rfl
        exact nested xs inA (completeA.nested inA) (completeB.nested inB)
      rw [Entry.withoutNul, Entry.withoutNul, values]

/-- Complete records have the same key exactly when they are equal up to the
text of the character zero. -/
theorem Complete.key_eq_iff {a b : Record} (completeA : a.Complete) (completeB : b.Complete) :
    a.key = b.key <-> a.withoutNul.same b.withoutNul = true := by
  rw [completeA.withoutNul.same_iff_eq completeB.withoutNul]
  constructor
  · exact completeA.withoutNul_eq_of_key_eq completeB
  · intro equal
    rw [← key_withoutNul, equal, key_withoutNul]

/-! ## Agreement -/

/-- Slices that show equal records are equal also when they are not the same
slice, and a slice is always equal to itself. -/
theorem compare_equal_iff (session : Session) (x y : Slice) :
    (compare (x = y) (session.record x) (session.record y)).equal = true <->
      (session.record x).same (session.record y) = true := by
  by_cases same : x = y
  · subst same
    simp [compare, same_self]
  · simp [compare, same]

/-- Equality is an equivalence.  Equal records have equal keys, compare as
equal, and have equal hashes of both sorts; so do slices, however they were
made.  Between complete records equal keys mean equality, up to the text of the
character zero. -/
theorem equality_agrees :
    (Equivalence fun a b : Record => a.same b = true) ∧
    (forall a b : Record, a.same b = true ->
      a.key = b.key ∧ a.order b = .eq ∧ a.stableHash = b.stableHash ∧
        a.hashWrites = b.hashWrites) ∧
    (forall a b : Record, a.Complete -> b.Complete ->
      (a.key = b.key <-> a.withoutNul.same b.withoutNul = true)) ∧
    (forall (session : Session) (x y : Slice),
      let comparison := compare (x = y) (session.record x) (session.record y)
      (comparison.equal = true <-> (session.record x).same (session.record y) = true) ∧
      (comparison.equal = true -> comparison.order = .eq ∧ comparison.less = false ∧
        comparison.hashEqual = true ∧ comparison.stableHashEqual = true)) := by
  refine ⟨same_equivalence, ?_, ?_, ?_⟩
  · intro a b equal
    have keys := key_eq_of_same equal
    exact ⟨keys, order_eq_of_key_eq keys, congrArg Xxh3.hash keys, hashWrites_eq_of_same equal⟩
  · intro a b completeA completeB
    exact completeA.key_eq_iff completeB
  · intro session x y
    refine ⟨compare_equal_iff session x y, ?_⟩
    intro equal
    rw [compare_equal_iff] at equal
    have keys := key_eq_of_same equal
    have hashes : (session.record x).stableHash = (session.record y).stableHash :=
      congrArg Xxh3.hash keys
    simp [compare, order_eq_of_key_eq keys, hashWrites_eq_of_same equal, hashes]

/-- Two records with empty octets inside, which differ in the text of the
character zero alone, and two entries without a value which differ in their
causes alone. -/
theorem equality_agrees_on_shared_data :
    let a : Record := [.ofValue (.record [.ofValue (.bytes [])]), .ofValue (.text "\x00")]
    let b : Record := [.ofValue (.record [.ofValue (.bytes [])]), .ofValue (.text "")]
    let c : Record := [.undecodable .record [7] (.invalidCode 7)]
    let d : Record := [.undecodable .record [7] .emptyData]
    a.Complete ∧ b.Complete ∧ a.withoutNul.same b.withoutNul = true ∧ a.key = b.key ∧
      c.same d = true ∧ c.key = d.key ∧ c.hashWrites = d.hashWrites := by
  intro a b c d
  have completeA : a.Complete := by decide
  have completeB : b.Complete := by decide
  have upToNul : a.withoutNul.same b.withoutNul = true := by decide
  have equal : c.same d = true := by decide
  rcases equality_agrees with ⟨_, ofEqual, ofComplete, _⟩
  have agreed := ofEqual c d equal
  exact ⟨completeA, completeB, upToNul, (ofComplete a b completeA completeB).mpr upToNul, equal,
    agreed.1, agreed.2.2.2⟩

end Record
end SortKey
