import SortKey.Key.Recoding
import SortKey.Proofs.Key.Agreement
import SortKey.Proofs.Key.Reading

namespace SortKey

/-!
# Entries that were read are written like built ones

What goes out again for an entry with a value is the data of that value, although most
data is never decoded for it.  For values that are no records this says that every value
has one spelling: the data from which it was read is the data in which it is written.  A
nested record is written anew from the data of its entries, each of which is the data of
its entry at the next depth.

So it does not show in a key, in the order of records, or in what is hashed whether an
entry was read or was built from an equal value.
-/

namespace Key

/-! ## What is written again -/

variable {dialect : Option Dialect}

namespace Frame

/-- A frame is written again like its entry, if that has the data that goes out. -/
private theorem recoded_of_data {frame : Frame}
    (same : recodedData dialect frame.kind frame.data = (frame.entry dialect).data) :
    frame.recoded dialect = (frame.entry dialect).frame.octets := by
  rw [recoded, same, ← frame.kind_entry dialect]
  rfl

/-- What goes out again for a frame is the data of its entry. -/
theorem recodedData_eq (dialect : Option Dialect) {frame : Frame} (filled : frame.data ≠ []) :
    recodedData dialect frame.kind frame.data = (frame.entry dialect).data := by
  rcases frame with ⟨code, kind, data⟩
  induction data using framesInduction dialect generalizing code kind with
  | step data inside =>
      by_cases isRecord : kind = .record
      · subst isRecord
        cases accepted : frames dialect data with
        | error cause =>
            rw [recodedData_of_error accepted, entry_of_error rfl (decode_eq_error_iff.mpr accepted)]
            rfl
        | ok found =>
            have read := decode_eq_ok_iff.mpr ⟨found, accepted, rfl⟩
            -- The entries inside are written again one by one.
            have each : ∀ frame ∈ found, recoded dialect frame = (entry dialect frame).frame.octets := by
              intro frame member
              exact recoded_of_data (inside found accepted frame member frame.code frame.kind
                (filled_of_mem_frames accepted member))
            have key := Record.key_eq_keyOfFrames (found.map (entry dialect))
            rw [List.map_map, List.map_map] at key
            rw [recodedData_of_frames accepted, entry_of_ok rfl read, List.map_congr_left each]
            exact key.symm
      · rw [recodedData_of_ne_record isRecord, data_entry isRecord filled]

theorem recoded_eq {frame : Frame} (filled : frame.data ≠ []) :
    frame.recoded dialect = (frame.entry dialect).frame.octets :=
  recoded_of_data (recodedData_eq dialect filled)

end Frame

/-- A record that was read is written anew from the frames in which it was read. -/
theorem key_of_frames {bytes : Bytes} {found : List Frame}
    (accepted : frames dialect bytes = .ok found) :
    Record.key (found.map (Frame.entry dialect)) =
      keyOfFrames (found.map (Frame.recoded dialect)) := by
  have each : ∀ frame ∈ found,
      frame.recoded dialect = (frame.entry dialect).frame.octets :=
    fun frame member => Frame.recoded_eq (filled_of_mem_frames accepted member)
  rw [Record.key_eq_keyOfFrames, List.map_map, List.map_map, List.map_congr_left each]
  rfl

/-! ## Frames at every depth -/

/-- A frame stands in a key, or in the data of a nested record in it, at any depth. -/
inductive Stands (dialect : Option Dialect) (frame : Frame) : Bytes -> Prop
  | outside {bytes : Bytes} {found : List Frame} (accepted : frames dialect bytes = .ok found)
      (member : frame ∈ found) : Stands dialect frame bytes
  | inside {bytes : Bytes} {found : List Frame} {outer : Frame}
      (accepted : frames dialect bytes = .ok found) (member : outer ∈ found)
      (isRecord : outer.kind = .record) (stands : Stands dialect frame outer.data) :
      Stands dialect frame bytes

namespace Stands

variable {frame : Frame} {bytes : Bytes}

theorem filled (stands : Stands dialect frame bytes) : frame.data ≠ [] := by
  induction stands with
  | outside accepted member => exact filled_of_mem_frames accepted member
  | inside _ _ _ _ ih => exact ih

theorem exists_decode (stands : Stands dialect frame bytes) :
    Exists fun record => decode dialect bytes = .ok record := by
  cases stands with
  | outside accepted _ | inside accepted _ _ _ => exact ⟨_, decode_eq_ok_iff.mpr ⟨_, accepted, rfl⟩⟩

end Stands

/-- The entries of a record at every depth are those of the frames that stand in its key. -/
theorem mem_preorder_iff_stands {bytes : Bytes} {record : Record}
    (read : decode dialect bytes = .ok record) (entry : Entry) :
    entry ∈ record.preorder <->
      Exists fun frame => Stands dialect frame bytes ∧ frame.entry dialect = entry := by
  induction bytes using framesInduction dialect generalizing record with
  | step bytes ih =>
      rcases decode_eq_ok_iff.mp read with ⟨found, accepted, rfl⟩
      rw [Record.preorder_eq_flatMap, List.flatMap_map, List.mem_flatMap]
      constructor
      · rintro ⟨outer, member, inEntry⟩
        rcases (Entry.mem_preorder_iff _ entry).mp inEntry with same | ⟨entries, isRecord, deeper⟩
        · exact ⟨outer, .outside accepted member, same.symm⟩
        · have nested := Frame.entry_eq_ofValue_iff.mp isRecord
          rcases valueOfData_eq_record_iff.mp nested with ⟨kind, readInside⟩
          rcases (ih found accepted outer member readInside).mp deeper with ⟨frame, stands, same⟩
          exact ⟨frame, .inside accepted member kind stands, same⟩
      · rintro ⟨frame, stands, rfl⟩
        cases stands with
        | outside again member =>
            rw [accepted] at again
            cases again
            exact ⟨frame, member, (Entry.mem_preorder_iff _ _).mpr (Or.inl rfl)⟩
        | @inside _ _ outer again member kind deeper =>
            rw [accepted] at again
            cases again
            rcases deeper.exists_decode with ⟨entries, readInside⟩
            have inside := (ih found accepted outer member readInside).mpr ⟨frame, deeper, rfl⟩
            refine ⟨outer, member, (Entry.mem_preorder_iff _ _).mpr (Or.inr ⟨entries, ?_, inside⟩)⟩
            exact Frame.entry_of_ok kind readInside

end Key

/-! ## Records that nothing tells apart -/

namespace Record

/-- Neither equality nor anything that is written, ordered or hashed tells two records
apart. -/
structure Alike (a b : Record) : Prop where
  same : a.same b = true
  key : a.key = b.key
  stableHash : a.stableHash = b.stableHash
  hashWrites : a.hashWrites = b.hashWrites
  order : forall other : Record, a.order other = b.order other ∧ other.order a = other.order b

theorem alike_of_same {a b : Record} (equal : a.same b = true) : Alike a b where
  same := equal
  key := key_eq_of_same equal
  stableHash := congrArg Xxh3.hash (key_eq_of_same equal)
  hashWrites := hashWrites_eq_of_same equal
  order := by
    intro other
    simp only [Record.order, key_eq_of_same equal, and_self]

end Record

/-- Equal values are of one kind and have the same data. -/
theorem Value.kind_and_data_of_same {u v : Value} (equal : u.same v = true) :
    u.kind = v.kind ∧ u.data = v.data := by
  have entries : (Entry.ofValue u).same (.ofValue v) = true := by rwa [Entry.same]
  have keys := Record.key_eq_of_same (Record.same_of_entry_same entries [] [])
  have frames := (List.cons.inj ((Record.key_eq_key_iff _ _).mp keys)).1
  exact ⟨congrArg Key.Frame.kind frames, congrArg Key.Frame.data frames⟩

/-- The entries of a record that was read, at every depth, are those of the frames that
stand in its key.  If there is a value for the data of a frame, it is of the kind of the
frame, and what goes out again for the frame is the data of the value.  So nothing tells a
record with this entry from one with an entry that was built from an equal value. -/
theorem Key.read_like_built {dialect : Option Dialect} {bytes : Bytes} {record : Record}
    (read : decode dialect bytes = .ok record) :
    (forall entry, entry ∈ record.preorder <->
      Exists fun frame => Stands dialect frame bytes ∧ frame.entry dialect = entry) ∧
    (forall found, frames dialect bytes = .ok found ->
      record.key = keyOfFrames (found.map (Frame.recoded dialect))) ∧
    (forall frame value, Stands dialect frame bytes -> frame.value dialect = .ok value ->
      value.kind = frame.kind ∧ recodedData dialect frame.kind frame.data = value.data ∧
      forall built : Value, value.same built = true ->
        built.kind = frame.kind ∧ recodedData dialect frame.kind frame.data = built.data ∧
        forall front back : Record,
          Record.Alike (front ++ frame.entry dialect :: back) (front ++ .ofValue built :: back)) := by
  refine ⟨mem_preorder_iff_stands read, ?_, ?_⟩
  · intro found accepted
    rcases decode_eq_ok_iff.mp read with ⟨again, acceptedAgain, rfl⟩
    rw [accepted] at acceptedAgain
    cases acceptedAgain
    exact key_of_frames accepted
  · intro frame value stands found
    have kind : value.kind = frame.kind := kind_of_valueOfData found
    have entry : frame.entry dialect = .ofValue value := Frame.entry_eq_ofValue_iff.mpr found
    have data : recodedData dialect frame.kind frame.data = value.data := by
      rw [Frame.recodedData_eq dialect stands.filled, entry, Entry.data]
    refine ⟨kind, data, ?_⟩
    intro built equal
    rcases Value.kind_and_data_of_same equal with ⟨kinds, datas⟩
    refine ⟨kinds.symm.trans kind, data.trans datas, ?_⟩
    intro front back
    have entries : (Entry.ofValue value).same (.ofValue built) = true := by rwa [Entry.same]
    rw [entry]
    exact Record.alike_of_same (Record.same_of_entry_same entries front back)

/-- A nested record in old codes and without its last separator is written again in
present codes and with it.  The cause for which it holds no integer does not matter. -/
theorem Key.read_like_built_from_old_codes :
    let inner : Record :=
      [.ofValue (.bytes [65]), .undecodable .integer [9] (.invalidLength .integer 4 1)]
    let built : Value := .record [.ofValue (.bytes [65]), .undecodable .integer [9] .emptyData]
    let frame : Frame := ⟨5, .record, [0, 65, separator, 2, 9]⟩
    let bytes : Bytes := [5, 0, 65, separator, separator, 2, 9, separator]
    decode (some .sherlock) bytes = .ok [.ofValue (.record inner)] ∧
      frames (some .sherlock) bytes = .ok [frame] ∧
      Stands (some .sherlock) frame bytes ∧
      frame.value (some .sherlock) = .ok (.record inner) ∧
      (Value.record inner).same built = true ∧
      recodedData (some .sherlock) .record [0, 65, separator, 2, 9] =
        [1, 65, separator, 3, 9, separator] ∧
      Record.Alike [frame.entry (some .sherlock)] [.ofValue built] := by
  intro inner built frame bytes
  have accepted : frames (some .sherlock) bytes = .ok [frame] := by decide +kernel
  have nested : decode (some .sherlock) [0, 65, separator, 2, 9] = .ok inner :=
    decode_eq_ok_iff.mpr
      ⟨[⟨0, .bytes, [65]⟩, ⟨2, .integer, [9]⟩], by decide +kernel, rfl⟩
  have read : decode (some .sherlock) bytes = .ok [.ofValue (.record inner)] := by
    refine decode_eq_ok_iff.mpr ⟨[frame], accepted, ?_⟩
    rw [List.map_singleton, Frame.entry_of_ok rfl nested]
  have stands : Stands (some .sherlock) frame bytes := .outside accepted List.mem_cons_self
  have value : frame.value (some .sherlock) = .ok (.record inner) :=
    valueOfData_eq_record_iff.mpr ⟨rfl, nested⟩
  have equal : (Value.record inner).same built = true := by decide
  rcases (read_like_built read).2.2 frame (.record inner) stands value with ⟨_, again, alike⟩
  rcases alike built equal with ⟨_, _, everywhere⟩
  exact ⟨read, accepted, stands, value, equal, again.trans (by decide), everywhere [] []⟩

end SortKey
