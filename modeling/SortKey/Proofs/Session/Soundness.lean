import Mathlib.Data.List.GetD
import SortKey.Proofs.Session.Slice
import SortKey.Session.Look

namespace SortKey
namespace Session

/-!
# Sessions only grow

An entry that was stored stays where it is and as it is.  Values that are found change
what is known about a cell, and make new storages for nested records, but a slice of a
session shows the same in every session that comes of it.  Hence it is enough to say of
each action that its slices lie in the session that it leaves.

There is one empty slice.  Everything that could make another one makes that one, so a
slice that is not empty shows at least one entry.
-/

/-! ## Entries and slices -/

/-- The entries in all storages. -/
def shown (session : Session) : List (List Entry) :=
  session.storages.toList.map fun cells => cells.toList.map Cell.entry

theorem getD_shown (session : Session) (storage : Nat) :
    session.shown.getD storage [] = (session.storages.getD storage #[]).toList.map Cell.entry := by
  rw [shown, List.getD_eq_getElem?_getD, List.getElem?_map, Array.getElem?_toList,
    Array.getD_eq_getD_getElem?]
  cases session.storages[storage]? <;> rfl

theorem record_eq_shown (session : Session) (slice : Slice) :
    session.record slice =
      ((session.shown.getD slice.storage []).drop slice.first).take slice.count := by
  rw [record, cells, List.map_take, List.map_drop, getD_shown]

theorem map_entry_cellAt? (session : Session) (place : Place) :
    (session.cellAt? place).map Cell.entry =
      (session.shown.getD place.storage [])[place.index]? := by
  rw [getD_shown, List.getElem?_map, Array.getElem?_toList]
  rfl

/-- The other session has the same entries, and perhaps more storages. -/
def Extends (before after : Session) : Prop :=
  before.shown <+: after.shown

theorem Extends.refl (session : Session) : session.Extends session :=
  List.prefix_refl session.shown

theorem Extends.trans {first second third : Session} (earlier : first.Extends second)
    (later : second.Extends third) : first.Extends third :=
  List.IsPrefix.trans earlier later

/-- The empty slice, or one of at least one entry that does not reach outside its
storage. -/
def Within (session : Session) (slice : Slice) : Prop :=
  slice = Slice.empty ∨
    (0 < slice.count ∧ slice.first + slice.count ≤ (session.shown.getD slice.storage []).length)

theorem within_empty (session : Session) : session.Within Slice.empty :=
  .inl rfl

/-- A failure, or such a slice. -/
def WithinIfOk (session : Session) (answer : Except RecordError Slice) : Prop :=
  forall slice, answer = .ok slice -> session.Within slice

theorem withinIfOk_error (session : Session) (cause : RecordError) :
    session.WithinIfOk (.error cause) := by
  intro slice found
  cases found

theorem Within.ifOk {session : Session} {slice : Slice} (within : session.Within slice) :
    session.WithinIfOk (.ok slice) := by
  intro found same
  exact Except.ok.inj same ▸ within

section Growing

variable {before after : Session} {slice : Slice}

theorem Extends.getD_eq (grown : before.Extends after) {storage : Nat}
    (there : before.shown.getD storage [] ≠ []) :
    after.shown.getD storage [] = before.shown.getD storage [] := by
  rcases grown with ⟨more, grown⟩
  have inside : storage < before.shown.length := by
    apply Nat.lt_of_not_le
    intro outside
    exact there (List.getD_eq_default _ _ outside)
  rw [← grown, List.getD_append _ _ _ _ inside]

theorem Within.getD_eq (within : before.Within slice) (some : slice ≠ Slice.empty)
    (grown : before.Extends after) :
    after.shown.getD slice.storage [] = before.shown.getD slice.storage [] := by
  rcases within with none | ⟨counted, inside⟩
  · exact absurd none some
  · apply grown.getD_eq
    intro none
    rw [none, List.length_nil] at inside
    omega

theorem Within.mono (within : before.Within slice) (grown : before.Extends after) :
    after.Within slice := by
  by_cases none : slice = Slice.empty
  · exact .inl none
  · have same := within.getD_eq none grown
    rcases within with none' | ⟨counted, inside⟩
    · exact absurd none' none
    · exact .inr ⟨counted, same ▸ inside⟩

/-- A slice shows the same later on. -/
theorem Within.record_eq (within : before.Within slice) (grown : before.Extends after) :
    after.record slice = before.record slice := by
  by_cases none : slice = Slice.empty
  · rw [none, record, record, cells_empty, cells_empty]
  · rw [record_eq_shown, record_eq_shown, within.getD_eq none grown]

theorem Within.length_record (within : before.Within slice) :
    (before.record slice).length = slice.count := by
  rcases within with rfl | ⟨_, inside⟩
  · rw [record, cells_empty]
    rfl
  · rw [record_eq_shown, List.length_take, List.length_drop]
    omega

theorem Within.record_eq_nil_iff (within : before.Within slice) :
    before.record slice = [] <-> slice = Slice.empty := by
  constructor
  · intro none
    have length := within.length_record
    rw [none, List.length_nil] at length
    rcases within with same | ⟨counted, _⟩
    · exact same
    · omega
  · rintro rfl
    rw [record, cells_empty]
    rfl

/-- A range of a slice lies where the slice does. -/
theorem Within.subrange (within : before.Within slice) {part : Slice} {start stop : Nat}
    (taken : slice.subrange start stop = .ok part) : before.Within part := by
  rcases Slice.subrange_eq_ok_iff.mp taken with ⟨ordered, inside, rfl⟩
  split
  · exact before.within_empty
  · next different =>
      rcases within with rfl | ⟨_, reaches⟩
      · have none : stop ≤ 0 := inside
        omega
      · refine .inr ⟨Nat.sub_pos_of_lt (Nat.lt_of_le_of_ne ordered different), ?_⟩
        dsimp only
        omega

/-- An entry stays at its place. -/
theorem Extends.entry_eq (grown : before.Extends after) {place : Place} {entry : Entry}
    (there : (before.cellAt? place).map Cell.entry = some entry) :
    (after.cellAt? place).map Cell.entry = some entry := by
  rw [map_entry_cellAt?] at there ⊢
  rw [grown.getD_eq]
  · exact there
  · intro none
    rw [none] at there
    cases there

end Growing

/-! ## Sound sessions -/

/-- A session that came of the first one, and whose cells know nothing but slices of it. -/
structure Sound (session : Session) : Prop where
  started : Session.start.Extends session
  nested : ∀ cells ∈ session.storages, ∀ cell ∈ cells, session.Within cell.nested

theorem Sound.start : Session.start.Sound where
  started := Extends.refl _
  nested := by
    intro cells member cell inside
    rw [Session.start, List.mem_toArray, List.mem_singleton] at member
    rw [member] at inside
    exact absurd inside (Array.not_mem_empty cell)

/-- Storage zero stays empty. -/
theorem Sound.storage_zero {session : Session} (sound : session.Sound) :
    session.storages[0]? = some #[] := by
  rcases sound.started with ⟨more, shown⟩
  have first : session.shown[0]? = some [] := by
    rw [← shown]
    rfl
  rw [Session.shown, List.getElem?_map, Array.getElem?_toList, Option.map_eq_some_iff] at first
  rcases first with ⟨cells, stored, none⟩
  rw [stored, Array.toList_eq_nil_iff.mp (List.map_eq_nil_iff.mp none)]

/-- Cells that come from a key know nothing yet. -/
theorem within_ofFrame (session : Session) (dialect : Option Dialect) (frames : List Key.Frame)
    (entries : List Entry) :
    ∀ cell ∈ List.zipWith (Cell.ofFrame dialect) frames entries, session.Within cell.nested := by
  intro cell member
  rw [← List.map_uncurry_zip_eq_zipWith] at member
  rcases List.mem_map.mp member with ⟨_, _, rfl⟩
  exact session.within_empty

/-- What the cell at a place knows is a slice of the session. -/
theorem Sound.within_of_cellAt? {session : Session} (sound : session.Sound) {place : Place}
    {cell : Cell} (found : session.cellAt? place = some cell) : session.Within cell.nested := by
  rw [cellAt?, Array.getD_eq_getD_getElem?] at found
  cases stored : session.storages[place.storage]? with
  | none =>
      rw [stored] at found
      cases found
  | some cells =>
      rw [stored] at found
      exact sound.nested cells (Array.mem_of_getElem? stored) cell (Array.mem_of_getElem? found)

theorem Sound.within_of_mem_cells {session : Session} (sound : session.Sound) {slice : Slice}
    {cell : Cell} (shows : cell ∈ session.cells slice) : session.Within cell.nested := by
  have stored := List.mem_of_mem_drop (List.mem_of_mem_take shows)
  rw [Array.mem_toList_iff, Array.mem_iff_getElem?] at stored
  rcases stored with ⟨index, found⟩
  have there : session.cellAt? ⟨slice.storage, index⟩ = some cell := found
  exact sound.within_of_cellAt? there

/-! ## Growing

Actions are put together from small ones.  What is known of the outcome of the first is
known in the session in which the next one starts. -/

/-- The action leaves a sound session that has grown, with an outcome that has the
property there. -/
def Grows {α : Type} (before : Session) (action : SessionM α) (post : Session -> α -> Prop) :
    Prop :=
  let done := action.run before
  done.2.Sound ∧ before.Extends done.2 ∧ post done.2 done.1

namespace Grows

section Actions

variable {α β : Type} {before : Session} {post : Session -> α -> Prop}

protected theorem pure {outcome : α} (sound : before.Sound) (holds : post before outcome) :
    Grows before (pure outcome) post :=
  ⟨sound, Extends.refl before, holds⟩

protected theorem bind {first : SessionM β} {next : β -> SessionM α} {mid : Session -> β -> Prop}
    (here : Grows before first mid)
    (later : forall after outcome, after.Sound -> before.Extends after -> mid after outcome ->
      Grows after (next outcome) post) :
    Grows before (first >>= next) post := by
  rcases here with ⟨sound, grown, found⟩
  rcases later _ _ sound grown found with ⟨soundLater, grownLater, foundLater⟩
  exact ⟨soundLater, grown.trans grownLater, foundLater⟩

protected theorem get {action : Session -> SessionM α} (next : Grows before (action before) post) :
    Grows before (get >>= action) post :=
  next

protected theorem imp {action : SessionM α} {weaker : Session -> α -> Prop}
    (grows : Grows before action post)
    (implied : forall after outcome, post after outcome -> weaker after outcome) :
    Grows before action weaker :=
  ⟨grows.1, grows.2.1, implied _ _ grows.2.2⟩

end Actions

/-! ### Cells and storages -/

section Storages

variable {before : Session}

theorem report (sound : before.Sound) (events : List Event) :
    Grows before (Session.report events) fun _ _ => True :=
  ⟨⟨sound.started, sound.nested⟩, Extends.refl before, trivial⟩

theorem store (sound : before.Sound) {cells : List Cell}
    (known : ∀ cell ∈ cells, before.Within cell.nested) :
    Grows before (Session.store cells) fun after slice => after.Within slice := by
  cases cells with
  | nil => exact Grows.pure sound before.within_empty
  | cons first others =>
      let cells := (first :: others).toArray
      let after : Session := { before with storages := before.storages.push cells }
      have shown : after.shown = before.shown ++ [(first :: others).map Cell.entry] := by
        simp [after, cells, Session.shown]
      have grown : before.Extends after := ⟨_, shown.symm⟩
      refine ⟨⟨sound.started.trans grown, ?_⟩, grown, ?_⟩
      · intro storage member cell inside
        rcases Array.mem_push.mp member with old | rfl
        · exact (sound.nested storage old cell inside).mono grown
        · exact (known cell (List.mem_toArray.mp inside)).mono grown
      · refine .inr ⟨Nat.succ_pos _, ?_⟩
        -- The new storage has the number of those before it.
        change 0 + (first :: others).length ≤ (after.shown.getD before.storages.size []).length
        have size : before.shown.length = before.storages.size := by simp [Session.shown]
        simp [shown, ← size]

/-- An entry that is put where it was before changes no entries. -/
private theorem shown_setCell {place : Place} {cell : Cell}
    (same : (before.cellAt? place).map Cell.entry = some cell.entry) :
    ((Session.setCell place cell).run before).2.shown = before.shown := by
  apply List.ext_getElem?
  intro storage
  change ((before.storages.modify place.storage _).toList.map _)[storage]? = _
  rw [shown, List.getElem?_map, List.getElem?_map, Array.getElem?_toList, Array.getElem?_toList,
    Array.getElem?_modify]
  split
  · next here =>
      subst here
      rw [cellAt?, Array.getD_eq_getD_getElem?] at same
      cases stored : before.storages[place.storage]? with
      | none => rfl
      | some cells =>
          rw [stored, Option.getD_some, ← Array.getElem?_toList, ← List.getElem?_map] at same
          rcases List.getElem?_eq_some_iff.mp same with ⟨inside, entry⟩
          rw [Option.map_some, Option.map_some, Option.map_some, Array.toList_setIfInBounds,
            List.map_set, ← entry, List.set_getElem_self]
  · rfl

theorem setCell (sound : before.Sound) {place : Place} {cell : Cell}
    (same : (before.cellAt? place).map Cell.entry = some cell.entry)
    (known : before.Within cell.nested) :
    Grows before (Session.setCell place cell) fun _ _ => True := by
  have shown := shown_setCell same
  have grown : before.Extends ((Session.setCell place cell).run before).2 :=
    ⟨[], by rw [List.append_nil, shown]⟩
  refine ⟨⟨sound.started.trans grown, ?_⟩, grown, trivial⟩
  intro cells member other inside
  apply Within.mono _ grown
  rcases Array.mem_iff_getElem?.mp member with ⟨storage, stored⟩
  change (before.storages.modify place.storage _)[storage]? = some cells at stored
  rw [Array.getElem?_modify] at stored
  split at stored
  · rcases Option.map_eq_some_iff.mp stored with ⟨old, was, rfl⟩
    rcases Array.mem_or_eq_of_mem_setIfInBounds inside with inside | rfl
    · exact sound.nested old (Array.mem_of_getElem? was) other inside
    · exact known
  · exact sound.nested cells (Array.mem_of_getElem? stored) other inside

/-! ### Finding values -/

theorem openRecord (sound : before.Sound) (source : Source) (entries : List Entry) :
    Grows before (Session.openRecord source entries) fun after slice => after.Within slice := by
  apply (report sound _).bind
  intro after _ sound _ _
  split
  · exact store sound (after.within_ofFrame _ _ entries)
  · exact Grows.pure sound after.within_empty

theorem access (sound : before.Sound) (place : Place) :
    Grows before (Session.access place) fun _ _ => True := by
  apply Grows.get
  cases found : before.cellAt? place with
  | none => exact Grows.pure sound trivial
  | some cell =>
      have known := sound.within_of_cellAt? found
      have there := congrArg (Option.map Cell.entry) found
      rcases cell with ⟨entry, source, nested, valueKnown, dataKnown⟩
      cases source with
      | none => exact Grows.pure sound trivial
      | some source =>
          cases valueKnown with
          | true => exact Grows.pure sound trivial
          | false =>
              apply Grows.bind (report sound _)
              intro after _ sound grown _
              cases entry with
              | ofValue value =>
                  cases value with
                  | record entries =>
                      apply Grows.bind (openRecord sound source entries)
                      intro later slice sound opened within
                      -- Opening the record moved no entry, so the cell goes back to its place.
                      exact setCell sound ((grown.trans opened).entry_eq there) within
                  | _ => exact setCell sound (grown.entry_eq there) (known.mono grown)
              | undecodable kind data cause =>
                  cases kind with
                  | record => exact report sound _
                  | _ => exact Grows.pure sound trivial

theorem nestedAt (sound : before.Sound) (place : Place) :
    Grows before (Session.nestedAt place) fun after slice => after.Within slice := by
  apply Grows.get
  apply Grows.pure sound
  cases found : before.cellAt? place with
  | none => exact before.within_empty
  | some cell => exact sound.within_of_cellAt? found

theorem rememberData (sound : before.Sound) (place : Place) :
    Grows before (Session.rememberData place) fun _ _ => True := by
  apply Grows.get
  cases found : before.cellAt? place with
  | none => exact Grows.pure sound trivial
  | some cell =>
      have known := sound.within_of_cellAt? found
      exact setCell sound (congrArg (Option.map Cell.entry) found) known

/-! ### Making records -/

theorem decode (sound : before.Sound) (dialect : Option Dialect) (bytes : Bytes) :
    Grows before (Session.decode dialect bytes) WithinIfOk := by
  apply Grows.bind (report sound _)
  intro after _ sound _ _
  split
  · next frames record _ _ =>
      apply Grows.bind (store sound (after.within_ofFrame dialect frames record))
      exact fun later slice sound _ within => Grows.pure sound within.ifOk
  · exact Grows.pure sound (after.withinIfOk_error _)
  · exact Grows.pure sound (after.withinIfOk_error _)

end Storages

/-! Nested records are stored first, and later storages leave them where they are. -/

mutual

theorem storedCells : forall (entries : List Entry) {before : Session}, before.Sound ->
    Grows before (Session.storedCells entries) fun after cells =>
      ∀ cell ∈ cells, after.Within cell.nested
  | [], before, sound => Grows.pure sound (List.forall_mem_nil _)
  | entry :: entries, before, sound => by
      apply Grows.bind (storedCell entry sound)
      intro after cell sound _ known
      apply Grows.bind (storedCells entries sound)
      intro later cells sound grown others
      -- The first cell is known from before the others were stored.
      apply Grows.pure sound
      exact List.forall_mem_cons.mpr ⟨known.mono grown, others⟩

theorem storedCell : forall (entry : Entry) {before : Session}, before.Sound ->
    Grows before (Session.storedCell entry) fun after cell => after.Within cell.nested
  | .ofValue value, _, sound => storedValue value sound
  | .undecodable _ _ _, before, sound => Grows.pure sound before.within_empty

theorem storedValue : forall (value : Value) {before : Session}, before.Sound ->
    Grows before (Session.storedValue value) fun after cell => after.Within cell.nested
  | .record entries, before, sound => by
      apply Grows.bind (storedCells entries sound)
      intro after cells sound _ known
      apply Grows.bind (store sound known)
      exact fun later slice sound _ within => Grows.pure sound within
  | .byte _, before, sound | .bytes _, before, sound | .double _, before, sound
  | .integer _, before, sound | .long _, before, sound | .text _, before, sound =>
      Grows.pure sound before.within_empty

end

section Making

variable {before : Session}

theorem storeRecord (sound : before.Sound) (record : Record) :
    Grows before (Session.storeRecord record) fun after slice => after.Within slice := by
  apply Grows.bind (storedCells record sound)
  exact fun after cells sound _ known => store sound known

theorem keepStream (sound : before.Sound) (step : Stream.Step Record) :
    Grows before (Session.keepStream step) WithinIfOk := by
  apply Grows.bind (report sound step.events)
  intro after _ sound _ _
  cases step.result with
  | ok record =>
      apply Grows.bind (storeRecord sound record)
      exact fun later slice sound _ within => Grows.pure sound within.ifOk
  | error cause => exact Grows.pure sound (after.withinIfOk_error cause)

/-- A nested record is a slice of the session. -/
theorem takeRecord (sound : before.Sound) (slice : Slice) (index : Nat) :
    Grows before (Session.takeRecord slice index) WithinIfOk := by
  apply Grows.get
  cases (before.record slice).entryAt index with
  | error cause => exact Grows.pure sound (before.withinIfOk_error cause)
  | ok entry =>
      dsimp only
      split
      · exact Grows.pure sound (before.withinIfOk_error _)
      · apply Grows.bind (access sound _)
        intro after _ sound _ _
        split
        · apply Grows.bind (nestedAt sound _)
          exact fun later slice sound _ within => Grows.pure sound within.ifOk
        · exact Grows.pure sound (after.withinIfOk_error _)

end Making

end Grows
end Session

/-! ## Builders -/

namespace Builder

/-- What the cells collected so far know are slices of the session. -/
def Within (session : Session) (builder : Builder) : Prop :=
  ∀ cell ∈ builder.cells, session.Within cell.nested

theorem within_empty (session : Session) : Within session Builder.empty := by
  intro cell member
  exact absurd member (Array.not_mem_empty cell)

variable {before : Session} {builder : Builder}

theorem Within.mono {after : Session} (within : Within before builder)
    (grown : before.Extends after) : Within after builder :=
  fun cell member => (within cell member).mono grown

theorem within_ofSlice (sound : before.Sound) (slice : Slice) :
    Within before (Builder.ofSlice before slice) :=
  fun _ member => sound.within_of_mem_cells (List.mem_toArray.mp member)

theorem Within.push (within : Within before builder) {cell : Cell}
    (known : before.Within cell.nested) : Within before ⟨builder.cells.push cell⟩ := by
  intro other member
  rcases Array.mem_push.mp member with old | rfl
  · exact within other old
  · exact known

theorem Within.append (within : Within before builder) (sound : before.Sound) (slice : Slice) :
    before.Grows (builder.append slice) Within := by
  apply Session.Grows.get
  apply Session.Grows.pure sound
  intro cell member
  rcases Array.mem_append.mp member with old | new
  · exact within cell old
  · exact sound.within_of_mem_cells (List.mem_toArray.mp new)

/-- What is added is a value, or a record whose slice lies in the session. -/
theorem Within.add (within : Within before builder) (sound : before.Sound) {part : Part}
    (known : forall slice, part = .nested slice -> before.Within slice) :
    before.Grows (builder.add part) Within := by
  cases part with
  | value value =>
      dsimp only [Builder.add]
      split
      · apply Session.Grows.bind (Session.Grows.report sound _)
        intro after _ sound grown _
        exact Session.Grows.pure sound ((within.mono grown).push after.within_empty)
      · exact Session.Grows.pure sound (within.push before.within_empty)
  | nested slice =>
      apply Session.Grows.get
      exact Session.Grows.pure sound (within.push (known slice rfl))

/-- Adding parts in order. -/
theorem Within.addAll {parts : List Part} (within : Within before builder) (sound : before.Sound)
    (known : ∀ part ∈ parts, forall slice, part = .nested slice -> before.Within slice) :
    before.Grows (parts.foldlM (fun builder part => builder.add part) builder) Within := by
  induction parts generalizing before builder with
  | nil => exact Session.Grows.pure sound within
  | cons part parts ih =>
      rw [List.foldlM_cons]
      rw [List.forall_mem_cons] at known
      apply Session.Grows.bind (within.add sound known.1)
      intro after builder sound grown within
      exact ih within sound fun part member slice same => (known.2 part member slice same).mono grown

/-- A part that is missing is refused. -/
theorem Within.tryAdd (within : Within before builder) (sound : before.Sound) {part : Option Part}
    (known : forall slice, part = some (.nested slice) -> before.Within slice) :
    before.Grows (builder.tryAdd part) fun after answer =>
      forall builder, answer = .ok builder -> Within after builder := by
  cases part with
  | none =>
      apply Session.Grows.pure sound
      intro builder found
      cases found
  | some part =>
      apply Session.Grows.bind (within.add sound fun slice same => known slice (congrArg some same))
      intro after builder sound _ within
      apply Session.Grows.pure sound
      intro other same
      exact Except.ok.inj same ▸ within

theorem Within.build (within : Within before builder) (sound : before.Sound) :
    before.Grows builder.build fun after slice => after.Within slice :=
  Session.Grows.store sound fun cell member => within cell (Array.mem_toList_iff.mp member)

end Builder
end SortKey
