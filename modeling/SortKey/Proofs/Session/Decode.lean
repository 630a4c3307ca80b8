import SortKey.Proofs.Key.Reading
import SortKey.Session.Look

namespace SortKey

/-!
# Keys do not tell short texts

`legacyStrings` is about the length in front of a text in the stream form, and
keys have no such lengths.  So a key holds the same record in it as without a
dialect, or is refused for the same cause.

In a session this has to be said of more than one reading.  A cell remembers its
data together with the dialect, and the data of a nested record is read in that
dialect when its value is first asked for.  Sessions that differ in nothing but
the two dialects are kept in step: what is asked of both has the same answer, and
afterwards they still differ in nothing else.
-/

/-! ## What keys tell of a dialect -/

/-- The dialect, as far as keys can tell. -/
def Dialect.forKeys : Option Dialect -> Option Dialect
  | some .legacyStrings => none
  | dialect => dialect

theorem Key.agree_forKeys (dialect : Option Dialect) : Agree dialect (Dialect.forKeys dialect) := by
  rcases dialect with _ | dialect
  · exact fun _ => rfl
  · cases dialect with
    | sherlock => exact fun _ => rfl
    | legacyStrings => exact agree_legacyStrings

theorem Key.agree_of_forKeys_eq {dialect other : Option Dialect}
    (same : Dialect.forKeys dialect = Dialect.forKeys other) : Agree dialect other := by
  intro code
  rw [agree_forKeys dialect code, agree_forKeys other code, same]

/-- The same data, with its dialect as far as keys can tell. -/
def Source.forKeys (source : Source) : Source :=
  { source with dialect := Dialect.forKeys source.dialect }

namespace Cell

/-- The same cell, with the dialect of its source as far as keys can tell. -/
def forKeys (cell : Cell) : Cell :=
  { cell with source := cell.source.map Source.forKeys }

/-- Cells that keys do not tell apart differ in their sources alone. -/
theorem eq_of_forKeys_eq {cell other : Cell} (same : cell.forKeys = other.forKeys) :
    Exists fun source => other = { cell with source } ∧
      cell.source.map Source.forKeys = source.map Source.forKeys := by
  rcases cell with ⟨entry, source, nested, valueKnown, dataKnown⟩
  rcases other with ⟨_, other, _, _, _⟩
  rw [forKeys, forKeys, Cell.mk.injEq] at same
  rcases same with ⟨rfl, sources, rfl, rfl, rfl⟩
  exact ⟨other, rfl, sources⟩

theorem map_forKeys_ofFrame {dialect other : Option Dialect}
    (same : Dialect.forKeys dialect = Dialect.forKeys other) (found : List Key.Frame)
    (entries : List Entry) :
    (List.zipWith (ofFrame dialect) found entries).map forKeys =
      (List.zipWith (ofFrame other) found entries).map forKeys := by
  rw [List.map_zipWith, List.map_zipWith]
  have each : forall frame entry,
      (ofFrame dialect frame entry).forKeys = (ofFrame other frame entry).forKeys := by
    intro frame entry
    simp only [ofFrame, forKeys, Source.forKeys, Option.map_some, same]
  simp only [each]

end Cell

namespace Session

/-! ## Sessions that keys do not tell apart -/

/-- A session without what was reported, and with the dialects as far as keys can
tell. -/
def forKeys (session : Session) : Session :=
  ⟨session.storages.map (·.map Cell.forKeys), []⟩

private theorem getD_forKeys (session : Session) (storage : Nat) :
    session.forKeys.storages.getD storage #[] =
      (session.storages.getD storage #[]).map Cell.forKeys := by
  rw [forKeys, Array.getD_eq_getD_getElem?, Array.getD_eq_getD_getElem?, Array.getElem?_map]
  cases session.storages[storage]? with
  | none => exact Array.map_empty.symm
  | some cells => rfl

theorem cellAt?_forKeys (session : Session) (place : Place) :
    session.forKeys.cellAt? place = (session.cellAt? place).map Cell.forKeys := by
  rw [cellAt?, cellAt?, getD_forKeys, Array.getElem?_map]

theorem record_forKeys (session : Session) (slice : Slice) :
    session.forKeys.record slice = session.record slice := by
  rw [record, record, cells, cells, getD_forKeys, Array.toList_map, ← List.map_drop,
    ← List.map_take, List.map_map]
  rfl

theorem forKeys_setCell (session : Session) (place : Place) (cell : Cell) :
    ((setCell place cell).run session).2.forKeys =
      ((setCell place cell.forKeys).run session.forKeys).2 := by
  have storages : (session.storages.modify place.storage fun cells =>
        cells.setIfInBounds place.index cell).map (·.map Cell.forKeys) =
      (session.storages.map (·.map Cell.forKeys)).modify place.storage fun cells =>
        cells.setIfInBounds place.index cell.forKeys := by
    apply Array.ext_getElem?
    intro storage
    rw [Array.getElem?_map, Array.getElem?_modify, Array.getElem?_modify, Array.getElem?_map]
    split
    · cases session.storages[storage]? <;> simp [Array.map_setIfInBounds]
    · rfl
  exact congrArg (Session.mk · []) storages

section Alike

variable {a b : Session}

theorem record_eq (alike : a.forKeys = b.forKeys) (slice : Slice) :
    a.record slice = b.record slice := by
  rw [← record_forKeys, alike, record_forKeys]

theorem size_storages_eq (alike : a.forKeys = b.forKeys) : a.storages.size = b.storages.size := by
  have sizes := congrArg (fun session => session.storages.size) alike
  simpa only [forKeys, Array.size_map] using sizes

/-- At the same place there is no cell, or cells that differ in their sources. -/
theorem cellAt?_cases (alike : a.forKeys = b.forKeys) (place : Place) :
    (a.cellAt? place = none ∧ b.cellAt? place = none) ∨
      Exists fun cell => Exists fun source => a.cellAt? place = some cell ∧
        b.cellAt? place = some { cell with source } ∧
        cell.source.map Source.forKeys = source.map Source.forKeys := by
  have cells : (a.cellAt? place).map Cell.forKeys = (b.cellAt? place).map Cell.forKeys := by
    rw [← cellAt?_forKeys, ← cellAt?_forKeys, alike]
  cases foundA : a.cellAt? place with
  | none =>
      rw [foundA, Option.map_none, eq_comm, Option.map_eq_none_iff] at cells
      exact Or.inl ⟨rfl, cells⟩
  | some cell =>
      rw [foundA, Option.map_some, eq_comm, Option.map_eq_some_iff] at cells
      rcases cells with ⟨other, foundB, same⟩
      rcases Cell.eq_of_forKeys_eq same.symm with ⟨source, rfl, sources⟩
      exact Or.inr ⟨cell, source, rfl, foundB, sources⟩

end Alike

/-! ## In step

An action is in step with another when no difference between them shows, from
whichever sessions they start.  Each action of a session is in step with itself:
it is put together from smaller ones, and the smallest look at a session only
through its cells. -/

/-- In sessions that keys do not tell apart both actions have the same outcome,
and they leave such sessions. -/
def InStep {α : Type} (former present : SessionM α) : Prop :=
  forall a b : Session, a.forKeys = b.forKeys ->
    (former.run a).1 = (present.run b).1 ∧ (former.run a).2.forKeys = (present.run b).2.forKeys

namespace InStep

section Actions

variable {α β : Type}

protected theorem pure (outcome : α) : InStep (pure outcome) (pure outcome) :=
  fun _ _ alike => ⟨rfl, alike⟩

protected theorem bind {former present : SessionM α} {formerNext presentNext : α -> SessionM β}
    (first : InStep former present)
    (next : forall outcome, InStep (formerNext outcome) (presentNext outcome)) :
    InStep (former >>= formerNext) (present >>= presentNext) := by
  intro a b alike
  rcases first a b alike with ⟨outcomes, left⟩
  have later := next (former.run a).1 _ _ left
  rw [StateT.run_bind, StateT.run_bind]
  -- The next action runs in the session that the first one left.
  change ((formerNext (former.run a).1).run (former.run a).2).1 =
      ((presentNext (present.run b).1).run (present.run b).2).1 ∧
    ((formerNext (former.run a).1).run (former.run a).2).2.forKeys =
      ((presentNext (present.run b).1).run (present.run b).2).2.forKeys
  rw [← outcomes]
  exact later

protected theorem get {former present : Session -> SessionM α}
    (next : forall a b : Session, a.forKeys = b.forKeys -> InStep (former a) (present b)) :
    InStep (get >>= former) (get >>= present) :=
  fun a b alike => next a b alike a b alike

end Actions

/-! ### Cells and storages -/

theorem report (events others : List Event) :
    InStep (Session.report events) (Session.report others) :=
  fun _ _ alike => ⟨rfl, alike⟩

theorem store {cells others : List Cell} (same : cells.map Cell.forKeys = others.map Cell.forKeys) :
    InStep (Session.store cells) (Session.store others) := by
  have lengths := congrArg List.length same
  rw [List.length_map, List.length_map] at lengths
  cases cells with
  | nil =>
      cases others with
      | nil => exact InStep.pure _
      | cons y others => cases same
  | cons x cells =>
      cases others with
      | nil => cases same
      | cons y others =>
          intro a b alike
          have before := congrArg Session.storages alike
          -- The new storage has the same number on both sides.
          constructor
          · change Slice.mk a.storages.size 0 _ = Slice.mk b.storages.size 0 _
            rw [size_storages_eq alike, lengths]
          · change forKeys ⟨a.storages.push (x :: cells).toArray, _⟩ =
              forKeys ⟨b.storages.push (y :: others).toArray, _⟩
            simp only [forKeys] at before
            simp only [forKeys, Array.map_push, List.map_toArray, before, same]

theorem setCell (place : Place) {cell other : Cell} (same : cell.forKeys = other.forKeys) :
    InStep (Session.setCell place cell) (Session.setCell place other) := by
  intro a b alike
  refine ⟨rfl, ?_⟩
  rw [forKeys_setCell, forKeys_setCell, alike, same]

/-! ### Reading keys -/

theorem decode {dialect other : Option Dialect}
    (same : Dialect.forKeys dialect = Dialect.forKeys other) (bytes : Bytes) :
    InStep (Session.decode dialect bytes) (Session.decode other bytes) := by
  have agree := Key.agree_of_forKeys_eq same
  apply (report _ _).bind
  intro _
  rw [agree.frames_eq, agree.decode_eq]
  cases Key.frames other bytes with
  | error cause => exact InStep.pure _
  | ok found =>
      cases Key.decode other bytes with
      | error cause => exact InStep.pure _
      | ok record =>
          apply (store (Cell.map_forKeys_ofFrame same found record)).bind
          exact fun slice => InStep.pure _

theorem openRecord {source other : Source} (same : source.forKeys = other.forKeys)
    (entries : List Entry) :
    InStep (Session.openRecord source entries) (Session.openRecord other entries) := by
  rcases source with ⟨data, dialect⟩
  rcases other with ⟨_, other⟩
  rw [Source.forKeys, Source.forKeys, Source.mk.injEq] at same
  rcases same with ⟨rfl, same⟩
  apply (report _ _).bind
  intro _
  rw [(Key.agree_of_forKeys_eq same).frames_eq]
  cases Key.frames other data with
  | error cause => exact InStep.pure _
  | ok found => exact store (Cell.map_forKeys_ofFrame same found entries)

/-! ### Finding values -/

/-- What is known about a cell may grow in step. -/
private theorem setCell_of_sources (place : Place) {source other : Option Source}
    (same : source.map Source.forKeys = other.map Source.forKeys) (cell : Cell) :
    InStep (Session.setCell place { cell with source })
      (Session.setCell place { cell with source := other }) :=
  setCell place (congrArg (fun source => { cell with source }) same)

theorem access (place : Place) : InStep (Session.access place) (Session.access place) := by
  apply InStep.get
  intro a b alike
  rcases cellAt?_cases alike place with ⟨foundA, foundB⟩ | ⟨cell, other, foundA, foundB, sources⟩
  · rw [foundA, foundB]
    exact InStep.pure _
  · rcases cell with ⟨entry, source, nested, valueKnown, dataKnown⟩
    rw [foundA, foundB]
    cases source with
    | none =>
        cases other with
        | none => exact InStep.pure _
        | some other => cases sources
    | some source =>
        cases other with
        | none => cases sources
        | some other =>
            cases valueKnown with
            | true => exact InStep.pure _
            | false =>
                apply (report _ _).bind
                intro _
                -- Data is read here, each in its own dialect.
                cases entry with
                | ofValue value =>
                    cases value with
                    | record entries =>
                        apply (openRecord (Option.some.inj sources) entries).bind
                        intro nested
                        exact setCell_of_sources place sources ⟨_, none, nested, true, dataKnown⟩
                    | _ => exact setCell_of_sources place sources ⟨_, none, nested, true, dataKnown⟩
                | undecodable kind data cause =>
                    cases kind with
                    | record => exact report _ _
                    | _ => exact InStep.pure _

theorem nestedAt (place : Place) : InStep (Session.nestedAt place) (Session.nestedAt place) := by
  apply InStep.get
  intro a b alike
  rcases cellAt?_cases alike place with ⟨foundA, foundB⟩ | ⟨cell, other, foundA, foundB, _⟩
  · rw [foundA, foundB]
    exact InStep.pure _
  · rw [foundA, foundB]
    exact InStep.pure _

theorem rememberData (place : Place) :
    InStep (Session.rememberData place) (Session.rememberData place) := by
  apply InStep.get
  intro a b alike
  rcases cellAt?_cases alike place with ⟨foundA, foundB⟩ | ⟨cell, other, foundA, foundB, sources⟩
  · rw [foundA, foundB]
    exact InStep.pure _
  · rw [foundA, foundB]
    exact setCell_of_sources place sources { cell with dataKnown := true }

/-! ### Finding data -/

mutual

theorem dataOfValue (nested : Slice) : forall value : Value,
    InStep (Session.dataOfValue nested value) (Session.dataOfValue nested value)
  | .record entries => dataOfEntries nested 0 entries
  | .byte _ | .bytes _ | .double _ | .integer _ | .long _ | .text _ => InStep.pure _

theorem dataOfEntry (place : Place) : forall entry : Entry,
    InStep (Session.dataOfEntry place entry) (Session.dataOfEntry place entry)
  | .ofValue value => by
      apply InStep.get
      intro a b alike
      rcases cellAt?_cases alike place with ⟨foundA, foundB⟩ | ⟨cell, other, foundA, foundB, _⟩
      · rw [foundA, foundB]
        exact InStep.pure _
      · rw [foundA, foundB]
        dsimp only
        split
        · exact InStep.pure _
        · apply (access place).bind
          intro _
          apply (nestedAt place).bind
          intro nested
          apply (dataOfValue nested value).bind
          exact fun _ => rememberData place
  | .undecodable kind data cause => by
      apply InStep.get
      intro a b alike
      rcases cellAt?_cases alike place with ⟨foundA, foundB⟩ | ⟨cell, other, foundA, foundB, _⟩
      · rw [foundA, foundB]
        exact InStep.pure _
      · rw [foundA, foundB]
        dsimp only
        split
        · exact InStep.pure _
        · apply (access place).bind
          exact fun _ => rememberData place

theorem dataOfEntries (slice : Slice) (index : Nat) : forall entries : List Entry,
    InStep (Session.dataOfEntries slice index entries) (Session.dataOfEntries slice index entries)
  | [] => InStep.pure _
  | entry :: entries => by
      apply (dataOfEntry (placeOf slice index) entry).bind
      exact fun _ => dataOfEntries slice (index + 1) entries

end

/-! ### Walks -/

/-- Where a value is missing, the walk does the same. -/
def Steady (walk : Walk) : Prop :=
  forall place entry, InStep (walk.missing place entry) (walk.missing place entry)

theorem steady_upTo (levels : Nat) : Steady (.upTo levels) :=
  fun _ _ => InStep.pure _

mutual

theorem walkValue {walk : Walk} (steady : Steady walk) (nested : Slice) : forall value : Value,
    InStep (Session.walkValue walk nested value) (Session.walkValue walk nested value)
  | .record entries => by
      rw [Session.walkValue]
      split
      · have inner : Steady walk.inner := steady
        exact walkEntries inner nested 0 entries
      · exact InStep.pure _
  | .byte _ | .bytes _ | .double _ | .integer _ | .long _ | .text _ => InStep.pure _

theorem walkEntry {walk : Walk} (steady : Steady walk) (place : Place) : forall entry : Entry,
    InStep (Session.walkEntry walk place entry) (Session.walkEntry walk place entry)
  | .ofValue value => by
      apply (access place).bind
      intro _
      apply (nestedAt place).bind
      exact fun nested => walkValue steady nested value
  | .undecodable kind data cause => by
      apply (access place).bind
      exact fun _ => steady place _

theorem walkEntries {walk : Walk} (steady : Steady walk) (slice : Slice) (index : Nat) :
    forall entries : List Entry, InStep (Session.walkEntries walk slice index entries)
      (Session.walkEntries walk slice index entries)
  | [] => InStep.pure _
  | entry :: entries => by
      apply (walkEntry steady (placeOf slice index) entry).bind
      intro goOn
      cases goOn with
      | true => exact walkEntries steady slice (index + 1) entries
      | false => exact InStep.pure _

end

/-! ### What is asked -/

theorem key (slice : Slice) : InStep (Session.key slice) (Session.key slice) := by
  apply InStep.bind
  · apply InStep.get
    intro a b alike
    rw [record_eq alike]
    exact dataOfEntries slice 0 _
  · intro _
    apply InStep.get
    intro a b alike
    rw [record_eq alike]
    exact InStep.pure _

theorem look (levels : Nat) (slice : Slice) :
    InStep (Session.look levels slice) (Session.look levels slice) := by
  apply InStep.bind
  · apply InStep.get
    intro a b alike
    rw [record_eq alike]
    apply (walkEntries (steady_upTo levels) slice 0 _).bind
    exact fun _ => InStep.pure _
  · intro _
    apply InStep.get
    intro a b alike
    rw [record_eq alike]
    exact InStep.pure _

theorem get? (levels : Nat) (slice : Slice) (index : Nat) :
    InStep (Session.get? levels slice index) (Session.get? levels slice index) := by
  apply InStep.get
  intro a b alike
  rw [record_eq alike]
  cases (b.record slice).entryAt index with
  | error cause => exact InStep.pure _
  | ok entry =>
      apply (walkEntry (steady_upTo levels) (placeOf slice index) entry).bind
      exact fun _ => InStep.pure _

/-- Values may have been found before, at any places and in any order. -/
theorem accesses (places : List Place) :
    InStep (places.forM Session.access) (places.forM Session.access) := by
  induction places with
  | nil => exact InStep.pure _
  | cons place places ih => exact (access place).bind fun _ => ih

end InStep

/-- A key holds the same record in `legacyStrings` as without a dialect, or is
refused for the same cause.  What a session shows of it is the same too, whichever
values have been found before: each slice shows the same record with the same key,
and each value, or the cause for which there is none, is the same at every depth. -/
theorem decode_legacyStrings (bytes : Bytes) :
    Key.decode (some .legacyStrings) bytes = Key.decode none bytes ∧
    forall session : Session,
      let former := (decode (some .legacyStrings) bytes).run session
      let present := (decode none bytes).run session
      former.1 = present.1 ∧ forall places : List Place,
        let formerLater := ((places.forM access).run former.2).2
        let presentLater := ((places.forM access).run present.2).2
        forall slice : Slice,
          formerLater.record slice = presentLater.record slice ∧
          ((key slice).run formerLater).1 = ((key slice).run presentLater).1 ∧
          forall levels : Nat,
            ((look levels slice).run formerLater).1 = ((look levels slice).run presentLater).1 ∧
            forall index : Nat, ((get? levels slice index).run formerLater).1 =
              ((get? levels slice index).run presentLater).1 := by
  refine ⟨Key.agree_legacyStrings.decode_eq bytes, ?_⟩
  intro session former present
  have same : Dialect.forKeys (some .legacyStrings) = Dialect.forKeys none := rfl
  have decoded := InStep.decode same bytes
  rcases decoded session session rfl with ⟨outcomes, left⟩
  refine ⟨outcomes, ?_⟩
  intro places formerLater presentLater slice
  have alike : formerLater.forKeys = presentLater.forKeys :=
    (InStep.accesses places former.2 present.2 left).2
  refine ⟨record_eq alike slice, (InStep.key slice _ _ alike).1, ?_⟩
  intro levels
  refine ⟨(InStep.look levels slice _ _ alike).1, ?_⟩
  exact fun index => (InStep.get? levels slice index _ _ alike).1

end Session
end SortKey
