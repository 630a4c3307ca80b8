import SortKey.Session.Held
import SortKey.Proofs.Session.Looks

namespace SortKey

/-!
# Records that are held are ranges

A record that was handed out is a range of a storage, wherever it comes from: a builder,
a key, a stream, a range of another record or a nested record.  Further requests leave it
where it is and do not change what it shows, and a record without entries is the one
empty slice.  Each request keeps this, so it holds after all of them.
-/

namespace Holding

/-- Whatever was handed out lies in the session. -/
structure Sound (holding : Holding) : Prop where
  session : holding.session.Sound
  slices : ∀ slice ∈ holding.slices, holding.session.Within slice
  builders : ∀ builder ∈ holding.builders, Builder.Within holding.session builder

theorem Sound.start : Holding.start.Sound where
  session := Session.Sound.start
  slices := List.forall_mem_nil _
  builders := List.forall_mem_nil _

/-- What was handed out before is still there. -/
structure Follows (holding later : Holding) : Prop where
  sound : later.Sound
  grown : holding.session.Extends later.session
  kept : holding.slices <+: later.slices

theorem Follows.refl {holding : Holding} (sound : holding.Sound) : holding.Follows holding :=
  ⟨sound, Session.Extends.refl _, List.prefix_refl _⟩

theorem Follows.trans {first second third : Holding} (earlier : first.Follows second)
    (later : second.Follows third) : first.Follows third :=
  ⟨later.sound, earlier.grown.trans later.grown, earlier.kept.trans later.kept⟩

section Steps

variable {holding : Holding}

/-- What was handed out lies in every later session. -/
theorem Sound.mono (sound : holding.Sound) {after : Session} (later : after.Sound)
    (grown : holding.session.Extends after) : Sound { holding with session := after } where
  session := later
  slices := fun slice member => (sound.slices slice member).mono grown
  builders := fun builder member => (sound.builders builder member).mono grown

theorem Sound.slice (sound : holding.Sound) (of : Nat) :
    holding.session.Within (holding.slice of) := by
  rw [Holding.slice, List.getD_eq_getElem?_getD]
  cases found : holding.slices[of]? with
  | none => exact holding.session.within_empty
  | some slice => exact sound.slices slice (List.mem_of_getElem? found)

theorem Sound.builder (sound : holding.Sound) (number : Nat) :
    Builder.Within holding.session (holding.builder number) := by
  rw [Holding.builder, List.getD_eq_getElem?_getD]
  cases found : holding.builders[number]? with
  | none => exact Builder.within_empty _
  | some builder => exact sound.builders builder (List.mem_of_getElem? found)

theorem Sound.part (sound : holding.Sound) {item : Item} :
    forall slice, holding.part item = .nested slice -> holding.session.Within slice := by
  intro slice same
  cases item with
  | value value => cases same
  | held of =>
      cases same
      exact sound.slice of

theorem Sound.push (sound : holding.Sound) {slice : Slice} (within : holding.session.Within slice) :
    Sound { holding with slices := holding.slices ++ [slice] } where
  session := sound.session
  slices := by
    intro other member
    rcases List.mem_append.mp member with old | new
    · exact sound.slices other old
    · rw [List.mem_singleton.mp new]
      exact within
  builders := sound.builders

theorem Sound.pushBuilder (sound : holding.Sound) {builder : Builder}
    (within : Builder.Within holding.session builder) :
    Sound { holding with builders := holding.builders ++ [builder] } where
  session := sound.session
  slices := sound.slices
  builders := by
    intro other member
    rcases List.mem_append.mp member with old | new
    · exact sound.builders other old
    · rw [List.mem_singleton.mp new]
      exact within

theorem Sound.setBuilder (sound : holding.Sound) (number : Nat) {builder : Builder}
    (within : Builder.Within holding.session builder) :
    Sound { holding with builders := holding.builders.set number builder } where
  session := sound.session
  slices := sound.slices
  builders := by
    intro other member
    rcases List.mem_or_eq_of_mem_set member with old | rfl
    · exact sound.builders other old
    · exact within

/-! ## One request -/

theorem Sound.keep (sound : holding.Sound) {action : SessionM Slice}
    (grows : holding.session.Grows action fun after slice => after.Within slice) :
    holding.Follows (holding.keep action) := by
  rcases grows with ⟨later, grown, within⟩
  exact ⟨(sound.mono later grown).push within, grown, List.prefix_append _ _⟩

theorem Sound.keepOk (sound : holding.Sound) {action : SessionM (Except RecordError Slice)}
    (grows : holding.session.Grows action Session.WithinIfOk) :
    holding.Follows (holding.keepOk action) := by
  rcases grows with ⟨later, grown, within⟩
  have moved := sound.mono later grown
  unfold Holding.keepOk
  dsimp only
  cases answer : (action.run holding.session).1 with
  | ok slice => exact ⟨moved.push (within slice answer), grown, List.prefix_append _ _⟩
  | error cause => exact ⟨moved, grown, List.prefix_refl _⟩

theorem Sound.replace (sound : holding.Sound) (number : Nat) {action : SessionM Builder}
    (grows : holding.session.Grows action Builder.Within) :
    holding.Follows (holding.replace number action) := by
  rcases grows with ⟨later, grown, within⟩
  exact ⟨(sound.mono later grown).setBuilder number within, grown, List.prefix_refl _⟩

theorem Sound.replaceOk (sound : holding.Sound) (number : Nat)
    {action : SessionM (Except RecordError Builder)}
    (grows : holding.session.Grows action fun after answer =>
      forall builder, answer = .ok builder -> Builder.Within after builder) :
    holding.Follows (holding.replaceOk number action) := by
  rcases grows with ⟨later, grown, within⟩
  have moved := sound.mono later grown
  unfold Holding.replaceOk
  dsimp only
  cases answer : (action.run holding.session).1 with
  | ok builder => exact ⟨moved.setBuilder number (within builder answer), grown, List.prefix_refl _⟩
  | error cause => exact ⟨moved, grown, List.prefix_refl _⟩

theorem Sound.forget (sound : holding.Sound) {α : Type} {action : SessionM α}
    (keeps : Session.Keeps action) : holding.Follows (holding.forget action) := by
  rcases keeps holding.session sound.session with ⟨later, grown, _⟩
  exact ⟨sound.mono later grown, grown, List.prefix_refl _⟩

theorem Sound.look (sound : holding.Sound) (looking : Look) :
    holding.Follows (holding.look looking) := by
  cases looking with
  | dump levels of => exact sound.forget (Session.Keeps.look levels _)
  | values levels of => exact sound.forget (Session.Keeps.values levels _)
  | text of => exact sound.forget (Session.Keeps.showText _)
  | key of => exact sound.forget (Session.Keeps.key _)
  | stableHash of => exact sound.forget (Session.Keeps.stableHash _)
  | keyPrefix of terminated count => exact sound.forget (Session.Keeps.keyPrefix _ terminated count)
  | write of writer => exact sound.forget (Session.Keeps.writeTo _ writer)
  | stream of => exact sound.forget (Session.Keeps.stream _)
  | get levels of index => exact sound.forget (Session.Keeps.get? levels _ index)
  | getAs levels of index expected => exact sound.forget (Session.Keeps.getAs levels _ index expected)
  | entry levels of index => exact sound.forget (Session.Keeps.entry levels _ index)
  | valueText of index => exact sound.forget (Session.Keeps.valueText _ index)
  | intoValue levels of index => exact sound.forget (Session.Keeps.intoValue levels _ index)
  | compare a b => exact sound.forget (Session.Keeps.compare _ _)
  | compareEntries a i b j => exact sound.forget (Session.Keeps.compareEntriesAt _ i _ j)

/-- A range of a record that is held lies where the record does. -/
theorem Sound.keepRange (sound : holding.Sound) {of start stop : Nat} :
    holding.Follows (holding.keepOk (return (holding.slice of).subrange start stop)) :=
  sound.keepOk (Session.Grows.pure sound.session fun _ taken => (sound.slice of).subrange taken)

theorem Sound.collect (sound : holding.Sound) (items : List Item) :
    holding.Follows (holding.keep (Builder.collect (items.map holding.part))) := by
  have known : ∀ part ∈ items.map holding.part,
      forall slice, part = .nested slice -> holding.session.Within slice := by
    intro part member slice same
    rcases List.mem_map.mp member with ⟨item, _, rfl⟩
    exact sound.part slice same
  apply sound.keep
  apply Session.Grows.bind ((Builder.within_empty _).addAll sound.session known)
  exact fun after builder sound _ within => within.build sound

theorem Sound.tryAdd (sound : holding.Sound) (builder : Nat) (item : Option Item) :
    holding.Follows (holding.perform (.tryAdd builder item)) := by
  apply sound.replaceOk builder
  apply (sound.builder builder).tryAdd sound.session
  intro slice same
  rcases Option.map_eq_some_iff.mp same with ⟨item, _, same⟩
  exact sound.part slice same

theorem Sound.perform (sound : holding.Sound) (request : Request) :
    holding.Follows (holding.perform request) := by
  cases request with
  | empty => exact sound.keep (Session.Grows.pure sound.session holding.session.within_empty)
  | collect items => exact sound.collect items
  | newBuilder =>
      exact ⟨sound.pushBuilder (Builder.within_empty _), Session.Extends.refl _, List.prefix_refl _⟩
  | toBuilder of =>
      have within := Builder.within_ofSlice sound.session (holding.slice of)
      exact ⟨sound.pushBuilder within, Session.Extends.refl _, List.prefix_refl _⟩
  | add builder item =>
      exact sound.replace builder ((sound.builder builder).add sound.session sound.part)
  | tryAdd builder item => exact sound.tryAdd builder item
  | append builder of =>
      exact sound.replace builder ((sound.builder builder).append sound.session _)
  | build builder => exact sound.keep ((sound.builder builder).build sound.session)
  | decode dialect bytes => exact sound.keepOk (Session.Grows.decode sound.session dialect bytes)
  | read dialect bytes => exact sound.keepOk (Session.Grows.keepStream sound.session _)
  | readExact bytes => exact sound.keepOk (Session.Grows.keepStream sound.session _)
  | subrange of start stop => exact sound.keepRange
  | fromIndex of index => exact sound.keepRange
  | toIndex of index => exact sound.keepRange
  | take of index => exact sound.keepOk (Session.Grows.takeRecord sound.session _ index)
  | look looking => exact sound.look looking

end Steps

/-! ## All requests -/

theorem Sound.performAll {holding : Holding} (sound : holding.Sound) (requests : List Request) :
    holding.Follows (holding.performAll requests) := by
  induction requests generalizing holding with
  | nil => exact Follows.refl sound
  | cons request requests ih =>
      have first := sound.perform request
      exact first.trans (ih first.sound)

/-- Whatever was asked for, storage zero is empty.  Each record that is held shows a range
of a storage, with as many entries as it counts, and it has none exactly when it is the
empty slice.  Its ranges are those of the list of its entries, and ranges of ranges are
ranges; what is no range of that list is refused, for the end if that is outside and for
the start otherwise.  More requests leave the record where it is, with the same entries. -/
theorem held_are_ranges (requests : List Request) :
    let holding := Holding.start.performAll requests
    holding.session.storages[0]? = some #[] ∧
    ∀ slice ∈ holding.slices,
      let record := holding.session.record slice
      let stored := (holding.session.storages.getD slice.storage #[]).toList.map Cell.entry
      slice.first + slice.count ≤ stored.length ∧
      record = (stored.take (slice.first + slice.count)).drop slice.first ∧
      record.length = slice.count ∧
      (record = [] <-> slice = Slice.empty) ∧
      (forall start stop : Nat,
        ((Exists fun part => slice.subrange start stop = .ok part) <->
          start ≤ stop ∧ stop ≤ record.length) ∧
        (forall part, slice.subrange start stop = .ok part ->
          holding.session.record part = (record.take stop).drop start ∧
          forall first last inner, part.subrange first last = .ok inner ->
            slice.subrange (start + first) (start + last) = .ok inner) ∧
        (record.length < stop ->
          slice.subrange start stop = .error (.indexOutOfRange stop record.length)) ∧
        (stop ≤ record.length -> stop < start ->
          slice.subrange start stop = .error (.indexOutOfRange start record.length))) ∧
      (forall index : Nat, slice.fromIndex index = slice.subrange index record.length ∧
        slice.toIndex index = slice.subrange 0 index) ∧
      forall more : List Request,
        let later := holding.performAll more
        slice ∈ later.slices ∧ later.session.record slice = record := by
  intro holding
  have sound : holding.Sound := (Sound.start.performAll requests).sound
  refine ⟨sound.session.storage_zero, ?_⟩
  intro slice member record stored
  have within := sound.slices slice member
  have count : record.length = slice.count := within.length_record
  have shown : holding.session.shown.getD slice.storage [] = stored :=
    holding.session.getD_shown slice.storage
  have inside : slice.first + slice.count ≤ stored.length := by
    rcases within with rfl | ⟨_, inside⟩
    · exact Nat.zero_le _
    · rwa [shown] at inside
  refine ⟨inside, ?_, count, within.record_eq_nil_iff, ?_, ?_, ?_⟩
  · rw [← shown, List.drop_take, Nat.add_sub_cancel_left]
    exact holding.session.record_eq_shown slice
  · intro start stop
    rw [count]
    refine ⟨?_, ?_, ?_, Slice.subrange_of_inverted⟩
    · simp only [Slice.subrange_eq_ok_iff]
      constructor
      · rintro ⟨part, ordered, reaches, _⟩
        exact ⟨ordered, reaches⟩
      · rintro ⟨ordered, reaches⟩
        exact ⟨_, ordered, reaches, rfl⟩
    · intro part taken
      refine ⟨holding.session.record_subrange taken, ?_⟩
      exact fun first last inner => Slice.subrange_of_subrange taken
    · exact fun behind => Slice.subrange_of_length_lt behind start
  · intro index
    rw [count]
    exact ⟨rfl, rfl⟩
  · intro more later
    have follows := sound.performAll more
    exact ⟨follows.kept.subset member, within.record_eq follows.grown⟩

/-- A range of a range, an empty range, and one that is refused. -/
theorem held_are_ranges_of_built :
    let requests : List Request :=
      [.collect [.value (.integer 1), .value (.text "a"), .value (.byte 2)],
        .subrange 0 1 3, .subrange 1 1 2, .subrange 0 2 2, .subrange 1 0 3]
    let holding := Holding.start.performAll requests
    let slice : Slice := ⟨1, 0, 3⟩
    let part : Slice := ⟨1, 1, 2⟩
    holding.slices = [slice, part, ⟨1, 2, 1⟩, Slice.empty] ∧
      slice.subrange 1 3 = .ok part ∧ part.subrange 1 2 = .ok ⟨1, 2, 1⟩ ∧
      slice.subrange 2 3 = .ok ⟨1, 2, 1⟩ ∧
      holding.session.record part = ((holding.session.record slice).take 3).drop 1 ∧
      holding.session.record slice ≠ [] ∧
      part.subrange 0 3 = .error (.indexOutOfRange 3 2) ∧
      part.subrange 2 1 = .error (.indexOutOfRange 2 2) := by
  intro requests holding slice part
  have held : holding.slices = [slice, part, ⟨1, 2, 1⟩, Slice.empty] := rfl
  have outer : slice.subrange 1 3 = .ok part := rfl
  have inner : part.subrange 1 2 = .ok ⟨1, 2, 1⟩ := rfl
  rcases held_are_ranges requests with ⟨_, ranges⟩
  rcases ranges slice (held ▸ List.mem_cons_self) with ⟨_, _, _, some, cuts, _⟩
  rcases ranges part (held ▸ by simp) with ⟨_, _, length, _, refused, _⟩
  have two : (holding.session.record part).length = 2 := length
  rcases (cuts 1 3).2.1 part outer with ⟨shows, again⟩
  refine ⟨held, outer, inner, again 1 2 _ inner, shows, ?_, ?_, ?_⟩
  · intro none
    exact absurd (some.mp none) (by decide)
  · exact two ▸ (refused 0 3).2.2.1 (two ▸ by decide)
  · exact two ▸ (refused 2 1).2.2.2 (two ▸ by decide) (by decide)

end Holding
end SortKey
