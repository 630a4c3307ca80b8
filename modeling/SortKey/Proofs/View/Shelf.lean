import SortKey.Proofs.View.Making

namespace SortKey

/-!
# Shelves of views

A row of strings is a shelf without buffers: it keeps nothing but strings, and refuses
what does not lie inside a string.  A shelf of views is at any time such a row, whatever
was made before, though views of views add up offsets and copies are avoided without a
look at the octets.

The buffers on a shelf have all been made before, so the next one is new to every view.
The offsets are small enough for words, and sums of words never wrap around.
-/

/-! ## Rows of strings -/

namespace Bytes

/-- Make a string from strings of the row and keep it. -/
def make (making : Making Nat) (row : List Bytes) :
    Option (Except ByteError Bytes) × List Bytes :=
  match making.named? (row[·]?) with
  | none => (none, row)
  | some named =>
      match made named with
      | .ok octets => (some (.ok octets), row ++ [octets])
      | .error cause => (some (.error cause), row)

def makeAll : List (Making Nat) -> List Bytes -> List (Option (Except ByteError Bytes)) × List Bytes
  | [], row => ([], row)
  | making :: makings, row =>
      let step := make making row
      let others := makeAll makings step.2
      (step.1 :: others.1, others.2)

end Bytes

namespace Shelf

/-- The strings that the views of a shelf show. -/
def shown (shelf : Shelf) : List Bytes :=
  shelf.views.toList.map View.bytes

theorem shown_put (shelf : Shelf) (made : View × Pool) :
    (shelf.put made).shown = shelf.shown ++ [made.1.bytes] := by
  simp [shown, put]

/-- An answer with the string instead of the view. -/
def answerShown (answer : Option (Except ByteError View)) : Option (Except ByteError Bytes) :=
  answer.map fun made => made.map View.bytes

/-- A shelf answers and grows like its row of strings. -/
theorem make_shown (shelf : Shelf) (making : Making Nat) :
    Bytes.make making shelf.shown =
      (answerShown (shelf.make making).1, (shelf.make making).2.shown) := by
  have named : making.named? (shelf.shown[·]?) =
      (making.named? (shelf.views[·]?)).map (Making.map View.bytes) := by
    rw [← Making.named?_map]
    apply congrArg (making.named? ·)
    funext n
    rw [shown, List.getElem?_map, Array.getElem?_toList]
  unfold Bytes.make make
  rw [named]
  cases making.named? (shelf.views[·]?) with
  | none => rfl
  | some named =>
      dsimp only [Option.map_some]
      rw [← View.map_bytes_made shelf.pool named]
      cases View.made shelf.pool named with
      | error cause => rfl
      | ok made =>
          apply Prod.ext
          · rfl
          · exact (shown_put shelf made).symm

theorem makeAll_shown (makings : List (Making Nat)) (shelf : Shelf) :
    Bytes.makeAll makings shelf.shown =
      ((shelf.makeAll makings).1.map answerShown, (shelf.makeAll makings).2.shown) := by
  induction makings generalizing shelf with
  | nil => rfl
  | cons making makings ih =>
      rw [Bytes.makeAll, make_shown]
      dsimp only
      rw [ih]
      rfl

/-! ## Buffers of a shelf -/

/-- The buffers of a shelf come from its pool, and one number stands for one buffer. -/
structure Sound (shelf : Shelf) : Prop where
  id_lt : ∀ view ∈ shelf.views, view.buffer.id < shelf.pool.made
  buffer_eq : ∀ a ∈ shelf.views, ∀ b ∈ shelf.views, a.sharesBuffer b = true -> a.buffer = b.buffer

theorem Sound.empty : Shelf.empty.Sound where
  id_lt := by simp [Shelf.empty]
  buffer_eq := by simp [Shelf.empty]

theorem Sound.put_shared {shelf : Shelf} {view source : View} (sound : shelf.Sound)
    (there : source ∈ shelf.views) (shared : view.buffer = source.buffer) :
    (shelf.put (view, shelf.pool)).Sound where
  id_lt := by
    intro other member
    rcases Array.mem_push.mp member with member | rfl
    · exact sound.id_lt other member
    · rw [shared]
      exact sound.id_lt source there
  buffer_eq := by
    intro a memberA b memberB same
    rcases Array.mem_push.mp memberA with beforeA | rfl <;>
      rcases Array.mem_push.mp memberB with beforeB | rfl
    · exact sound.buffer_eq a beforeA b beforeB same
    · -- The source was on the shelf, so what shares its buffer is known to have that buffer.
      rw [View.sharesBuffer, shared] at same
      rw [shared]
      exact sound.buffer_eq a beforeA source there same
    · rw [View.sharesBuffer, shared] at same
      rw [shared]
      exact sound.buffer_eq source there b beforeB same
    · rfl

theorem Sound.put_new {shelf : Shelf} {view : View} {after : Pool} (sound : shelf.Sound)
    (next : after.made = shelf.pool.made + 1) (new : view.buffer.id = shelf.pool.made) :
    (shelf.put (view, after)).Sound where
  id_lt := by
    intro other member
    change other.buffer.id < after.made
    rcases Array.mem_push.mp member with member | rfl
    · have := sound.id_lt other member
      omega
    · omega
  buffer_eq := by
    intro a memberA b memberB same
    rw [View.sharesBuffer, beq_iff_eq] at same
    rcases Array.mem_push.mp memberA with beforeA | rfl <;>
      rcases Array.mem_push.mp memberB with beforeB | rfl
    · exact sound.buffer_eq a beforeA b beforeB (beq_iff_eq.mpr same)
    · have := sound.id_lt a beforeA
      omega
    · have := sound.id_lt b beforeB
      omega
    · rfl

/-- What happens when a view is made from views of a shelf. -/
inductive Follows (shelf : Shelf) (making : Making Nat) :
    Option (Except ByteError View) × Shelf -> Prop where
  /-- Something that it would be made of is not there. -/
  | unknown (missing : making.named? (shelf.views[·]?) = none) : Follows shelf making (none, shelf)
  /-- The strings are refused for this cause, and there is no new view. -/
  | refused {named : Making View} {cause : ByteError}
      (found : making.named? (shelf.views[·]?) = some named)
      (plain : Bytes.made (named.map View.bytes) = .error cause) :
      Follows shelf making (some (.error cause), shelf)
  /-- The new view shows what the strings give, and it is explained where it lies. -/
  | made {named : Making View} {view : View} {after : Pool}
      (found : making.named? (shelf.views[·]?) = some named)
      (plain : Bytes.made (named.map View.bytes) = .ok view.bytes)
      (explained : named.Explains shelf.views view) :
      Follows shelf making (some (.ok view), ⟨after, shelf.views.push view⟩)

theorem Sound.follows {shelf : Shelf} (sound : shelf.Sound) (making : Making Nat) :
    Follows shelf making (shelf.make making) := by
  unfold make
  cases found : making.named? (shelf.views[·]?) with
  | none => exact .unknown found
  | some named =>
      have shown := View.map_bytes_made shelf.pool named
      dsimp only
      cases result : View.made shelf.pool named with
      | error cause =>
          rw [result] at shown
          exact .refused found shown.symm
      | ok made =>
          rw [result] at shown
          exact .made found shown.symm (View.explains_of_made sound.id_lt result)

theorem Sound.make {shelf : Shelf} (sound : shelf.Sound) (making : Making Nat) :
    (shelf.make making).2.Sound := by
  unfold Shelf.make
  cases found : making.named? (shelf.views[·]?) with
  | none => exact sound
  | some named =>
      dsimp only
      cases result : View.made shelf.pool named with
      | error cause => exact sound
      | ok made =>
          rcases View.buffer_of_made result with ⟨kept, source, member, shared⟩ | ⟨next, new⟩
          · rcases Making.mem_of_named? found source member with ⟨n, here⟩
            have there : source ∈ shelf.views := Array.mem_of_getElem? here
            have put := sound.put_shared there shared
            rwa [← kept] at put
          · exact sound.put_new next new

theorem Sound.makeAll {shelf : Shelf} (sound : shelf.Sound) (makings : List (Making Nat)) :
    (shelf.makeAll makings).2.Sound := by
  induction makings generalizing shelf with
  | nil => exact sound
  | cons making makings ih => exact ih (sound.make making)

end Shelf

/-! ## Words -/

namespace Bounds

/-- The ends of a view are words, sums of its positions do not wrap around, and cutting it
along words is cutting it. -/
structure Fits (view : View) : Prop where
  first : (ofView view).first.toNat = view.first
  stop : (ofView view).stop.toNat = view.stop
  length : (ofView view).length.toNat = view.length
  sum_lt : forall pos : UInt64, pos.toNat ≤ view.length -> view.first + pos.toNat < 2 ^ 64
  sliceFrom : forall pos : UInt64,
    (ofView view).sliceFrom pos = (view.sliceFrom pos.toNat).map ofView
  sliceTo : forall pos : UInt64,
    (ofView view).sliceTo pos = (view.sliceTo pos.toNat).map ofView

theorem fits {view : View} (short : view.buffer.bytes.length < 2 ^ 64) : Fits view := by
  have ordered := view.first_le_stop
  have inside := view.stop_le_length
  have first : (ofView view).first.toNat = view.first :=
    UInt64.toNat_ofNat_of_lt' (Nat.lt_of_le_of_lt (Nat.le_trans ordered inside) short)
  have stop : (ofView view).stop.toNat = view.stop :=
    UInt64.toNat_ofNat_of_lt' (Nat.lt_of_le_of_lt inside short)
  have length : (ofView view).length.toNat = view.length := by
    rw [Bounds.length, UInt64.toNat_sub_of_le _ _ (by rwa [UInt64.le_iff_toNat_le, first, stop]),
      first, stop]
    rfl
  have past (pos : UInt64) : pos > (ofView view).length <-> view.length < pos.toNat := by
    rw [gt_iff_lt, UInt64.lt_iff_toNat_lt, length]
  refine ⟨first, stop, length, ?_, ?_, ?_⟩
  · intro pos within
    rw [View.length] at within
    omega
  · intro pos
    rw [sliceFrom, View.sliceFrom, length]
    by_cases within : pos.toNat ≤ view.length
    · rw [if_neg (mt (past pos).mp (Nat.not_lt.mpr within)), dif_pos within]
      split
      · next none =>
          subst none
          rfl
      · simp only [Except.map, ofView, UInt64.ofNat_add, UInt64.ofNat_toNat]
    · rw [if_pos ((past pos).mpr (Nat.lt_of_not_le within)), dif_neg within]
      rfl
  · intro pos
    rw [sliceTo, View.sliceTo, length]
    by_cases within : pos.toNat ≤ view.length
    · rw [if_neg (mt (past pos).mp (Nat.not_lt.mpr within)), dif_pos within]
      split
      · next all =>
          have stops : view.first + pos.toNat = view.stop := by
            rw [all, length]
            exact Nat.add_sub_cancel' ordered
          simp only [Except.map, ofView, stops]
      · simp only [Except.map, ofView, UInt64.ofNat_add, UInt64.ofNat_toNat]
    · rw [if_pos ((past pos).mpr (Nat.lt_of_not_le within)), dif_neg within]
      rfl

theorem ofRange_eq {buffer : Buffer} (short : buffer.bytes.length < 2 ^ 64) (first stop : UInt64) :
    ofRange (UInt64.ofNat buffer.bytes.length) first stop =
      (View.ofRange buffer first.toNat stop.toNat).map ofView := by
  have length : (UInt64.ofNat buffer.bytes.length).toNat = buffer.bytes.length :=
    UInt64.toNat_ofNat_of_lt' short
  have outside : (first > stop ∨ stop > UInt64.ofNat buffer.bytes.length) <->
      ¬(first.toNat ≤ stop.toNat ∧ stop.toNat ≤ buffer.bytes.length) := by
    rw [gt_iff_lt, gt_iff_lt, UInt64.lt_iff_toNat_lt, UInt64.lt_iff_toNat_lt, length]
    omega
  rw [ofRange, View.ofRange, length]
  by_cases inside : first.toNat ≤ stop.toNat ∧ stop.toNat ≤ buffer.bytes.length
  · rw [if_neg (mt outside.mp (not_not_intro inside)), dif_pos inside]
    simp only [Except.map, ofView, UInt64.ofNat_toNat]
  · rw [if_pos (outside.mpr inside), dif_neg inside]
    rfl

end Bounds

namespace Shelf

/-! ## Runs -/

variable {shelf : Shelf}

/-- Appending gives an operand if one of them is empty, and only then. -/
theorem Sound.append_eq_iff (sound : shelf.Sound) {front back : View}
    (frontThere : front ∈ shelf.views) (backThere : back ∈ shelf.views) :
    let view := (View.append shelf.pool front back).1
    (view = front ∨ view = back) <-> (front.bytes = [] ∨ back.bytes = []) := by
  dsimp only
  rcases View.append_cases shelf.pool front back with
    ⟨none, same⟩ | ⟨_, none, same⟩ | ⟨some, some', same⟩
  · simp [same, none]
  · simp [same, none]
  · have fresh := View.fresh_of_id_lt sound.id_lt (front.bytes ++ back.bytes)
    rw [same]
    constructor
    · rintro (taken | taken)
      · exact absurd taken (fresh.ne frontThere)
      · exact absurd taken (fresh.ne backThere)
    · rintro (none | none)
      · exact absurd none some
      · exact absurd none some'

/-- Combining gives a part if there is one part, and only then. -/
theorem Sound.combine_mem_iff (sound : shelf.Sound) {parts : List View}
    (there : ∀ part ∈ parts, part ∈ shelf.views) :
    (View.combine shelf.pool parts).1 ∈ parts <-> parts.length = 1 := by
  rcases View.combine_cases shelf.pool parts with ⟨part, rfl, same⟩ | ⟨several, same⟩
  · simp [same]
  · have fresh := View.fresh_of_id_lt sound.id_lt (parts.flatMap View.bytes)
    rw [same]
    constructor
    · intro taken
      exact absurd rfl (fresh.ne (there _ taken))
    · intro single
      exact absurd single several

/-- Views that are made one after the other are answered and show what strings would, and
their ranges lie in their buffers, also in words.  Whatever is made next is refused like
a string, or it shows what the string does and lies where its sources explain. -/
theorem views_are_strings (makings : List (Making Nat)) :
    let run := Shelf.empty.makeAll makings
    let shelf := run.2
    Bytes.makeAll makings [] = (run.1.map answerShown, shelf.shown) ∧
    (∀ view ∈ shelf.views,
      view.first ≤ view.stop ∧ view.stop ≤ view.buffer.bytes.length ∧
      view.bytes = (view.buffer.bytes.take view.stop).drop view.first ∧
      (view.buffer.bytes.length < 2 ^ 64 -> Bounds.Fits view ∧
        let buffer := (view.toBuffer shelf.pool).1
        forall first stop : UInt64,
          Bounds.ofRange (UInt64.ofNat buffer.bytes.length) first stop =
            (View.ofRange buffer first.toNat stop.toNat).map Bounds.ofView)) ∧
    (∀ a ∈ shelf.views, ∀ b ∈ shelf.views, a.sharesBuffer b = true -> a.buffer = b.buffer) ∧
    (forall making : Making Nat, Follows shelf making (shelf.make making)) ∧
    (∀ front ∈ shelf.views, ∀ back ∈ shelf.views,
      let view := (View.append shelf.pool front back).1
      (view = front ∨ view = back) <-> (front.bytes = [] ∨ back.bytes = [])) ∧
    (forall parts : List View, (∀ part ∈ parts, part ∈ shelf.views) ->
      ((View.combine shelf.pool parts).1 ∈ parts <-> parts.length = 1)) := by
  intro run shelf
  have sound : shelf.Sound := Sound.empty.makeAll makings
  refine ⟨makeAll_shown makings Shelf.empty, ?_, sound.buffer_eq, sound.follows, ?_, ?_⟩
  · intro view _
    refine ⟨view.first_le_stop, view.stop_le_length, ?_, ?_⟩
    · rw [View.bytes, View.length, List.drop_take]
    · intro short
      have shared : (view.toBuffer shelf.pool).1.bytes.length < 2 ^ 64 := by
        rw [View.bytes_toBuffer, View.length_bytes, View.length]
        exact Nat.lt_of_le_of_lt (Nat.sub_le_of_le_add (Nat.le_add_right_of_le view.stop_le_length)) short
      exact ⟨Bounds.fits short, Bounds.ofRange_eq shared⟩
  · intro front frontThere back backThere
    exact sound.append_eq_iff frontThere backThere
  · intro parts there
    exact sound.combine_mem_iff there

/-- A slice of a slice, its copy, and a slice that is refused. -/
theorem views_are_strings_of_slices :
    let makings : List (Making Nat) :=
      [.new [0, 1, 2, 3, 4], .sliceFrom 0 1, .sliceTo 1 3, .shared 2, .sliceFrom 2 4]
    let shelf := (Shelf.empty.makeAll makings).2
    let whole : View := View.ofBuffer ⟨0, [0, 1, 2, 3, 4]⟩
    let part : View := ⟨whole.buffer, 1, 4, by decide, by decide⟩
    shelf.shown = [[0, 1, 2, 3, 4], [1, 2, 3, 4], [1, 2, 3], [1, 2, 3]] ∧
      part ∈ shelf.views ∧ whole ∈ shelf.views ∧ part.sharesBuffer whole = true ∧
      part.buffer = whole.buffer ∧ Bounds.Fits part ∧
      (View.append shelf.pool part whole).1 ≠ part ∧ (View.combine shelf.pool [part]).1 = part ∧
      Follows shelf (.sliceFrom 2 4) (some (.error (.indexOutOfRange 4 3)), shelf) := by
  intro makings shelf whole part
  have partThere : part ∈ shelf.views := Array.mem_toList_iff.mp (by decide)
  have wholeThere : whole ∈ shelf.views := Array.mem_toList_iff.mp (by decide)
  have shares : part.sharesBuffer whole = true := by decide
  rcases views_are_strings makings with ⟨answers, inside, same, follows, append, combine⟩
  have shown := congrArg Prod.snd answers
  have parts : ∀ view ∈ [part], view ∈ shelf.views := by
    intro view member
    rwa [List.mem_singleton.mp member]
  refine ⟨shown.symm.trans (by decide), partThere, wholeThere, shares,
    same part partThere whole wholeThere shares, ((inside part partThere).2.2.2 (by decide)).1,
    ?_, List.mem_singleton.mp ((combine [part] parts).mpr rfl), follows (.sliceFrom 2 4)⟩
  intro taken
  have none := (append part partThere whole wholeThere).mp (.inl taken)
  exact absurd none (by decide)

end Shelf
end SortKey
