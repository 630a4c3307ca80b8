import SortKey.Key.FrameViews
import SortKey.Proofs.Codes
import SortKey.Proofs.View

namespace SortKey

/-- What can be wrong with the frames of a key. -/
inductive RecordError.OfFraming : RecordError -> Prop
  | invalidCode (code : UInt8) : OfFraming (.invalidCode code)
  | emptyData : OfFraming .emptyData

namespace Key

/-!
# Cutting a view is cutting octets

A turn asks a view for its first octet and for three slices.  None of them is refused
as long as the view shows anything: the separator is looked for in the very octets that
are cut there.  So a turn fails for what the octets mean and for nothing else, and when
it goes on, it leaves a view that is smaller and not empty, which is what the next turn
needs.  Turn by turn, the views show what the frames of the key consist of.
-/

variable {dialect : Option Dialect} {code : UInt8} {rest : Bytes}

/-- The frame is the entry that begins with the code and goes on with the octets. -/
structure FrameView.Heads (dialect : Option Dialect) (code : UInt8) (rest : Bytes)
    (frame : FrameView) : Prop where
  known : announced? dialect code = some frame.kind
  shows : frame.shown = ⟨code, frame.kind,
    Escape.unescape separator (rest.take (Escape.findSeparator separator rest))⟩
  filled : frame.data.bytes ≠ []

/-- What a turn can do with a view of a code and the octets behind it. -/
inductive Turns (dialect : Option Dialect) (atFront : Bool) (code : UInt8) (rest : Bytes) :
    Except RecordError (Turn × Pool) -> Prop
  | emptyRecord {pool : Pool} (unannounced : announced? dialect code = none)
      (front : (atFront && (Wire.ofCode dialect code).isOk) = true) :
      Turns dialect atFront code rest (.ok (.emptyRecord, pool))
  | invalidCode (unannounced : announced? dialect code = none)
      (refused : (atFront && (Wire.ofCode dialect code).isOk) = false) :
      Turns dialect atFront code rest (.error (.invalidCode code))
  | emptyData {kind : Kind} (known : announced? dialect code = some kind)
      (empty : Escape.unescape separator (rest.take (Escape.findSeparator separator rest)) = []) :
      Turns dialect atFront code rest (.error .emptyData)
  | last {frame : FrameView} {pool : Pool} (heads : frame.Heads dialect code rest)
      (ends : rest.length ≤ Escape.findSeparator separator rest + 1) :
      Turns dialect atFront code rest (.ok (.last frame, pool))
  | next {frame : FrameView} {left : View} {pool : Pool} (heads : frame.Heads dialect code rest)
      (more : Escape.findSeparator separator rest + 1 < rest.length)
      (shows : left.bytes = rest.drop (Escape.findSeparator separator rest + 1)) :
      Turns dialect atFront code rest (.ok (.next frame left, pool))

theorem turn_of_unannounced (unannounced : announced? dialect code = none) (pool : Pool)
    (atFront : Bool) {view : View} (shows : view.bytes = code :: rest) :
    turn dialect pool atFront view =
      if atFront && (Wire.ofCode dialect code).isOk then .ok (.emptyRecord, pool)
      else .error (.invalidCode code) := by
  rw [turn, View.get_zero shows]
  rcases announced?_eq_none_iff.mp unannounced with meaning | meaning
  · simp [bind, Except.bind, meaning, Except.isOk, Except.toBool]
  · simp [bind, Except.bind, meaning, Except.isOk, Except.toBool, Wire.entryKind?]

/-- A view of a code has octets behind it, and these have some in front of the
separator. -/
theorem exists_slices {view : View} (shows : view.bytes = code :: rest) :
    Exists fun behind => view.sliceFrom 1 = .ok behind ∧ behind.bytes = rest ∧
      Exists fun written =>
        behind.sliceTo (Escape.findSeparator separator rest) = .ok written ∧
          written.bytes = rest.take (Escape.findSeparator separator rest) := by
  have hasCode : 1 ≤ view.length := by
    rw [← View.length_bytes, shows, List.length_cons]
    exact Nat.succ_le_succ (Nat.zero_le _)
  rcases View.exists_sliceFrom hasCode with ⟨behind, withoutCode, _, octets⟩
  rw [shows, List.drop_one, List.tail_cons] at octets
  have inside : Escape.findSeparator separator rest ≤ behind.length := by
    rw [← View.length_bytes, octets]
    exact Escape.findSeparator_le separator rest
  rcases View.exists_sliceTo inside with ⟨written, upTo, _, data⟩
  rw [octets] at data
  exact ⟨behind, withoutCode, octets, written, upTo, data⟩

/-- No slice is refused to a turn. -/
theorem turns_turn (pool : Pool) (atFront : Bool) {view : View}
    (shows : view.bytes = code :: rest) :
    Turns dialect atFront code rest (turn dialect pool atFront view) := by
  cases known : announced? dialect code with
  | none =>
      rw [turn_of_unannounced known pool atFront shows]
      split
      · next front => exact .emptyRecord known front
      · next refused => exact .invalidCode known (Bool.eq_false_iff.mpr refused)
  | some kind =>
      rcases announced?_eq_some_iff.mp known with ⟨wire, meaning, ofKind⟩
      rcases exists_slices shows with ⟨behind, withoutCode, octets, written, upTo, data⟩
      have length : behind.length = rest.length := by
        rw [← View.length_bytes, octets]
      have unescaped := View.bytes_unescape pool separator written
      rw [data] at unescaped
      simp only [turn, View.get_zero shows, answered_ok, bind, Except.bind, meaning, ofKind,
        withoutCode, octets, upTo, length]
      split
      · next empty => exact .emptyData known (unescaped ▸ (View.isEmpty_iff _).mp empty)
      · next filled =>
          have heads : FrameView.Heads dialect code rest
              ⟨code, kind, (written.unescape pool separator).1⟩ :=
            ⟨known, congrArg (Frame.mk code kind) unescaped,
              fun empty => filled ((View.isEmpty_iff _).mpr empty)⟩
          split
          · next ends => exact .last heads (by omega)
          · next more =>
              have inside := Escape.findSeparator_le separator rest
              have separated : Escape.findSeparator separator rest + 1 ≤ behind.length := by omega
              rcases View.exists_sliceFrom separated with ⟨left, withoutData, _, shown⟩
              rw [octets] at shown
              simp only [withoutData, answered_ok]
              exact .next heads (by omega) shown

/-! ## Where turns lead -/

/-- A turn that goes on leaves less than it was given, and something; one that fails
does so because of what the octets mean. -/
def Advances (view : View) : Except RecordError (Turn × Pool) -> Prop
  | .ok (.next _ left, _) => 0 < left.length ∧ left.length < view.length
  | .ok _ => True
  | .error cause => cause.OfFraming

theorem advances_turn (dialect : Option Dialect) (pool : Pool) (atFront : Bool) {view : View}
    (filled : 0 < view.length) : Advances view (turn dialect pool atFront view) := by
  rw [← View.length_bytes] at filled
  rcases List.exists_cons_of_length_pos filled with ⟨code, rest, shows⟩
  have turned : Turns dialect atFront code rest (turn dialect pool atFront view) :=
    turns_turn pool atFront shows
  generalize turn dialect pool atFront view = found at turned
  cases turned with
  | emptyRecord | last => trivial
  | invalidCode => exact .invalidCode code
  | emptyData => exact .emptyData
  | next heads more shown =>
      rw [Advances, ← View.length_bytes, ← View.length_bytes, shown, shows, List.length_drop,
        List.length_cons]
      omega

/-! ## All turns -/

/-- The frames that are shown by what was cut. -/
def framesOf (found : List FrameView × Pool) : List Frame :=
  found.1.map FrameView.shown

theorem scanOnto_of_heads {frame : FrameView} (heads : frame.Heads dialect code rest)
    (read : List Frame) :
    scanOnto dialect read code rest =
      scanBehind dialect (frame.shown :: read)
        (rest.drop (Escape.findSeparator separator rest)) := by
  have filled : frame.shown.data.isEmpty ≠ true := fun empty =>
    heads.filled (List.isEmpty_iff.mp empty)
  rw [scanOnto_of_announced heads.known]
  rw [heads.shows] at filled ⊢
  simp only [if_neg filled]

/-- The entries that are cut turn by turn are the frames that a scan finds. -/
theorem framesOf_frameViewsOnto (read : List FrameView) (pool : Pool) {view : View}
    (shows : view.bytes = code :: rest) :
    (frameViewsOnto dialect read pool view).map framesOf =
      (scanOnto dialect (read.map FrameView.shown) code rest).outcome := by
  have turned : Turns dialect read.isEmpty code rest (turn dialect pool read.isEmpty view) :=
    turns_turn pool read.isEmpty shows
  -- The scan recurses on octets and the turns on views, so the octets vary with the view.
  fun_induction frameViewsOnto dialect read pool view generalizing code rest with
  | case1 read pool view cause failed =>
      rw [failed] at turned
      cases turned with
      | invalidCode unannounced refused =>
          rw [scanOnto_of_unannounced unannounced, List.isEmpty_map, refused]
          rfl
      | emptyData known empty =>
          rw [scanOnto_of_announced known]
          simp only [empty]
          rfl
  | case2 read pool view _ found =>
      rw [found] at turned
      cases turned with
      | emptyRecord unannounced front =>
          rw [scanOnto_of_unannounced unannounced, List.isEmpty_map, front]
          rfl
  | case3 read pool view frame _ found =>
      rw [found] at turned
      cases turned with
      | last heads ends =>
          have all : framesOf ((frame :: read).reverse, pool) =
              (frame.shown :: read.map FrameView.shown).reverse := List.map_reverse
          rw [scanOnto_of_heads heads]
          rcases behind : rest.drop (Escape.findSeparator separator rest) with _ | ⟨_, _ | ⟨_, _⟩⟩
          · exact congrArg Except.ok all
          · exact congrArg Except.ok all
          · have length := congrArg List.length behind
            simp only [List.length_drop, List.length_cons] at length
            omega
  | case4 read pool view frame left _ found _ ih =>
      rw [found] at turned
      cases turned with
      | next heads more shown =>
          have behind := List.drop_eq_getElem_cons (Nat.lt_of_succ_lt more)
          have filled : 0 < left.bytes.length := by
            rw [shown, List.length_drop]
            omega
          rcases List.exists_cons_of_length_pos filled with ⟨next, others, octets⟩
          rw [scanOnto_of_heads heads, behind, ← shown, octets, scanBehind]
          exact ih octets (turns_turn _ _ octets)

/-- The entries that the view of a key is cut into are its frames. -/
theorem framesOf_frameViews (dialect : Option Dialect) (pool : Pool) (view : View) :
    (frameViews dialect pool view).map framesOf = frames dialect view.bytes := by
  rw [frameViews, View.first?]
  cases octets : view.bytes with
  | nil => rfl
  | cons code rest =>
      simp only [List.head?_cons, frames, scan]
      split
      · rfl
      · exact framesOf_frameViewsOnto [] pool octets

end Key
end SortKey
