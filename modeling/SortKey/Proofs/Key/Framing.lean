import SortKey.Key.Decode
import SortKey.Proofs.Escape

namespace SortKey
namespace Key

/-!
# Reading the frames that were written

A key that was put together from frames is cut into the same frames again,
provided that each code announces the kind of its frame.  Data decides only
one thing: a frame without data makes the reading fail.

The codes need not be those that are written today.  Neither the separator nor
the marker of the empty record announces a kind in any dialect, which is why a
code behind a separator cannot be taken for the second half of an escape.
-/

/-! ## Codes that announce entries -/

/-- The kind of the entries that a code announces. -/
def announced? (dialect : Option Dialect) (code : UInt8) : Option Kind :=
  (Wire.ofCode dialect code).toOption.bind Wire.entryKind?

theorem announced?_eq_some_iff {dialect : Option Dialect} {code : UInt8} {kind : Kind} :
    announced? dialect code = some kind <->
      Exists fun wire => Wire.ofCode dialect code = .ok wire ∧ wire.entryKind? = some kind := by
  unfold announced?
  cases Wire.ofCode dialect code <;> simp [Except.toOption]

theorem announced?_code (kind : Kind) : announced? none kind.code = some kind := by
  cases kind <;> rfl

theorem announced?_separator (dialect : Option Dialect) : announced? dialect separator = none := by
  rcases dialect with _ | dialect
  · rfl
  · cases dialect <;> rfl

theorem announced?_emptyMarker (dialect : Option Dialect) :
    announced? dialect emptyMarker = none := by
  rcases dialect with _ | dialect
  · rfl
  · cases dialect <;> rfl

/-! ## One frame -/

namespace Frame

/-- A frame as it is written, without a separator. -/
def octets (frame : Frame) : Bytes :=
  frame.code :: Escape.escape separator frame.data

/-- Frames as they are written, each with its separator. -/
def closed (frames : List Frame) : Bytes :=
  frames.flatMap fun frame => frame.octets ++ [separator]

/-- The code of the frame announces its kind. -/
def Announced (dialect : Option Dialect) (frame : Frame) : Prop :=
  announced? dialect frame.code = some frame.kind

theorem Announced.code_ne_separator {dialect : Option Dialect} {frame : Frame}
    (known : frame.Announced dialect) : frame.code ≠ separator := by
  intro same
  rw [Announced, same, announced?_separator] at known
  cases known

theorem Announced.code_ne_emptyMarker {dialect : Option Dialect} {frame : Frame}
    (known : frame.Announced dialect) : frame.code ≠ emptyMarker := by
  intro same
  rw [Announced, same, announced?_emptyMarker] at known
  cases known

@[simp] theorem closed_nil : closed [] = [] :=
  rfl

theorem closed_cons (frame : Frame) (frames : List Frame) :
    closed (frame :: frames) =
      frame.code :: (Escape.escape separator frame.data ++ separator :: closed frames) := by
  simp [closed, octets]

/-- A key that is not empty is its frames. -/
theorem keyOfFrames_octets {frames : List Frame} (filled : frames ≠ []) :
    keyOfFrames (frames.map octets) = closed frames := by
  cases frames with
  | nil => exact absurd rfl filled
  | cons frame frames => simp [keyOfFrames, closed, List.flatMap_map]

/-- Frames begin with a code, so a separator in front of them is a lone one. -/
theorem ends_closed_append {dialect : Option Dialect} {frames : List Frame}
    (known : ∀ frame ∈ frames, frame.Announced dialect) {tail : Bytes}
    (ordinary : tail.head? ≠ some separator) :
    Escape.Ends separator (separator :: (closed frames ++ tail)) := by
  refine Or.inr ⟨closed frames ++ tail, rfl, ?_⟩
  cases frames with
  | nil => exact ordinary
  | cons frame frames =>
      rw [closed_cons, List.cons_append, List.head?_cons]
      intro same
      exact (known frame List.mem_cons_self).code_ne_separator (Option.some.inj same)

theorem ends_closed {dialect : Option Dialect} {frames : List Frame}
    (known : ∀ frame ∈ frames, frame.Announced dialect) :
    Escape.Ends separator (separator :: closed frames) := by
  have ends : Escape.Ends separator (separator :: (closed frames ++ [])) :=
    ends_closed_append known (by simp)
  rwa [List.append_nil] at ends

/-- Different frames are written differently. -/
theorem closed_injective {dialect : Option Dialect} {as bs : List Frame}
    (knownA : ∀ frame ∈ as, frame.Announced dialect)
    (knownB : ∀ frame ∈ bs, frame.Announced dialect) (same : closed as = closed bs) : as = bs := by
  induction as generalizing bs with
  | nil =>
      cases bs with
      | nil => rfl
      | cons b bs => simp [closed_cons] at same
  | cons a as ih =>
      cases bs with
      | nil => simp [closed_cons] at same
      | cons b bs =>
          have knownAs : ∀ frame ∈ as, frame.Announced dialect :=
            fun frame member => knownA frame (List.mem_cons_of_mem _ member)
          have knownBs : ∀ frame ∈ bs, frame.Announced dialect :=
            fun frame member => knownB frame (List.mem_cons_of_mem _ member)
          rw [closed_cons, closed_cons, List.cons.injEq] at same
          rcases same with ⟨codes, behind⟩
          rcases Escape.escape_append_inj (ends_closed knownAs) (ends_closed knownBs) behind with
            ⟨data, tails⟩
          have kinds : some a.kind = some b.kind := by
            rw [← knownA a List.mem_cons_self, ← knownB b List.mem_cons_self, codes]
          have first : a = b := by
            cases a
            cases b
            rw [Frame.mk.injEq]
            exact ⟨codes, Option.some.inj kinds, data⟩
          rw [first, ih knownAs knownBs (List.cons.inj tails).2]

end Frame

/-- How the reading goes on with the octets from the separator on. -/
def scanBehind (dialect : Option Dialect) (read : List Frame) : Bytes -> Scan
  | [] => ⟨read.reverse, .unterminated⟩
  | [_] => ⟨read.reverse, .terminated⟩
  | _ :: next :: more => scanOnto dialect read next more

/-- A code that announces a kind is followed by the data of a frame. -/
theorem scanOnto_of_announced {dialect : Option Dialect} {code : UInt8} {kind : Kind}
    (known : announced? dialect code = some kind) (read : List Frame) (rest : Bytes) :
    scanOnto dialect read code rest =
      let pos := Escape.findSeparator separator rest
      let data := Escape.unescape separator (rest.take pos)
      if data.isEmpty then ⟨read.reverse, .emptyData code kind⟩
      else scanBehind dialect (⟨code, kind, data⟩ :: read) (rest.drop pos) := by
  rcases announced?_eq_some_iff.mp known with ⟨wire, found, ofKind⟩
  rw [scanOnto]
  simp only [found, ofKind]
  split
  · rfl
  · split <;> next behind => rw [behind]; rfl

theorem scanOnto_of_unannounced {dialect : Option Dialect} {code : UInt8}
    (unknown : announced? dialect code = none) (read : List Frame) (rest : Bytes) :
    scanOnto dialect read code rest =
      if read.isEmpty && (Wire.ofCode dialect code).isOk then ⟨[], .emptyRecord code⟩
      else ⟨read.reverse, .invalidCode code⟩ := by
  unfold announced? at unknown
  rw [scanOnto]
  cases meaning : Wire.ofCode dialect code with
  | error cause => simp [Except.isOk, Except.toBool]
  | ok wire =>
      have ofNone : wire.entryKind? = none := by
        rw [meaning] at unknown
        exact unknown
      simp [Except.isOk, Except.toBool, ofNone]

/-- What the reader does with one written frame depends on whether it has
data, and on what is left behind it. -/
theorem scanOnto_octets {dialect : Option Dialect} {frame : Frame}
    (known : frame.Announced dialect) (read : List Frame) {tail : Bytes}
    (ends : Escape.Ends separator tail) :
    scanOnto dialect read frame.code (Escape.escape separator frame.data ++ tail) =
      if frame.data.isEmpty then ⟨read.reverse, .emptyData frame.code frame.kind⟩
      else scanBehind dialect (frame :: read) tail := by
  rw [scanOnto_of_announced known]
  simp only [Escape.findSeparator_escape_append frame.data ends, List.take_left, List.drop_left,
    Escape.unescape_escape]

/-! ## All frames -/

/-- The outcome of reading written frames, with what was read before. -/
private theorem outcome_scanOnto_closed {dialect : Option Dialect} (first : Frame)
    (others : List Frame) (known : ∀ frame ∈ first :: others, frame.Announced dialect)
    (read : List Frame) :
    (scanOnto dialect read first.code
        (Escape.escape separator first.data ++ separator :: Frame.closed others)).outcome =
      if (first :: others).any (·.data.isEmpty) then .error .emptyData
      else .ok (read.reverse ++ first :: others) := by
  induction others generalizing first read with
  | nil =>
      have knownOthers : ∀ frame ∈ [], Frame.Announced dialect frame := by simp
      rw [scanOnto_octets (known first List.mem_cons_self) read (Frame.ends_closed knownOthers)]
      cases empty : first.data.isEmpty <;> simp [Scan.outcome, scanBehind, empty]
  | cons second others ih =>
      have knownOthers : ∀ frame ∈ second :: others, frame.Announced dialect :=
        fun frame member => known frame (List.mem_cons_of_mem _ member)
      rw [scanOnto_octets (known first List.mem_cons_self) read (Frame.ends_closed knownOthers)]
      cases empty : first.data.isEmpty with
      | true => simp [Scan.outcome, empty]
      | false =>
          have onOthers : (first :: second :: others).any (·.data.isEmpty) =
              (second :: others).any (·.data.isEmpty) := by
            rw [List.any_cons, empty, Bool.false_or]
          rw [Frame.closed_cons, scanBehind, if_neg Bool.false_ne_true,
            ih second knownOthers (first :: read), onOthers]
          simp

/-- The frames of a key are those that it was put together from. -/
theorem frames_keyOfFrames {dialect : Option Dialect} (written : List Frame)
    (known : ∀ frame ∈ written, frame.Announced dialect) :
    frames dialect (keyOfFrames (written.map Frame.octets)) =
      if written.any (·.data.isEmpty) then .error .emptyData else .ok written := by
  cases written with
  | nil => simp [keyOfFrames, frames]
  | cons first others =>
      have ofFirst := known first List.mem_cons_self
      have asClosed : keyOfFrames ((first :: others).map Frame.octets) =
          Frame.closed (first :: others) :=
        Frame.keyOfFrames_octets (List.cons_ne_nil first others)
      have ordinary : ¬ (first.code = separator ∨ first.code = emptyMarker) := by
        rintro (same | same)
        · exact ofFirst.code_ne_separator same
        · exact ofFirst.code_ne_emptyMarker same
      rw [asClosed, Frame.closed_cons, frames, if_neg ordinary, scan,
        outcome_scanOnto_closed first others known []]
      simp

end Key
end SortKey
