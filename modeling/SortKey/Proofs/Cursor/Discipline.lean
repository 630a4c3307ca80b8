import SortKey.Proofs.Cursor
import SortKey.Proofs.Field.Extent

namespace SortKey
namespace Reader

/-!
# Where a reader stands

A reader never leaves the octets up to its end, whatever it is asked and in whatever
order.  What it answers and where it moves depends on the octets between its position
and its end alone.  It moves past what it finds, and past a text that is malformed,
and in every other case it stays where it was.

This holds of reading part by part as well.  There the reader moves past the length
before it knows whether the octets are there that the length announces, and has to go
back if they are not.
-/

/-- The reader stands on its octets, not behind its end. -/
structure Within (reader : Reader) : Prop where
  x_le : reader.x ≤ reader.stop
  stop_le : reader.stop ≤ reader.bytes.length

/-- The same reader on other octets. -/
def onBytes (bytes : Bytes) (reader : Reader) : Reader :=
  { reader with bytes := bytes }

/-! ## The octets ahead -/

theorem length_window {reader : Reader} (within : reader.Within) :
    reader.window.length = reader.size := by
  rw [window, List.length_drop, List.length_take_of_le within.stop_le, size]

theorem Within.advance {reader : Reader} (within : reader.Within) {count : Nat}
    (inside : count ≤ reader.size) : (reader.advance count).Within := by
  refine ⟨?_, within.stop_le⟩
  have := within.x_le
  have total : reader.size = reader.stop - reader.x := rfl
  have moved : (reader.advance count).x = reader.x + count := rfl
  have kept : (reader.advance count).stop = reader.stop := rfl
  omega

theorem window_take {reader : Reader} {count : Nat} (inside : count ≤ reader.size) :
    reader.window.take count = (reader.bytes.drop reader.x).take count := by
  have total : reader.size = reader.stop - reader.x := rfl
  rw [window, List.drop_take, List.take_take, Nat.min_eq_left (by omega)]

/-- A reading that leaves its octets, except for some in front, moves past these. -/
theorem run_of_drop {α : Type} {reading : Reading α} {reader : Reader} {count : Nat}
    {result : Except ByteError α} (within : reader.Within) (inside : count ≤ reader.size)
    (read : reading reader.window = (result, reader.window.drop count)) :
    reader.run reading = (result, reader.advance count) := by
  have used : reader.window.length - (reader.window.drop count).length = count := by
    rw [List.length_drop, length_window within]
    omega
  rw [run, read, advance, used]

theorem run_of_kept {α : Type} {reading : Reading α} {reader : Reader}
    {result : Except ByteError α} (read : reading reader.window = (result, reader.window)) :
    reader.run reading = (result, reader) := by
  rw [run, read, Nat.sub_self]
  rfl

/-! ## Part by part -/

/-- The steps move as the reading does. -/
def InPlace {α : Type} (steps : Reader -> Except ByteError α × Reader) (reading : Reading α) :
    Prop :=
  forall reader, reader.Within -> steps reader = reader.run reading

section InPlace

variable {α β : Type}

theorem inPlace_next (count : Nat) : InPlace (next count) (Reading.take count) := by
  intro reader within
  have ahead := length_window within
  rcases Nat.lt_or_ge reader.size count with fewer | enough
  · rw [run_of_kept (Reading.take_of_lt (by rwa [ahead])), next, if_pos fewer]
  · rw [run_of_drop within enough (Reading.take_of_le (by rwa [ahead])), next,
      if_neg (Nat.not_lt.mpr enough), window_take enough]
    rfl

theorem inPlace_nextVarInt : InPlace nextVarInt Reading.varInt := by
  intro reader within
  rw [nextVarInt]
  have tells := Reading.told_varInt reader.window
  generalize reading : Reading.varInt reader.window = found at tells
  cases tells with
  | not refused =>
      rw [run_of_kept reading, refused]
  | length read inside =>
      rw [length_window within] at inside
      rw [run_of_drop within inside reading, read]
      rfl

theorem InPlace.answering {steps : Reader -> Except ByteError α × Reader} {reading : Reading α}
    (inPlace : InPlace steps reading) {other : Reading β} {make : α -> β}
    (looks : forall bytes, other bytes = ((reading bytes).1.map make, (reading bytes).2)) :
    InPlace (fun reader => answering make (steps reader)) other := by
  intro reader within
  simp only [Reader.answering, inPlace reader within, run, looks]

theorem inPlace_nextNumber (width : Nat) : InPlace (nextNumber width) (Reading.number width) :=
  (inPlace_next width).answering (Reading.number_eq width)

/-- The reader goes back in front of a length that announces more than there is. -/
theorem InPlace.nextCounted {steps : Reader -> Except ByteError Nat × Reader} {length : Reading Nat}
    {told : Bytes -> Except ByteError (Nat × Nat)} (inPlace : InPlace steps length)
    (tells : forall bytes, Reading.Told (told bytes) bytes (length bytes)) :
    InPlace (nextCounted steps) (Reading.counted length) := by
  intro reader within
  rw [Reader.nextCounted, inPlace reader within]
  have tells := tells reader.window
  generalize first : length reader.window = found at tells
  cases tells with
  | not refused => rw [run_of_kept first, run_of_kept (Reading.counted_of_error first)]
  | @length count used read inside =>
      rw [length_window within] at inside
      rw [run_of_drop within inside first]
      have moved := within.advance inside
      have behind : (reader.advance used).window = reader.window.drop used :=
        reader.window_advance used
      have left : (reader.advance used).size = reader.size - used := by
        rw [size, size, advance, Nat.sub_add_eq]
      simp only [inPlace_next count _ moved]
      rcases Nat.lt_or_ge (reader.advance used).size count with fewer | enough
      · have missing : (reader.window.drop used).length < count := by
          rwa [← behind, length_window moved]
        rw [run_of_kept (Reading.counted_of_lt first missing),
          run_of_kept (by rw [behind, Reading.take_of_lt missing])]
        rfl
      · have there : count ≤ (reader.window.drop used).length := by
          rwa [← behind, length_window moved]
        have taken := Reading.counted_of_le first there
        rw [List.drop_drop] at taken
        rw [run_of_drop within (by omega) taken,
          run_of_drop moved enough (by rw [behind, Reading.take_of_le there]), advance_advance]

theorem InPlace.nextText {steps : Reader -> Except ByteError Nat × Reader} {length : Reading Nat}
    {told : Bytes -> Except ByteError (Nat × Nat)} (inPlace : InPlace steps length)
    (tells : forall bytes, Reading.Told (told bytes) bytes (length bytes)) :
    InPlace (nextText steps) (Reading.textOf (Reading.counted length)) := by
  intro reader within
  rw [Reader.nextText, inPlace.nextCounted tells reader within]
  simp only [run, Reading.textOf_eq]
  cases (Reading.counted length reader.window).1 <;> rfl

end InPlace

/-- Reading part by part does what reading at once does. -/
theorem readInPlace_eq (shape : Field.Shape) {reader : Reader} (within : reader.Within) :
    reader.readInPlace shape = reader.read shape := by
  have packed : forall {α : Type} {make : α -> Field} {reading : Reading α} (bytes : Bytes), _ :=
    fun {α make reading} bytes => Field.Shape.packed_eq (α := α) make (reading bytes)
  cases shape with
  | octet =>
      exact ((inPlace_nextNumber 1).answering Reading.octet_eq).answering packed reader within
  | word16 => exact (inPlace_nextNumber 2).answering packed reader within
  | int32 =>
      exact ((inPlace_nextNumber 4).answering Reading.int32_eq).answering packed reader within
  | int64 =>
      exact ((inPlace_nextNumber 8).answering Reading.int64_eq).answering packed reader within
  | double =>
      exact ((inPlace_nextNumber 8).answering Reading.double_eq).answering packed reader within
  | raw count => exact (inPlace_next count).answering packed reader within
  | varInt => exact inPlace_nextVarInt.answering packed reader within
  | buffer =>
      exact (inPlace_nextVarInt.nextCounted Reading.told_varInt).answering packed reader within
  | text => exact (inPlace_nextVarInt.nextText Reading.told_varInt).answering packed reader within
  | shortText =>
      exact ((inPlace_nextNumber 2).nextText Reading.told_number).answering packed reader within

/-! ## Asking -/

/-- How many octets have to be there for an answer. -/
def Request.extent : Request -> Bytes -> Except ByteError Nat
  | .field shape, bytes => shape.extent bytes
  | .peek, _ => .ok 1
  | .skip count, _ => .ok count

/-- How many octets an answer takes of those that have to be there. -/
def Request.taken : Request -> Nat -> Nat
  | .peek, _ => 0
  | _, count => count

/-- The ways in which a reader can answer and move. -/
inductive Moves (request : Request) (before : Reader) : Except ByteError Answer × Reader -> Prop
  /-- It moves past what it finds; a look ahead takes nothing. -/
  | found {count : Nat} {answer : Answer} (told : request.extent before.window = .ok count)
      (inside : count ≤ before.size) :
      Moves request before (.ok answer, before.advance (request.taken count))
  /-- It stays where it is when the octets end before what it is asked for. -/
  | cutOff {count : Nat} (told : request.extent before.window = .ok count)
      (fewer : before.size < count) : Moves request before (.error .endOfBuffer, before)
  /-- It stays where it is when a length is cut off or spells no number. -/
  | untold {cause : ByteError} (refused : request.extent before.window = .error cause)
      (causes : cause = .endOfBuffer ∨ cause = .malformedVarInt) :
      Moves request before (.error cause, before)
  /-- It moves past octets that are no text. -/
  | malformed {count : Nat} (told : request.extent before.window = .ok count)
      (inside : count ≤ before.size) :
      Moves request before (.error .malformedText, before.advance count)

theorem moves_read (shape : Field.Shape) {reader : Reader} (within : reader.Within) :
    Moves (.field shape) reader (answering .field (reader.read shape)) := by
  have ahead := length_window within
  have spanned := shape.spanned_read reader.window
  generalize reading : shape.read reader.window = found at spanned
  rw [read]
  cases spanned with
  | untold untold =>
      rw [run_of_kept reading]
      exact .untold untold (Field.Shape.extent_error untold)
  | cutOff told fewer =>
      rw [run_of_kept reading]
      exact .cutOff told (by rwa [ahead] at fewer)
  | @taken count result told enough onText =>
      rw [ahead] at enough
      rw [run_of_drop within enough reading]
      cases result with
      | ok field => exact .found told enough
      | error cause =>
          rw [onText cause rfl]
          exact .malformed told enough

theorem moves_ask (request : Request) {reader : Reader} (within : reader.Within) :
    Moves request reader (reader.ask request) := by
  cases request with
  | field shape => exact moves_read shape within
  | peek =>
      have ahead := length_window within
      rw [ask, peek]
      cases octets : reader.window with
      | nil =>
          rw [octets] at ahead
          exact .cutOff rfl (by rw [← ahead]; exact Nat.zero_lt_one)
      | cons b rest =>
          rw [octets] at ahead
          have inside : 1 ≤ reader.size := ahead ▸ Nat.succ_le_succ (Nat.zero_le rest.length)
          exact .found rfl inside
  | skip count =>
      rw [ask, skip]
      by_cases fewer : count > reader.size
      · rw [if_pos fewer]
        exact .cutOff rfl fewer
      · rw [if_neg fewer]
        exact .found rfl (Nat.not_lt.mp fewer)

/-- A later state of a reader. -/
structure Follows (reader after : Reader) : Prop where
  within : after.Within
  bytes : after.bytes = reader.bytes
  stop : after.stop = reader.stop
  x_le : reader.x ≤ after.x

theorem Within.follows_advance {reader : Reader} (within : reader.Within) {count : Nat}
    (inside : count ≤ reader.size) : reader.Follows (reader.advance count) :=
  ⟨within.advance inside, rfl, rfl, Nat.le_add_right _ _⟩

/-- One answer leaves the reader within its octets. -/
theorem Moves.follows {request : Request} {before : Reader}
    {outcome : Except ByteError Answer × Reader} (moves : Moves request before outcome)
    (within : before.Within) : before.Follows outcome.2 := by
  cases moves with
  | @found count answer told inside =>
      refine within.follows_advance (Nat.le_trans ?_ inside)
      cases request with
      | peek => exact Nat.zero_le count
      | _ => exact Nat.le_refl count
  | cutOff | untold => exact ⟨within, rfl, rfl, Nat.le_refl _⟩
  | malformed told inside => exact within.follows_advance inside

/-- So do any number of them. -/
theorem follows_askAll (requests : List Request) {reader : Reader} (within : reader.Within) :
    reader.Follows (reader.askAll requests).2 := by
  induction requests generalizing reader with
  | nil => exact ⟨within, rfl, rfl, Nat.le_refl _⟩
  | cons request requests ih =>
      have first := (moves_ask request within).follows within
      have others := ih first.within
      exact ⟨others.within, others.bytes.trans first.bytes, others.stop.trans first.stop,
        Nat.le_trans first.x_le others.x_le⟩

/-! ## What is not looked at -/

/-- Octets from the end on do not matter for one answer. -/
theorem ask_onBytes (request : Request) {reader : Reader} {bytes : Bytes}
    (same : bytes.take reader.stop = reader.bytes.take reader.stop) :
    (reader.onBytes bytes).ask request =
      ((reader.ask request).1, (reader.ask request).2.onBytes bytes) := by
  have ahead : (reader.onBytes bytes).window = reader.window := congrArg (List.drop reader.x) same
  cases request with
  | field shape =>
      simp only [ask, answering, read, run, ahead]
      rfl
  | peek =>
      simp only [ask, peek, ahead]
  | skip count =>
      have total : (reader.onBytes bytes).size = reader.size := rfl
      rw [ask, ask, skip, skip, total]
      split <;> rfl

/-- Nor do they matter for any number of answers. -/
theorem askAll_onBytes (requests : List Request) {reader : Reader} (within : reader.Within)
    {bytes : Bytes} (same : bytes.take reader.stop = reader.bytes.take reader.stop) :
    (reader.onBytes bytes).askAll requests =
      ((reader.askAll requests).1, (reader.askAll requests).2.onBytes bytes) := by
  induction requests generalizing reader with
  | nil => rfl
  | cons request requests ih =>
      have first := (moves_ask request within).follows within
      have sameBehind : bytes.take (reader.ask request).2.stop =
          (reader.ask request).2.bytes.take (reader.ask request).2.stop := by
        rwa [first.stop, first.bytes]
      simp only [askAll, ask_onBytes request same, ih first.within sameBehind]

/-- After whatever a reader was asked, it stands on the same octets with the same end
and not behind it, and none of the octets from the end on was looked at.  What it is
asked next moves it past what it finds or past a malformed text, and otherwise leaves
it where it is.  Reading part by part comes to the same. -/
theorem asked_stays_within {reader : Reader} (within : reader.Within) (requests : List Request) :
    let before := (reader.askAll requests).2
    reader.Follows before ∧
    (forall bytes : Bytes, bytes.take reader.stop = reader.bytes.take reader.stop ->
      (reader.onBytes bytes).askAll requests = ((reader.askAll requests).1, before.onBytes bytes)) ∧
    (forall request, Moves request before (before.ask request)) ∧
    (forall shape, before.readInPlace shape = before.read shape) := by
  intro before
  have follows : reader.Follows before := follows_askAll requests within
  exact ⟨follows, fun bytes same => askAll_onBytes requests within same,
    fun request => moves_ask request follows.within,
    fun shape => readInPlace_eq shape follows.within⟩

/-- Behind one octet stand a text that is malformed and one that is cut off by an end
set in front of the last two octets. -/
theorem asked_stays_within_at_texts :
    let reader : Reader := ⟨[7, 1, 0xC3, 2, 97, 98, 99], 1, 5⟩
    reader.Within ∧
      reader.askAll [.field .text, .field .text, .peek, .skip (2 ^ 64 - 1)] =
        ([.error .malformedText, .error .endOfBuffer, .ok (.octet 2), .error .endOfBuffer],
          reader.advance 2) ∧
      (reader.onBytes [7, 1, 0xC3, 2, 97]).askAll [.field .text, .field .text] =
        ([.error .malformedText, .error .endOfBuffer],
          (reader.advance 2).onBytes [7, 1, 0xC3, 2, 97]) ∧
      Moves (.field .varInt) (reader.advance 2) (.ok (.field (.varInt 2)), reader.advance 3) ∧
      (reader.advance 2).readInPlace .text = (.error .endOfBuffer, reader.advance 2) := by
  intro reader
  have within : reader.Within := ⟨by decide, by decide⟩
  have answers : reader.askAll [.field .text, .field .text, .peek, .skip (2 ^ 64 - 1)] =
      ([.error .malformedText, .error .endOfBuffer, .ok (.octet 2), .error .endOfBuffer],
        reader.advance 2) := by decide
  have asked : reader.askAll [.field .text, .field .text] =
      ([.error .malformedText, .error .endOfBuffer], reader.advance 2) := by decide
  have found : (reader.advance 2).ask (.field .varInt) =
      (.ok (.field (.varInt 2)), reader.advance 3) := by decide
  rcases asked_stays_within within [.field .text, .field .text] with ⟨_, unseen, moves, inPlace⟩
  rw [asked] at unseen moves inPlace
  refine ⟨within, answers, unseen [7, 1, 0xC3, 2, 97] (by decide), ?_,
    (inPlace .text).trans (by decide)⟩
  rw [<- found]
  exact moves (.field .varInt)

end Reader
end SortKey
