import SortKey.Proofs.Field
import Mathlib.Data.List.Infix

namespace SortKey

/-!
# Readings that depend on what they take and on nothing else

A reading is local when a success depends only on the octets that it takes: the
same is found with anything behind them, and with fewer of them the reading runs
out of octets.  No reading can do better than to ask for more when it gets a part
of what it takes, so the octets that are taken are the shortest that decide.

Local readings can be done one after the other.  All fields are local, because
each one looks at its length before it looks at its content, and looks at its
content only when all of it is there.
-/

/-- A reading as a function of the octets: what was found and what is left, or
why nothing was.  What a failure leaves is not looked at. -/
abbrev Parse (ε α : Type) := Bytes -> Except ε (α × Bytes)

namespace Parse

variable {ε δ α β : Type} {eof : ε}

/-- The content is found in these octets and in no part of them, and what stands
behind them is left. -/
structure Takes (eof : ε) (parse : Parse ε α) (front : Bytes) (content : α) : Prop where
  found : forall behind, parse (front ++ behind) = .ok (content, behind)
  cutOff : forall part, part <+: front -> part ≠ front -> parse part = .error eof

/-- Whatever is found is found in a front of the octets. -/
def Local (eof : ε) (parse : Parse ε α) : Prop :=
  forall bytes content rest, parse bytes = .ok (content, rest) ->
    Exists fun front => bytes = front ++ rest ∧ parse.Takes eof front content

/-- The content of a reading is looked at by another one, which goes on with what
is left. -/
def andThen (first : Parse ε α) (second : α -> Parse ε β) : Parse ε β := fun bytes =>
  match first bytes with
  | .ok (content, rest) => second content rest
  | .error cause => .error cause

/-- Contents and failures in other words. -/
def translated (parse : Parse ε α) (make : α -> β) (lift : ε -> δ) : Parse δ β := fun bytes =>
  match parse bytes with
  | .ok (content, rest) => .ok (make content, rest)
  | .error cause => .error (lift cause)

/-- Nothing is taken. -/
def given (result : Except ε α) : Parse ε α := fun bytes =>
  result.map fun content => (content, bytes)

theorem local_given (result : Except ε α) : Local eof (given result) := by
  intro bytes content rest read
  cases result with
  | error cause => cases read
  | ok found =>
      cases read
      refine ⟨[], rfl, fun behind => rfl, ?_⟩
      intro part inside shorter
      exact absurd (List.prefix_nil.mp inside) shorter

theorem Local.translated {parse : Parse ε α} (isLocal : Local eof parse) (make : α -> β)
    (lift : ε -> δ) : Local (lift eof) (parse.translated make lift) := by
  intro bytes made rest read
  unfold Parse.translated at read
  split at read
  · next content left step =>
      cases read
      rcases isLocal bytes content rest step with ⟨front, rfl, takes⟩
      refine ⟨front, rfl, ?_, ?_⟩
      · intro behind
        rw [Parse.translated, takes.found behind]
      · intro part inside shorter
        rw [Parse.translated, takes.cutOff part inside shorter]
  · cases read

/-- A part of two pieces misses something of the first piece, or holds it and
misses something of the second. -/
private theorem prefix_append_cases {part front more : Bytes} (inside : part <+: front ++ more)
    (shorter : part ≠ front ++ more) :
    (part <+: front ∧ part ≠ front) ∨
      Exists fun left => part = front ++ left ∧ left <+: more ∧ left ≠ more := by
  by_cases late : front <+: part
  · rcases late with ⟨left, rfl⟩
    refine Or.inr ⟨left, rfl, (List.prefix_append_right_inj front).mp inside, ?_⟩
    rintro rfl
    exact shorter rfl
  · rcases List.prefix_or_prefix_of_prefix inside (List.prefix_append front more) with early | early
    · refine Or.inl ⟨early, ?_⟩
      rintro rfl
      exact late (List.prefix_refl part)
    · exact absurd early late

/-- Local readings in a row are local. -/
theorem Local.andThen {first : Parse ε α} {second : α -> Parse ε β} (isLocal : Local eof first)
    (each : forall content, Local eof (second content)) : Local eof (first.andThen second) := by
  intro bytes made rest read
  unfold Parse.andThen at read
  split at read
  · next content middle step =>
      rcases isLocal bytes content middle step with ⟨front, rfl, takes⟩
      rcases each content middle made rest read with ⟨more, rfl, takesMore⟩
      refine ⟨front ++ more, (List.append_assoc front more rest).symm, ?_, ?_⟩
      · intro behind
        rw [List.append_assoc, Parse.andThen, takes.found]
        exact takesMore.found behind
      · intro part inside shorter
        rcases prefix_append_cases inside shorter with
          ⟨early, shorter⟩ | ⟨left, rfl, inside, shorter⟩
        · rw [Parse.andThen, takes.cutOff part early shorter]
        · rw [Parse.andThen, takes.found]
          exact takesMore.cutOff left inside shorter
  · cases read

end Parse

/-! ## Fields -/

namespace Reading

variable {α β : Type}

/-- What is found and left; failures without what they leave. -/
def parse (reading : Reading α) : Parse ByteError α := fun bytes =>
  (reading bytes).1.map fun content => (content, (reading bytes).2)

/-- A success depends on the octets that it takes, and fewer of them are too
few. -/
def Local (reading : Reading α) : Prop :=
  Parse.Local .endOfBuffer reading.parse

/-- A reading that looks further at the content of a local one. -/
theorem Local.checked {reading : Reading α} (isLocal : reading.Local) {other : Reading β}
    (check : α -> Except ByteError β)
    (looks : forall bytes, other bytes = ((reading bytes).1.bind check, (reading bytes).2)) :
    other.Local := by
  have same : other.parse = reading.parse.andThen fun content => Parse.given (check content) := by
    funext bytes
    rcases step : reading bytes with ⟨cause | content, rest⟩ <;>
      simp [parse, looks, step, Parse.andThen, Parse.given, Except.map, Except.bind]
  rw [Local, same]
  exact Parse.Local.andThen isLocal fun content => Parse.local_given (check content)

theorem Local.mapped {reading : Reading α} (isLocal : reading.Local) {other : Reading β}
    {make : α -> β}
    (looks : forall bytes, other bytes = ((reading bytes).1.map make, (reading bytes).2)) :
    other.Local := by
  have same : other.parse = reading.parse.translated make id := by
    funext bytes
    rcases step : reading bytes with ⟨cause | content, rest⟩ <;>
      simp [parse, looks, step, Parse.translated, Except.map]
  rw [Local, same]
  exact Parse.Local.translated isLocal make id

theorem local_take (count : Nat) : (take count).Local := by
  intro bytes content rest read
  rcases Nat.lt_or_ge bytes.length count with fewer | enough
  · rw [parse, take_of_lt fewer] at read
    cases read
  · have size : (bytes.take count).length = count := List.length_take_of_le enough
    rw [parse, take_of_le enough] at read
    cases read
    refine ⟨bytes.take count, (List.take_append_drop count bytes).symm, ?_, ?_⟩
    · intro behind
      rw [parse, take_append size]
      rfl
    · intro part inside shorter
      have fewer : part.length < count := by
        rw [← size]
        exact inside.length_le.lt_of_ne fun same => shorter (inside.eq_of_length same)
      rw [parse, take_of_lt fewer]
      rfl

theorem local_number (width : Nat) : (number width).Local :=
  (local_take width).mapped (number_eq width)

theorem local_octet : octet.Local :=
  (local_number 1).mapped octet_eq

theorem local_int32 : int32.Local :=
  (local_number 4).mapped int32_eq

theorem local_int64 : int64.Local :=
  (local_number 8).mapped int64_eq

theorem local_double : double.Local :=
  (local_number 8).mapped double_eq

theorem local_varInt : varInt.Local := by
  intro bytes content rest read
  rcases step : VarInt.decode bytes with cause | ⟨n, used⟩
  · rw [parse, varInt, step] at read
    cases read
  · rw [parse, varInt, step] at read
    cases read
    rcases VarInt.exists_groups step with ⟨front, rest, rfl, count, found, cutOff⟩
    refine ⟨front, by simp [count], ?_, ?_⟩
    · intro behind
      rw [parse, varInt, VarInt.decode, found behind]
      simp [Except.map, count]
    · intro part inside shorter
      rw [parse, varInt, VarInt.decode, cutOff part inside shorter]
      rfl

theorem Local.counted {length : Reading Nat} (isLocal : length.Local) :
    (counted length).Local := by
  have same : (Reading.counted length).parse =
      length.parse.andThen fun count => (take count).parse := by
    funext bytes
    rcases first : length bytes with ⟨cause | count, rest⟩
    · simp [parse, Reading.counted, first, Parse.andThen, Except.map]
    · rcases second : take count rest with ⟨cause | body, left⟩ <;>
        simp [parse, Reading.counted, first, second, Parse.andThen, Except.map]
  rw [Local, same]
  exact Parse.Local.andThen isLocal fun count => local_take count

theorem local_buffer : buffer.Local :=
  local_varInt.counted

theorem local_shortBuffer : shortBuffer.Local :=
  (local_number 2).counted

/-- Text is looked at when all its octets are there. -/
theorem Local.textOf {body : Reading Bytes} (isLocal : body.Local) : (textOf body).Local :=
  isLocal.checked _ (textOf_eq body)

theorem local_text : text.Local :=
  local_buffer.textOf

theorem local_shortText : shortText.Local :=
  local_shortBuffer.textOf

end Reading
end SortKey
