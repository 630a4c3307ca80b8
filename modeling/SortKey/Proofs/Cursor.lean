import SortKey.Cursor
import SortKey.Proofs.Field

namespace SortKey

/-!
# A reader undoes a writer

Fields that are written one after the other are read back one after the other,
whatever was written before them.  A field that is too long for its length is
refused and adds nothing, so the fields behind it are found where they would be
if it had not been there.  What a reader has to be told is the shape of each
field that was written.

Writing in place notices what is too long before it adds anything, and adds the
same octets as writing at once.
-/

/-! ## Writing -/

namespace Writer

theorem append_append (writer : Writer) (front back : Bytes) :
    (writer.append front).append back = writer.append (front ++ back) := by
  simp only [append, List.append_assoc]

theorem emitText_eq (content : String) (writer : Writer) :
    writer.emitText content = writer.append (Text.Modified.encode content) := by
  rw [emitText, Text.Modified.encodeOnto_eq]
  rfl

/-- Writing in place does what writing at once does, and leaves the writer as it
was when that fails. -/
theorem emit_eq_write (field : Field) (writer : Writer) :
    writer.emit field =
      match writer.write field with
      | .ok written => (.ok (), written)
      | .error cause => (.error cause, writer) := by
  cases field with
  | varInt n =>
      rw [emit, emitNumber, write, Field.encode]
      cases VarInt.encode n <;> rfl
  | buffer bytes =>
      rw [emit, emitNumber, write, Field.encode, Field.behindLength]
      cases VarInt.encode bytes.length with
      | error cause => rfl
      | ok length => exact congrArg (Prod.mk _) (append_append writer length bytes)
  | text content =>
      rw [emit, emitNumber, write, Field.encode, Field.behindLength]
      cases VarInt.encode (Text.Modified.encodedLength content) with
      | error cause => rfl
      | ok length =>
          simp only [emitText_eq, append_append]
          rfl
  | shortText content =>
      rw [emit, write, Field.encode]
      by_cases long : Text.Modified.encodedLength content > Field.longestShort
      · simp only [long, if_true]
      · simp only [long, if_false, emitText_eq, append_append]
        rfl
  | _ => rfl

/-- A field is added at the end, or refused for its length and not added. -/
theorem emit_eq (field : Field) (writer : Writer) :
    writer.emit field =
      match field.refusal? with
      | some cause => (.error cause, writer)
      | none => (.ok (), writer.append field.octets) := by
  rw [emit_eq_write, write, field.encode_eq]
  cases field.refusal? <;> rfl

end Writer

/-- What writing a field answers. -/
def Field.outcome (field : Field) : Except ByteError Unit :=
  match field.refusal? with
  | some cause => .error cause
  | none => .ok ()

namespace Writer

/-- The fields that fit are added in order, and each of the others answers why it
does not. -/
theorem emitAll_eq (fields : List Field) (writer : Writer) :
    writer.emitAll fields =
      (fields.map Field.outcome, writer.append ((fields.filter Field.fits).flatMap Field.octets)) := by
  induction fields generalizing writer with
  | nil => simp [emitAll, append]
  | cons field fields ih =>
      rw [emitAll, emit_eq, List.map_cons, Field.outcome]
      rcases refused : field.refusal? with _ | cause
      · have kept : field.fits = true := by rw [Field.fits, refused]; rfl
        rw [List.filter_cons_of_pos kept, List.flatMap_cons, ← append_append]
        simp only [ih]
      · have dropped : ¬ field.fits = true := by rw [Field.fits, refused]; exact Bool.false_ne_true
        rw [List.filter_cons_of_neg dropped]
        simp only [ih]

end Writer

/-! ## Reading -/

namespace Reader

/-- The reader with its position moved. -/
def advance (count : Nat) (reader : Reader) : Reader :=
  { reader with x := reader.x + count }

theorem advance_advance (front back : Nat) (reader : Reader) :
    (reader.advance front).advance back = reader.advance (front + back) := by
  simp only [advance, Nat.add_assoc]

theorem window_advance (count : Nat) (reader : Reader) :
    (reader.advance count).window = reader.window.drop count := by
  rw [window, window, advance, List.drop_drop]

theorem read_of_window {field : Field} {reader : Reader} {rest : Bytes} (room : field.fits)
    (ahead : reader.window = field.octets ++ rest) :
    reader.read field.shape = (.ok field, reader.advance field.octets.length) := by
  have taken : (field.octets ++ rest).length - rest.length = field.octets.length := by
    rw [List.length_append, Nat.add_sub_cancel]
  rw [read, run, ahead, field.read_octets_append room, advance, taken]

/-- Fields that stand ahead are found in order. -/
theorem readAll_of_window {fields : List Field} {reader : Reader} {rest : Bytes}
    (room : ∀ field ∈ fields, field.fits)
    (ahead : reader.window = fields.flatMap Field.octets ++ rest) :
    reader.readAll (fields.map Field.shape) =
      (fields.map .ok, reader.advance (fields.flatMap Field.octets).length) := by
  induction fields generalizing reader with
  | nil => rfl
  | cons field fields ih =>
      rw [List.flatMap_cons, List.append_assoc] at ahead
      have step := read_of_window (room field List.mem_cons_self) ahead
      have behind : (reader.advance field.octets.length).window =
          fields.flatMap Field.octets ++ rest := by
        rw [window_advance, ahead, List.drop_left]
      have others := ih (fun other member => room other (List.mem_cons_of_mem field member)) behind
      rw [List.map_cons, List.flatMap_cons, List.length_append, ← advance_advance, readAll]
      simp only [step, others, List.map_cons]

end Reader

/-! ## Both together -/

namespace Writer

/-- A field is added at the end of what was written before, or it is too long for
its length and nothing changes.  However many fields were tried, those that were
added are read back in order from behind what the writer held at first, and no
octet is left. -/
theorem read_emitted :
    (forall (writer : Writer) (field : Field),
      match field.refusal? with
      | some cause => writer.emit field = (.error cause, writer) ∧ writer.write field = .error cause
      | none => Exists fun octets => field.encode = .ok octets ∧
          writer.emit field = (.ok (), writer.append octets) ∧
          writer.write field = .ok (writer.append octets)) ∧
    (forall (writer : Writer) (fields : List Field),
      let emitted := writer.emitAll fields
      let added := fields.filter Field.fits
      let start : Reader := { Reader.ofBytes emitted.2.bytes with x := writer.bytes.length }
      emitted.1 = fields.map Field.outcome ∧
      emitted.2 = writer.append (added.flatMap Field.octets) ∧
      start.readAll (added.map Field.shape) =
        (added.map .ok, { start with x := emitted.2.bytes.length })) := by
  constructor
  · intro writer field
    rw [emit_eq, write, field.encode_eq]
    cases field.refusal? with
    | some cause => exact ⟨rfl, rfl⟩
    | none => exact ⟨field.octets, rfl, rfl, rfl⟩
  · intro writer fields
    rw [emitAll_eq]
    let octets := (fields.filter Field.fits).flatMap Field.octets
    have ahead : Reader.window ⟨writer.bytes ++ octets, writer.bytes.length,
        (writer.bytes ++ octets).length⟩ = octets ++ [] := by
      rw [Reader.window, List.take_length, List.drop_left, List.append_nil]
    have found := Reader.readAll_of_window (fun field member => (List.mem_filter.mp member).2) ahead
    refine ⟨rfl, rfl, ?_⟩
    rw [append, List.length_append]
    exact found

/-- What is behind a refused number stands where the number would. -/
example : (Writer.mk [9]).emitAll [.varInt 300, .varInt 0x80000000, .text "é"] =
    ([.ok (), .error (.tooLong 0x80000000 VarInt.largest), .ok ()],
      ⟨[9, 0xAC, 0x02, 0x02, 0xC3, 0xA9]⟩) := by
  decide

end Writer
end SortKey
