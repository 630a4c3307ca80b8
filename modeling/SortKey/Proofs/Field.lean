import SortKey.Field
import SortKey.Proofs.Octets
import SortKey.Proofs.Text.Modified
import SortKey.Proofs.VarInt

namespace SortKey
namespace Reading

/-!
# Fields are read back

A reading takes a field from the octets in which it was written and leaves
whatever stands behind them.  Lengths are read before what they announce, so
each field knows its own end and nothing behind it matters.
-/

/-! ## Fixed width -/

theorem take_append {front : Bytes} {count : Nat} (exact : front.length = count) (rest : Bytes) :
    take count (front ++ rest) = (.ok front, rest) := by
  subst exact
  simp [take]

theorem take_of_le {count : Nat} {bytes : Bytes} (enough : count ≤ bytes.length) :
    take count bytes = (.ok (bytes.take count), bytes.drop count) :=
  if_pos (List.length_take_of_le enough)

theorem take_of_lt {count : Nat} {bytes : Bytes} (fewer : bytes.length < count) :
    take count bytes = (.error .endOfBuffer, bytes) := by
  have short : ¬ (bytes.take count).length = count := by
    rw [List.length_take]
    omega
  exact if_neg short

theorem number_ofNat_append {width n : Nat} (fits : n < 256 ^ width) (rest : Bytes) :
    number width (Bytes.ofNat width n ++ rest) = (.ok n, rest) := by
  rw [number, take_append (Bytes.length_ofNat width n)]
  simp only [Bytes.toNat_ofNat, Nat.mod_eq_of_lt fits]

theorem int32_append (n : Int32) (rest : Bytes) :
    int32 (Bytes.ofNat 4 n.toUInt32.toNat ++ rest) = (.ok n, rest) := by
  have fits : n.toUInt32.toNat < 256 ^ 4 := n.toUInt32.toNat_lt
  rw [int32, number_ofNat_append fits]
  simp

theorem int64_append (n : Int64) (rest : Bytes) :
    int64 (Bytes.ofNat 8 n.toUInt64.toNat ++ rest) = (.ok n, rest) := by
  have fits : n.toUInt64.toNat < 256 ^ 8 := n.toUInt64.toNat_lt
  rw [int64, number_ofNat_append fits]
  simp

theorem double_append (bits : UInt64) (rest : Bytes) :
    double (Bytes.ofNat 8 bits.toNat ++ rest) = (.ok bits, rest) := by
  have fits : bits.toNat < 256 ^ 8 := bits.toNat_lt
  rw [double, number_ofNat_append fits]
  simp

/-! ### In other words

A number is its octets in other words, and the fields of fixed width are numbers in other
words.  A text is looked at further when its octets are there. -/

theorem number_eq (width : Nat) (bytes : Bytes) :
    number width bytes = ((take width bytes).1.map Bytes.toNat, (take width bytes).2) := by
  rw [number]
  rcases take width bytes with ⟨_ | _, _⟩ <;> rfl

theorem octet_eq (bytes : Bytes) :
    octet bytes = ((number 1 bytes).1.map UInt8.ofNat, (number 1 bytes).2) := by
  cases bytes with
  | nil => rfl
  | cons b rest =>
      have value : UInt8.ofNat (Bytes.toNat [b]) = b := by
        rw [Bytes.toNat_cons, List.length_nil, Nat.pow_zero, Nat.mul_one]
        exact UInt8.ofNat_toNat
      rw [number_eq, take_of_le (Nat.succ_le_succ (Nat.zero_le rest.length))]
      exact congrArg (fun found => (Except.ok found, rest)) value.symm

theorem int32_eq (bytes : Bytes) :
    int32 bytes =
      ((number 4 bytes).1.map fun n => (UInt32.ofNat n).toInt32, (number 4 bytes).2) := by
  rw [int32]
  rcases number 4 bytes with ⟨_ | _, _⟩ <;> rfl

theorem int64_eq (bytes : Bytes) :
    int64 bytes =
      ((number 8 bytes).1.map fun n => (UInt64.ofNat n).toInt64, (number 8 bytes).2) := by
  rw [int64]
  rcases number 8 bytes with ⟨_ | _, _⟩ <;> rfl

theorem double_eq (bytes : Bytes) :
    double bytes = ((number 8 bytes).1.map UInt64.ofNat, (number 8 bytes).2) := by
  rw [double]
  rcases number 8 bytes with ⟨_ | _, _⟩ <;> rfl

theorem textOf_eq (body : Reading Bytes) (bytes : Bytes) :
    textOf body bytes = ((body bytes).1.bind Text.Modified.decode, (body bytes).2) := by
  rw [textOf]
  rcases body bytes with ⟨_ | _, _⟩ <;> rfl

/-! ## Behind a length -/

theorem varInt_append {n : Nat} (inRange : n ≤ VarInt.largest) (rest : Bytes) :
    varInt (VarInt.octets n ++ rest) = (.ok n, rest) := by
  rw [varInt, VarInt.decode_octets_append inRange]
  simp only [List.drop_left]

section Counted

variable {length : Reading Nat} {bytes rest : Bytes} {count : Nat}

theorem counted_of_error {cause : ByteError} (refused : length bytes = (.error cause, rest)) :
    counted length bytes = (.error cause, rest) := by
  rw [counted, refused]

/-- The length is not taken either if the octets end before what it announces. -/
theorem counted_of_lt (read : length bytes = (.ok count, rest)) (fewer : rest.length < count) :
    counted length bytes = (.error .endOfBuffer, bytes) := by
  rw [counted, read]
  simp only [take_of_lt fewer]

theorem counted_of_le (read : length bytes = (.ok count, rest)) (enough : count ≤ rest.length) :
    counted length bytes = (.ok (rest.take count), rest.drop count) := by
  rw [counted, read]
  simp only [take_of_le enough]

end Counted

/-- Octets behind a length that announces them. -/
theorem counted_append {length : Reading Nat} {announced body : Bytes}
    (read : forall rest, length (announced ++ rest) = (.ok body.length, rest)) (rest : Bytes) :
    counted length (announced ++ body ++ rest) = (.ok body, rest) := by
  rw [List.append_assoc, counted, read]
  simp only [take_append rfl]

theorem buffer_append {content : Bytes} (short : content.length ≤ VarInt.largest) (rest : Bytes) :
    buffer (VarInt.octets content.length ++ content ++ rest) = (.ok content, rest) :=
  counted_append (varInt_append short) rest

/-- A text whose octets are found is found. -/
theorem textOf_eq_of_body {body : Reading Bytes} {content : String} {bytes rest : Bytes}
    (found : body bytes = (.ok (Text.Modified.encode content), rest)) :
    textOf body bytes = (.ok content, rest) := by
  rw [textOf, found]
  simp only [Text.Modified.decode_encode]

theorem text_append {content : String}
    (short : Text.Modified.encodedLength content ≤ VarInt.largest) (rest : Bytes) :
    text (VarInt.octets (Text.Modified.encodedLength content) ++ Text.Modified.encode content ++
      rest) = (.ok content, rest) := by
  rw [Text.Modified.encodedLength_eq_length] at short ⊢
  exact textOf_eq_of_body (buffer_append short rest)

theorem shortText_append {content : String}
    (short : Text.Modified.encodedLength content ≤ Field.longestShort) (rest : Bytes) :
    shortText (Bytes.ofNat 2 (Text.Modified.encodedLength content) ++ Text.Modified.encode content ++
      rest) = (.ok content, rest) := by
  rw [Text.Modified.encodedLength_eq_length] at short ⊢
  have fits : (Text.Modified.encode content).length < 256 ^ 2 :=
    Nat.lt_of_le_of_lt short (by decide)
  exact textOf_eq_of_body (counted_append (number_ofNat_append fits) rest)

end Reading

namespace Field

/-! ## What is written -/

/-- What a field is written as; nothing, if it cannot be written. -/
def octets (field : Field) : Bytes :=
  field.encode.toOption.getD []

theorem octets_of_encode {field : Field} {bytes : Bytes} (encoded : field.encode = .ok bytes) :
    field.octets = bytes := by
  rw [octets, encoded]
  rfl

theorem behindLength_eq (count : Nat) (body : Bytes) :
    behindLength count body =
      if count > VarInt.largest then .error (.tooLong count VarInt.largest)
      else .ok (VarInt.octets count ++ body) := by
  rw [behindLength, VarInt.encode]
  by_cases long : count > VarInt.largest
  · rw [if_pos long, if_pos long]
  · rw [if_neg long, if_neg long, VarInt.octets]

theorem behindLength_of_le {count : Nat} (short : count ≤ VarInt.largest) (body : Bytes) :
    behindLength count body = .ok (VarInt.octets count ++ body) := by
  rw [behindLength_eq, if_neg (Nat.not_lt.mpr short)]

theorem encode_buffer_of_le {content : Bytes} (short : content.length ≤ VarInt.largest) :
    encode (buffer content) = .ok (VarInt.octets content.length ++ content) :=
  behindLength_of_le short content

theorem encode_text_of_le {content : String}
    (short : Text.Modified.encodedLength content ≤ VarInt.largest) :
    encode (text content) = .ok (VarInt.octets (Text.Modified.encodedLength content) ++
      Text.Modified.encode content) :=
  behindLength_of_le short _

theorem encode_shortText_of_le {content : String}
    (short : Text.Modified.encodedLength content ≤ longestShort) :
    encode (shortText content) = .ok (Bytes.ofNat 2 (Text.Modified.encodedLength content) ++
      Text.Modified.encode content) := by
  rw [encode, if_neg (Nat.not_lt.mpr short)]

/-- The number that a field announces and the largest one for which it has
room, if it announces any. -/
def announced? : Field -> Option (Nat × Nat)
  | varInt n => some (n, VarInt.largest)
  | buffer bytes => some (bytes.length, VarInt.largest)
  | text content => some ((Text.Modified.encode content).length, VarInt.largest)
  | shortText content => some ((Text.Modified.encode content).length, longestShort)
  | _ => none

/-- Why a field cannot be written: what it announces is larger than it has room
for. -/
def refusal? (field : Field) : Option ByteError :=
  match field.announced? with
  | some (count, most) => if count > most then some (.tooLong count most) else none
  | none => none

/-- The field has room for what it announces. -/
def fits (field : Field) : Bool :=
  field.refusal?.isNone

/-- Only what is announced is looked at to find out whether there is room. -/
theorem encode_of_announced {field : Field} {count most : Nat}
    (announced : field.announced? = some (count, most)) :
    Exists fun body => field.encode =
      if count > most then .error (.tooLong count most) else .ok body := by
  cases field with
  | varInt n =>
      cases announced
      exact ⟨VarInt.octets count, rfl⟩
  | buffer bytes =>
      cases announced
      exact ⟨_, behindLength_eq _ _⟩
  | text content =>
      cases announced
      rw [← Text.Modified.encodedLength_eq_length]
      exact ⟨_, behindLength_eq _ _⟩
  | shortText content =>
      cases announced
      rw [← Text.Modified.encodedLength_eq_length]
      exact ⟨_, rfl⟩
  | _ => cases announced

/-- A field is refused when it is too long for the room that it has, and for
nothing else. -/
theorem encode_eq (field : Field) :
    field.encode =
      match field.refusal? with
      | some cause => .error cause
      | none => .ok field.octets := by
  rcases announced : field.announced? with _ | ⟨count, most⟩
  · have free : field.refusal? = none := by rw [refusal?, announced]
    rw [free]
    cases field with
    | varInt n => cases announced
    | buffer bytes => cases announced
    | text content => cases announced
    | shortText content => cases announced
    | _ => rfl
  · rcases encode_of_announced announced with ⟨body, encoded⟩
    rw [refusal?, announced]
    by_cases long : count > most
    · rw [encoded, if_pos long]
      simp only [long, if_true]
    · rw [if_neg long] at encoded
      simp only [long, if_false, octets_of_encode encoded, encoded]

/-- A field with enough room is read back from what is written of it, and nothing
behind it is looked at. -/
theorem read_octets_append (field : Field) (room : field.fits) (rest : Bytes) :
    field.shape.read (field.octets ++ rest) = (.ok field, rest) := by
  have short : forall {count most : Nat}, field.announced? = some (count, most) -> count ≤ most := by
    intro count most announced
    rw [fits, refusal?, announced] at room
    by_cases long : count > most
    · simp [long] at room
    · exact Nat.not_lt.mp long
  cases field with
  | octet b => rfl
  | word16 n =>
      have fits : n.toNat < 256 ^ 2 := n.toNat_lt
      have written : (word16 n).octets = Bytes.ofNat 2 n.toNat := rfl
      simp only [shape, Shape.read, written, Reading.number_ofNat_append fits]
      exact congrArg (fun n => (Except.ok (word16 n), rest)) UInt16.ofNat_toNat
  | int32 n =>
      have written : (int32 n).octets = Bytes.ofNat 4 n.toUInt32.toNat := rfl
      simp only [shape, Shape.read, written, Reading.int32_append]
      rfl
  | int64 n =>
      have written : (int64 n).octets = Bytes.ofNat 8 n.toUInt64.toNat := rfl
      simp only [shape, Shape.read, written, Reading.int64_append]
      rfl
  | double bits =>
      have written : (double bits).octets = Bytes.ofNat 8 bits.toNat := rfl
      simp only [shape, Shape.read, written, Reading.double_append]
      rfl
  | raw bytes =>
      have written : (raw bytes).octets = bytes := rfl
      simp only [shape, Shape.read, written, Reading.take_append rfl]
      rfl
  | varInt n =>
      have written : (varInt n).octets = VarInt.octets n :=
        octets_of_encode (VarInt.encode_of_le (short rfl))
      simp only [shape, Shape.read, written, Reading.varInt_append (short rfl)]
      rfl
  | buffer bytes =>
      simp only [shape, Shape.read, octets_of_encode (encode_buffer_of_le (short rfl)),
        Reading.buffer_append (short rfl)]
      rfl
  | text content =>
      have small : Text.Modified.encodedLength content ≤ VarInt.largest := by
        rw [Text.Modified.encodedLength_eq_length]
        exact short rfl
      simp only [shape, Shape.read, octets_of_encode (encode_text_of_le small), Reading.text_append small]
      rfl
  | shortText content =>
      have small : Text.Modified.encodedLength content ≤ longestShort := by
        rw [Text.Modified.encodedLength_eq_length]
        exact short rfl
      simp only [shape, Shape.read, octets_of_encode (encode_shortText_of_le small),
        Reading.shortText_append small]
      rfl

end Field
end SortKey
