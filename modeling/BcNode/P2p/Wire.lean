import BcNode.Protos.Core
import BcNode.Verified.Split

/-!
# Messages between peers

A message is text: a type of seven characters, a separator, and a body.  A block
goes over the wire as the text of its serialization, an array of bytes, which in
JavaScript is the decimals of the bytes with commas between them.

The codec and what the language makes of text where it expects a number are left
open where they matter (`Wire`); what is fixed is the text between.
`uint8Array_bytesText` is the round trip of a byte array.
-/

namespace BcNode.P2p

open BcNode.Verified BcNode.Js BcNode.Protos

/-- A JavaScript string. -/
abbrev Text := List Char

/-- `text.length`, in UTF-16 code units. -/
def jsLength : Text → Nat
  | [] => 0
  | c :: text => (if c.toNat < 0x10000 then 1 else 2) + jsLength text

theorem length_le_jsLength (text : Text) : text.length ≤ jsLength text := by
  induction text with
  | nil => exact Nat.le_refl 0
  | cons c text ih =>
      have hunits : 1 ≤ if c.toNat < 0x10000 then 1 else 2 := by split <;> omega
      rw [List.length_cons, jsLength]
      omega

theorem jsLength_append (a b : Text) : jsLength (a ++ b) = jsLength a + jsLength b := by
  induction a with
  | nil => rw [List.nil_append, jsLength, Nat.zero_add]
  | cons c a ih => rw [List.cons_append, jsLength, jsLength, ih, Nat.add_assoc]

/-- Only ASCII. -/
def Ascii (text : Text) : Prop := ∀ c ∈ text, c.toNat < 128

instance (text : Text) : Decidable (Ascii text) := List.decidableBAll _ text

theorem Ascii.jsLength {text : Text} (h : Ascii text) : jsLength text = text.length := by
  induction text with
  | nil => rfl
  | cons c text ih =>
      have hc := h c List.mem_cons_self
      have hunit : c.toNat < 0x10000 := by omega
      rw [P2p.jsLength, if_pos hunit, ih fun d hd => h d (List.mem_cons_of_mem c hd),
        List.length_cons, Nat.add_comm]

/-- What reading and writing messages rests on. -/
structure Wire where
  serializeBinary : BcBlock → List UInt8
  /-- `serializeBinary` of a `Block`. -/
  serializeBlock : Block → List UInt8
  /-- `serializeBinary` of a `BlockchainHeader`. -/
  serializeHeader : BlockchainHeader → List UInt8
  deserializeBinary : List UInt8 → Except JsError BcBlock
  /-- An element of `new Uint8Array(texts)` that is not a numeral, or one beyond
  `2 ^ 53`. -/
  textUint8 : Text → UInt8
  /-- `text > n` where `text` is not a decimal numeral. -/
  textGt : Text → Int → Bool

/-! ## Types -/

/-- The message types, `R01` for requests and `W01` for writes. -/
inductive MessageType where
  | r0000 | r0001 | w0002 | w0003 | w0004 | r0005 | r0006 | w0007 | r0008 | w0008
  | r0009 | w0010
  deriving DecidableEq, Repr

def MessageType.all : List MessageType :=
  [.r0000, .r0001, .w0002, .w0003, .w0004, .r0005, .r0006, .w0007, .r0008, .w0008,
    .r0009, .w0010]

def MessageType.text : MessageType → Text
  | .r0000 => "0000R01".toList
  | .r0001 => "0001R01".toList
  | .w0002 => "0002W01".toList
  | .w0003 => "0003W01".toList
  | .w0004 => "0004W01".toList
  | .r0005 => "0005R01".toList
  | .r0006 => "0006R01".toList
  | .w0007 => "0007W01".toList
  | .r0008 => "0008R01".toList
  | .w0008 => "0008W01".toList
  | .r0009 => "0009R01".toList
  | .w0010 => "0010W01".toList

/-- The type a text is the name of. -/
def MessageType.ofText? (text : Text) : Option MessageType :=
  MessageType.all.find? (·.text == text)

/-- `protocolBits[type]`. -/
def protocolBits : MessageType → Text := fun _ => "[*]".toList

theorem MessageType.ofText?_text (type : MessageType) :
    MessageType.ofText? type.text = some type := by
  cases type <;> decide

/-- The separator cannot start inside a type. -/
theorem MessageType.bracket_notMem (type : MessageType) : '[' ∉ type.text := by
  cases type <;> decide

/-- `type + protocolBits[type] + body`. -/
def message (type : MessageType) (body : Text) : Text :=
  type.text ++ protocolBits type ++ body

/-- `parts.join(protocolBits[type])`. -/
def joinParts (type : MessageType) (parts : List Text) : Text :=
  (protocolBits type).intercalate parts

/-- `text.split(protocolBits[type])`. -/
def splitMessage (type : MessageType) (text : Text) : List Text :=
  Split.splitOn (protocolBits type) text

theorem message_take (type : MessageType) (body : Text) :
    (message type body).take 7 = type.text := by
  cases type <;> rfl

theorem eight_le_message (type : MessageType) (body : Text) :
    8 ≤ jsLength (message type body) := by
  have hlength : (type.text ++ protocolBits type).length = 10 := by cases type <;> rfl
  have hle := length_le_jsLength (type.text ++ protocolBits type)
  rw [message, jsLength_append]
  omega

/-- A message is split into what it was made of. -/
theorem splitMessage_message (type : MessageType) {parts : List Text} (hne : parts ≠ [])
    (hparts : ∀ part ∈ parts, '[' ∉ part) :
    splitMessage type (message type (joinParts type parts)) = type.text :: parts := by
  obtain ⟨part, rest, rfl⟩ := List.exists_cons_of_ne_nil hne
  have hjoined : message type (joinParts type (part :: rest)) =
      (protocolBits type).intercalate (type.text :: part :: rest) :=
    (List.intercalate_cons_cons ..).symm
  rw [hjoined]
  apply Split.splitOn_intercalate (List.cons_ne_nil _ _)
  simp only [List.forall_mem_cons]
  exact ⟨type.bracket_notMem, List.forall_mem_cons.1 hparts⟩

/-! ## Byte arrays -/

/-- A `Uint8Array` as text. -/
def bytesText (bytes : List UInt8) : Text :=
  [','].intercalate (bytes.map fun byte => (toString byte.toNat).toList)

/-- An element of `new Uint8Array(texts)`. -/
def Wire.uint8 (wire : Wire) (text : Text) : UInt8 :=
  match Decimal.digits? text with
  | some n => if n < Nat.pow 2 53 then UInt8.ofNat n else wire.textUint8 text
  | none => wire.textUint8 text

/-- `new Uint8Array(text.split(','))`. -/
def Wire.uint8Array (wire : Wire) (text : Text) : List UInt8 :=
  (Split.splitOn [','] text).map wire.uint8

theorem isDigit_of_mem_bytesText {bytes : List UInt8} {c : Char}
    (hc : c ∈ bytesText bytes) : c = ',' ∨ c.isDigit = true := by
  rw [bytesText] at hc
  induction bytes with
  | nil => cases hc
  | cons byte bytes ih =>
      cases bytes with
      | nil =>
          rw [List.map_singleton, List.intercalate_singleton] at hc
          exact Or.inr (Decimal.isDigit_of_mem_toString hc)
      | cons byte' bytes =>
          rw [List.map_cons, List.map_cons, List.intercalate_cons_cons, List.append_assoc,
            List.mem_append, List.mem_append, List.mem_singleton] at hc
          rcases hc with hc | hc | hc
          · exact Or.inr (Decimal.isDigit_of_mem_toString hc)
          · exact Or.inl hc
          · exact ih hc

theorem bracket_notMem_bytesText (bytes : List UInt8) : '[' ∉ bytesText bytes := by
  intro h
  rcases isDigit_of_mem_bytesText h with hcomma | hdigit
  · exact absurd hcomma (by decide)
  · exact absurd hdigit (by decide)

theorem Wire.uint8_toString (wire : Wire) (byte : UInt8) :
    wire.uint8 (toString byte.toNat).toList = byte := by
  have hlt : byte.toNat < Nat.pow 2 53 :=
    Nat.lt_of_lt_of_le byte.toNat_lt (by decide)
  rw [Wire.uint8, Nat.toString_eq_repr, Nat.toList_repr, Decimal.digits?_toDigits]
  simp only [hlt, if_true]
  exact UInt8.ofNat_toNat

/-- **The round trip of a byte array**, as soon as it has an element: the text of
an empty array is read as a single zero. -/
theorem Wire.uint8Array_bytesText (wire : Wire) {bytes : List UInt8} (h : bytes ≠ []) :
    wire.uint8Array (bytesText bytes) = bytes := by
  have hcomma : ∀ part ∈ bytes.map fun byte => (toString byte.toNat).toList,
      ',' ∉ part := by
    intro part hpart hmem
    obtain ⟨byte, _, rfl⟩ := List.mem_map.1 hpart
    exact absurd (Decimal.isDigit_of_mem_toString hmem) (by decide)
  rw [Wire.uint8Array, bytesText, Split.splitOn_intercalate (by simpa using h) hcomma,
    List.map_map]
  exact List.map_id'' (fun byte => wire.uint8_toString byte) bytes

example (wire : Wire) : wire.uint8Array (bytesText []) = [0] := rfl

end BcNode.P2p
