import BcNode.Protos.Core

/-!
# The codec of the store

`serialize` and `deserialize` of `persistence/codec`.  A value is wrapped in a
`DbValue`: a message under the name of its constructor with its binary encoding,
anything else as JSON text in base64.

The two functions look at different things.  `serialize` takes for a message
whatever has a constructor whose `displayName` matches `proto.bc.*`; `deserialize`
looks the name up in `BC_MESSAGES_MAP`, which has four of the fourteen message
types.  `roundTrips_iff` says which values come back.

JSON text, base64 and the binary encodings belong to the language and to the
protobuf package.  They are the fields of `Encodings`, and `LosslessOn` is the
assumption that they lose nothing of one value.
-/

namespace BcNode.Persistence

/-- The generated message classes. -/
inductive MessageType where
  | getLatestBlocksResponse
  | helpResponse
  | statsResponse
  | null
  | block
  | blockchainHeaders
  | bcBlock
  | bcTransaction
  | blockchainHeader
  | dbValue
  | blockFingerprint
  | minerRequest
  | minerResponse
  | messageGetObjectsRequest
  deriving DecidableEq, Repr

/-- `displayName` of a message class. -/
def MessageType.displayName : MessageType → String
  | .getLatestBlocksResponse => "proto.bc.GetLatestBlocksResponse"
  | .helpResponse => "proto.bc.HelpResponse"
  | .statsResponse => "proto.bc.StatsResponse"
  | .null => "proto.bc.Null"
  | .block => "proto.bc.Block"
  | .blockchainHeaders => "proto.bc.BlockchainHeaders"
  | .bcBlock => "proto.bc.BcBlock"
  | .bcTransaction => "proto.bc.BcTransaction"
  | .blockchainHeader => "proto.bc.BlockchainHeader"
  | .dbValue => "proto.bc.DbValue"
  | .blockFingerprint => "proto.bc.BlockFingerprint"
  | .minerRequest => "proto.bc.MinerRequest"
  | .minerResponse => "proto.bc.MinerResponse"
  | .messageGetObjectsRequest => "proto.bc.MessageGetObjectsRequest"

/-- A JSON value.  A number is a decimal mantissa with its exponent. -/
inductive Json where
  | null
  | bool (value : Bool)
  | number (mantissa exponent : Int)
  | string (text : String)
  | array (items : List Json)
  | object (props : List (String × Json))

/-- What `serialize` can be given.  Messages keep the content their class
holds. -/
inductive JsValue (Contents : MessageType → Type) where
  | undefined
  | native (json : Json)
  | message (type : MessageType) (content : Contents type)

/-- What the codec throws. -/
inductive Thrown where
  | typeError (message : String)
  | error (message : String)
  deriving DecidableEq, Repr

/-! ## Is it a message? -/

/-- A property of a JSON value; only objects have any of these names. -/
def Json.prop (json : Json) (key : String) : Option Json :=
  match json with
  | .object props => props.lookup key
  | _ => none

/-- `path(['constructor', 'displayName'], val)`.  A JSON object can have a
`constructor` of its own; the built-in ones have no `displayName`. -/
def JsValue.constructorDisplayName {Contents : MessageType → Type} :
    JsValue Contents → Option Json
  | .undefined => none
  | .native json => (json.prop "constructor").bind (·.prop "displayName")
  | .message type _ => some (.string type.displayName)

/-- `Boolean(json)`. -/
def Json.truthy : Json → Bool
  | .null => false
  | .bool value => value
  | .number mantissa _ => mantissa != 0
  | .string text => text != ""
  | .array _ => true
  | .object _ => true

/-- `/^proto\.bc\.(.*)/` on a text. -/
def matchesMessageType (text : String) : Bool :=
  "proto.bc.".toList.isPrefixOf text.toList

mutual

/-- `_isBCMessageType`.  `test` turns what it is given into text: the one of a
number, a boolean or `null` never matches, and an object with a `toString` of its
own has none. -/
def isBCMessageType : Json → Except Thrown Bool
  | .string text => .ok (matchesMessageType text)
  | .array items => isBCMessageTypeJoined items
  | .object props =>
      if props.any fun entry => entry.1 == "toString" then
        .error (.typeError "Cannot convert object to primitive value")
      else .ok false
  | _ => .ok false

/-- The same on the elements of an array joined with commas.  There is no comma in
`proto.bc.`, so the first element decides; the others can still throw. -/
def isBCMessageTypeJoined : List Json → Except Thrown Bool
  | [] => .ok false
  | item :: items => do
      let found ← isBCMessageType item
      let _ ← isBCMessageTypeJoined items
      return found

end

/-- `_getBCConstructorName`: what follows the prefix, up to the end of the line. -/
def getBCConstructorName (text : String) : String :=
  String.ofList ((text.toList.drop "proto.bc.".length).takeWhile fun c =>
    c != '\n' && c != '\r' && c != '\u2028' && c != '\u2029')

/-- `valueType && _isBCMessageType(valueType)`. -/
def JsValue.takenForMessage {Contents : MessageType → Type} (val : JsValue Contents) :
    Except Thrown Bool :=
  match val.constructorDisplayName with
  | some valueType => if valueType.truthy then isBCMessageType valueType else .ok false
  | none => .ok false

/-! ## `serialize` and `deserialize` -/

abbrev Bytes := List UInt8

/-- `BC_MESSAGES_MAP`. -/
def bcMessagesMap : String → Option MessageType
  | "Block" => some .block
  | "BcBlock" => some .bcBlock
  | "BlockchainHeader" => some .blockchainHeader
  | "BlockchainHeaders" => some .blockchainHeaders
  | _ => none

/-- The `data` field of a `DbValue`: base64 text or bytes. -/
inductive DbData where
  | base64 (text : String)
  | bytes (data : Bytes)
  deriving DecidableEq, Repr

/-- `DbValue`. -/
structure DbValue where
  type : String
  data : DbData
  version : Nat
  isNative : Bool
  deriving DecidableEq, Repr

/-- What the language and the protobuf package provide. -/
structure Encodings where
  Contents : MessageType → Type
  /-- `JSON.stringify`. -/
  stringify : JsValue Contents → String
  /-- `JSON.parse`. -/
  parse : String → Except Thrown Json
  /-- `Buffer.from(text)`. -/
  textBytes : String → Bytes
  /-- `buffer.toString()`. -/
  bytesText : Bytes → String
  /-- `buffer.toString('base64')`. -/
  toBase64 : Bytes → String
  /-- `Buffer.from(text, 'base64')`. -/
  ofBase64 : String → Bytes
  /-- `serializeBinary` of a message. -/
  encode : (type : MessageType) → Contents type → Bytes
  /-- `deserializeBinary` of a message class. -/
  decode : (type : MessageType) → Bytes → Except Thrown (Contents type)
  /-- The fields of a `DbValue` on the wire. -/
  encodeDbValue : String → Bytes → Nat → Bool → Bytes
  /-- `DbValue.deserializeBinary`. -/
  decodeDbValue : Bytes → Except Thrown DbValue

/-- `getData_asU8`. -/
def DbData.asU8 (enc : Encodings) : DbData → Bytes
  | .base64 text => enc.ofBase64 text
  | .bytes data => data

/-- `getData_asB64`. -/
def DbData.asB64 (enc : Encodings) : DbData → String
  | .base64 text => text
  | .bytes data => enc.toBase64 data

/-- `serializeBinary` of a `DbValue`. -/
def DbValue.serializeBinary (enc : Encodings) (dbValue : DbValue) : Bytes :=
  enc.encodeDbValue dbValue.type (dbValue.data.asU8 enc) dbValue.version dbValue.isNative

/-- `DB_VALUES_VERSION`. -/
def DB_VALUES_VERSION : Nat := 1

/-- ramda's `type`, of what is no message. -/
def Json.type : Json → String
  | .null => "Null"
  | .bool _ => "Boolean"
  | .number _ _ => "Number"
  | .string _ => "String"
  | .array _ => "Array"
  | .object _ => "Object"

/-- The same of any value; a message is an object like another. -/
def JsValue.type {Contents : MessageType → Type} : JsValue Contents → String
  | .undefined => "Undefined"
  | .native json => json.type
  | .message _ _ => "Object"

/-- The `DbValue` of a message. -/
def storedMessage (enc : Encodings) (type : MessageType) (content : enc.Contents type) :
    DbValue :=
  ⟨getBCConstructorName type.displayName, .bytes (enc.encode type content),
    DB_VALUES_VERSION, false⟩

/-- The `DbValue` of what is taken for a message.  A JSON value has no `serializeBinary`
to call. -/
def messageDbValue (enc : Encodings) : JsValue enc.Contents → Except Thrown DbValue
  | .message type content => .ok (storedMessage enc type content)
  | _ => .error (.typeError "val.serializeBinary is not a function")

/-- The `DbValue` of a native value. -/
def nativeDbValue (enc : Encodings) (val : JsValue enc.Contents) : DbValue :=
  ⟨val.type, .base64 (enc.toBase64 (enc.textBytes (enc.stringify val))),
    DB_VALUES_VERSION, true⟩

/-- `serialize`. -/
def serialize (enc : Encodings) (val : JsValue enc.Contents) : Except Thrown Bytes :=
  match val with
  | .undefined => .error (.error "Cannot serialize undefined")
  | val => do
      let dbValue ←
        if ← val.takenForMessage then messageDbValue enc val
        else pure (nativeDbValue enc val)
      return dbValue.serializeBinary enc

/-- The body of the `try` block in `deserialize`, once there is a `DbValue`. -/
def deserializeDbValue (enc : Encodings) (dbValue : DbValue) :
    Except Thrown (JsValue enc.Contents) :=
  if dbValue.isNative then do
    let json ← enc.parse (enc.bytesText (enc.ofBase64 (dbValue.data.asB64 enc)))
    return .native json
  else
    match bcMessagesMap dbValue.type with
    | some type => do
        let content ← enc.decode type (dbValue.data.asU8 enc)
        return .message type content
    | none =>
        .error (.typeError "Cannot read property 'deserializeBinary' of undefined")

/-- `deserialize`. -/
def deserialize (enc : Encodings) (bytes : Bytes) :
    Except Thrown (JsValue enc.Contents) :=
  match enc.decodeDbValue bytes with
  | .error e => .error e
  | .ok dbValue =>
      match deserializeDbValue enc dbValue with
      | .error (.typeError _) =>
          .error (.typeError s!"Could not find '{dbValue.type}' in BC_MESSAGES_MAP")
      | result => result

/-! ## What comes back -/

/-- A `DbValue` survives its wire format; its data comes back as bytes. -/
def WireLossless (enc : Encodings) (dbValue : DbValue) : Prop :=
  enc.decodeDbValue (dbValue.serializeBinary enc) =
    .ok { dbValue with data := .bytes (dbValue.data.asU8 enc) }

/-- The encodings lose nothing of one value. -/
def LosslessOn (enc : Encodings) : JsValue enc.Contents → Prop
  | .undefined => True
  | .native json =>
      let text := enc.stringify (.native json)
      enc.parse text = .ok json ∧
        enc.bytesText (enc.textBytes text) = text ∧
        enc.ofBase64 (enc.toBase64 (enc.textBytes text)) = enc.textBytes text ∧
        WireLossless enc (nativeDbValue enc (.native json))
  | .message type content =>
      enc.decode type (enc.encode type content) = .ok content ∧
        WireLossless enc (storedMessage enc type content)

/-- A value is serialized to bytes that deserialize to it. -/
def RoundTrips (enc : Encodings) (val : JsValue enc.Contents) : Prop :=
  ∃ bytes, serialize enc val = .ok bytes ∧ deserialize enc bytes = .ok val

/-- The message types that `BC_MESSAGES_MAP` has a class for. -/
def decodableTypes : List MessageType :=
  [.block, .bcBlock, .blockchainHeader, .blockchainHeaders]

/-- The values the two sides of the codec agree about: JSON that is not taken for a
message, and messages with a class in the table. -/
def Codable {Contents : MessageType → Type} : JsValue Contents → Prop
  | .undefined => False
  | .native json => (JsValue.native json : JsValue Contents).takenForMessage = .ok false
  | .message type _ => type ∈ decodableTypes

/-- Every message is stored as one. -/
theorem takenForMessage_message {Contents : MessageType → Type} (type : MessageType)
    (content : Contents type) :
    (JsValue.message type content).takenForMessage = .ok true := by
  have htruthy : (Json.string type.displayName).truthy = true := by
    cases type <;> decide +kernel
  have hmatch : matchesMessageType type.displayName = true := by
    cases type <;> decide +kernel
  simp only [JsValue.takenForMessage, JsValue.constructorDisplayName, htruthy, if_true,
    isBCMessageType, hmatch]

/-- The table knows four of the names that messages are stored under. -/
theorem bcMessagesMap_displayName (type : MessageType) :
    bcMessagesMap (getBCConstructorName type.displayName) =
      if type ∈ decodableTypes then some type else none := by
  cases type <;> decide +kernel

theorem serialize_message (enc : Encodings) (type : MessageType)
    (content : enc.Contents type) :
    serialize enc (.message type content) =
      .ok ((storedMessage enc type content).serializeBinary enc) := by
  simp only [serialize, takenForMessage_message, bind, Except.bind]
  rfl

/-- The stored form of a message is read back exactly for the types in the table. -/
theorem deserialize_message {enc : Encodings} {type : MessageType}
    {content : enc.Contents type} (h : LosslessOn enc (.message type content)) :
    deserialize enc ((storedMessage enc type content).serializeBinary enc) =
      if type ∈ decodableTypes then .ok (.message type content)
      else .error (.typeError
        s!"Could not find '{getBCConstructorName type.displayName}' in BC_MESSAGES_MAP") := by
  obtain ⟨hcontent, hwire⟩ := h
  have hstored : enc.decodeDbValue ((storedMessage enc type content).serializeBinary enc) =
      .ok (storedMessage enc type content) := hwire
  rw [deserialize, hstored]
  simp only [storedMessage, deserializeDbValue, bcMessagesMap_displayName, DbData.asU8,
    Bool.false_eq_true, if_false]
  by_cases hmem : type ∈ decodableTypes
  · simp only [if_pos hmem, hcontent, bind, Except.bind]
    rfl
  · simp only [if_neg hmem]

theorem roundTrips_message_iff {enc : Encodings} {type : MessageType}
    {content : enc.Contents type} (h : LosslessOn enc (.message type content)) :
    RoundTrips enc (.message type content) ↔ type ∈ decodableTypes := by
  have hback := deserialize_message h
  constructor
  · rintro ⟨bytes, hbytes, hval⟩
    rw [serialize_message, Except.ok.injEq] at hbytes
    rw [← hbytes, hback] at hval
    by_contra hmem
    rw [if_neg hmem] at hval
    cases hval
  · intro hmem
    exact ⟨_, serialize_message enc type content, by rw [hback, if_pos hmem]⟩

/-- The stored form of a JSON value is always read back. -/
theorem deserialize_native {enc : Encodings} {json : Json}
    (h : LosslessOn enc (.native json)) :
    deserialize enc ((nativeDbValue enc (.native json)).serializeBinary enc) =
      .ok (.native json) := by
  obtain ⟨hparse, htext, hbase, hwire⟩ := h
  rw [deserialize, hwire]
  simp only [nativeDbValue, deserializeDbValue, if_true, DbData.asU8, DbData.asB64, hbase,
    htext, hparse, bind, Except.bind]
  rfl

/-- A JSON value is stored unless its constructor reads as that of a message. -/
theorem roundTrips_native_iff {enc : Encodings} {json : Json}
    (h : LosslessOn enc (.native json)) :
    RoundTrips enc (.native json) ↔
      (JsValue.native json : JsValue enc.Contents).takenForMessage = .ok false := by
  have hback := deserialize_native h
  cases htaken : (JsValue.native json : JsValue enc.Contents).takenForMessage with
  | error e =>
      constructor
      · rintro ⟨bytes, hbytes, _⟩
        simp only [serialize, htaken, bind, Except.bind] at hbytes
        cases hbytes
      · intro hfalse
        cases hfalse
  | ok taken =>
      have hserialize : serialize enc (.native json) =
          if taken then .error (.typeError "val.serializeBinary is not a function")
          else .ok ((nativeDbValue enc (.native json)).serializeBinary enc) := by
        cases taken <;> simp only [serialize, htaken, bind, Except.bind] <;> rfl
      cases taken with
      | true =>
          constructor
          · rintro ⟨bytes, hbytes, _⟩
            rw [hserialize] at hbytes
            cases hbytes
          · intro hfalse
            cases hfalse
      | false => exact ⟨fun _ => rfl, fun _ => ⟨_, hserialize, hback⟩⟩

/-- **What the codec round trips.**  A value of which the encodings lose nothing
comes back from the store exactly if it is a message of one of the four types in
`BC_MESSAGES_MAP` or a JSON value that is not taken for a message. -/
theorem roundTrips_iff {enc : Encodings} {val : JsValue enc.Contents}
    (h : LosslessOn enc val) : RoundTrips enc val ↔ Codable val := by
  cases val with
  | undefined =>
      constructor
      · rintro ⟨bytes, hbytes, _⟩
        cases hbytes
      · exact False.elim
  | native json => exact roundTrips_native_iff h
  | message type content => exact roundTrips_message_iff h

/-! ## A block in the wire format

Fields are written in the order of their tags, the empty ones are left out, and lengths
and numbers stand in one byte, as they do below 128. -/

/-- `Buffer.from(text)`, of characters of one byte. -/
def sampleTextBytes (text : String) : Bytes := text.toList.map fun c => UInt8.ofNat c.toNat

def sampleBytesText (bytes : Bytes) : String :=
  String.ofList (bytes.map fun byte => Char.ofNat byte.toNat)

def bytesField (tag : UInt8) (data : Bytes) : Bytes :=
  if data = [] then [] else tag :: UInt8.ofNat data.length :: data

def numberField (tag : UInt8) (n : Nat) : Bytes :=
  if n = 0 then [] else [tag, UInt8.ofNat n]

/-- The field under `tag`, or nothing, and what follows. -/
def takeBytes (tag : UInt8) : Bytes → Bytes × Bytes
  | t :: length :: rest =>
      if t = tag then (rest.take length.toNat, rest.drop length.toNat)
      else ([], t :: length :: rest)
  | rest => ([], rest)

def takeNumber (tag : UInt8) : Bytes → Nat × Bytes
  | t :: n :: rest => if t = tag then (n.toNat, rest) else (0, t :: n :: rest)
  | rest => (0, rest)

def encodeBlock (block : Protos.Block) : Bytes :=
  bytesField 10 (sampleTextBytes block.blockchain) ++
    bytesField 18 (sampleTextBytes block.hash) ++
    bytesField 26 (sampleTextBytes block.previousHash) ++
    numberField 32 block.timestamp ++ numberField 40 block.height ++
    bytesField 50 (sampleTextBytes block.merkleRoot)

def decodeBlock (bytes : Bytes) : Except Thrown Protos.Block :=
  let (blockchain, bytes) := takeBytes 10 bytes
  let (hash, bytes) := takeBytes 18 bytes
  let (previousHash, bytes) := takeBytes 26 bytes
  let (timestamp, bytes) := takeNumber 32 bytes
  let (height, bytes) := takeNumber 40 bytes
  let (merkleRoot, bytes) := takeBytes 50 bytes
  if bytes = [] then
    .ok ⟨sampleBytesText blockchain, sampleBytesText hash, sampleBytesText previousHash,
      timestamp, height, sampleBytesText merkleRoot⟩
  else .error (.error "Failure")

/-- Encodings of `null`, of blocks, and of other messages without a field set. -/
def sampleEncodings : Encodings where
  Contents
    | .block => Protos.Block
    | _ => Unit
  stringify _ := "null"
  parse text := if text = "null" then .ok .null else .error (.error "SyntaxError")
  textBytes := sampleTextBytes
  bytesText := sampleBytesText
  toBase64 _ := "bnVsbA=="
  ofBase64 _ := [110, 117, 108, 108]
  encode
    | .block => encodeBlock
    | _ => fun _ => []
  decode
    | .block => decodeBlock
    | .getLatestBlocksResponse | .helpResponse | .statsResponse | .null
    | .blockchainHeaders | .bcBlock | .bcTransaction | .blockchainHeader | .dbValue
    | .blockFingerprint | .minerRequest | .minerResponse | .messageGetObjectsRequest =>
        fun bytes => if bytes = [] then .ok () else .error (.error "Failure")
  encodeDbValue type data version isNative :=
    bytesField 10 (sampleTextBytes type) ++ bytesField 18 data ++ numberField 24 version ++
      numberField 32 (if isNative then 1 else 0)
  decodeDbValue bytes :=
    let (type, bytes) := takeBytes 10 bytes
    let (data, bytes) := takeBytes 18 bytes
    let (version, bytes) := takeNumber 24 bytes
    let (isNative, bytes) := takeNumber 32 bytes
    if bytes = [] then .ok ⟨sampleBytesText type, .bytes data, version, isNative != 0⟩
    else .error (.error "Failure")

/-- A block with all its fields. -/
def sampleFilledBlock : Protos.Block where
  blockchain := "btc"
  hash := "00af"
  previousHash := "00ae"
  timestamp := 100
  height := 5
  merkleRoot := "7d"

theorem decodeBlock_sample :
    decodeBlock (encodeBlock sampleFilledBlock) = .ok sampleFilledBlock := by
  decide +kernel

theorem roundTrips_iff_block :
    RoundTrips sampleEncodings (.message .block sampleFilledBlock) ↔
      Codable (.message .block sampleFilledBlock : JsValue sampleEncodings.Contents) :=
  @roundTrips_iff sampleEncodings (.message .block sampleFilledBlock)
    ⟨decodeBlock_sample, by unfold WireLossless; decide +kernel⟩

/-- A transaction is stored and cannot be read back. -/
theorem serialize_not_inverted :
    ¬ ∀ (enc : Encodings) (val : JsValue enc.Contents) (bytes : Bytes),
      LosslessOn enc val → serialize enc val = .ok bytes →
      deserialize enc bytes = .ok val := by
  intro h
  have hlossless : LosslessOn sampleEncodings (.message .bcTransaction ()) :=
    ⟨rfl, by unfold WireLossless; decide⟩
  have hback := h sampleEncodings (.message .bcTransaction ()) _ hlossless
    (serialize_message sampleEncodings .bcTransaction ())
  rw [deserialize_message hlossless] at hback
  cases hback

end BcNode.Persistence
