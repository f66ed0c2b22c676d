import Messaging.Avro.Value
import Messaging.Number.Varint

/-!
# The binary encoding of Avro values

A value is written without its schema: integers of variable length, bytes and text behind their
length, the parts of a value one after the other, arrays and maps in blocks that end with an empty
one. `Value.encode` writes, `Value.decode` reads. Room for bytes of a fixed size is taken before
they are written or read, which aborts the call if no such room can be. Reading is lenient about
data that ends early: a text, a truth value and the index of a union that are not there are `null`.
-/

namespace Messaging.Avro

open Number

namespace Binary

/-- The most bytes that there can be room for. -/
def maxRoom : Nat := 0x7fffffffffffffff

/-! ### Writing -/

/-- An integer. -/
def writeInt (i : Int) : Bytes := Varint.encode (Varint.zigzag i)

/-- Bytes behind their length. -/
def writeBytes (b : Bytes) : Bytes := writeInt b.length ++ b

/-- The shortest bytes, the highest first, that have the same value in two's complement. -/
def trimSign : Bytes → Bytes
  | [] => [0]
  | [b] => [b]
  | a :: b :: rest =>
    if (a = 0 ∧ b < 128) ∨ (a = 255 ∧ 128 ≤ b) then trimSign (b :: rest) else a :: b :: rest

/-- Is the number negative in two's complement? -/
def isNegative : Bytes → Bool
  | [] => false
  | b :: _ => 128 ≤ b

/-- The bytes of the same value in two's complement with a given length; `none` if that is too
short. -/
def signExtend (size : Nat) (b : Bytes) : Option Bytes :=
  let kept := trimSign b
  if kept.length ≤ size then
    some (List.replicate (size - kept.length) (if isNegative b then 255 else 0) ++ kept)
  else none

/-- The bytes of an integer in two's complement, the highest first, at most `fuel` of them before
the last. -/
def twosComplementWithin : Nat → Int → Bytes → Bytes
  | 0, i, tail => (i.emod 256).toNat.toUInt8 :: tail
  | fuel + 1, i, tail =>
    let b := (i.emod 256).toNat.toUInt8
    if -128 ≤ i ∧ i < 128 then b :: tail else twosComplementWithin fuel (i.fdiv 256) (b :: tail)

/-- The shortest bytes of an integer in two's complement, the highest first. -/
def twosComplement (i : Int) : Bytes := twosComplementWithin (i.natAbs.log2 / 8 + 1) i []

/-- The integer whose bytes in two's complement, the highest first, are given. -/
def ofTwosComplement (b : Bytes) : Int :=
  let n : Int := b.foldl (fun n b => 256 * n + b.toNat) (0 : Nat)
  if isNegative b then n - (Nat.pow 256 b.length : Nat) else n

/-- A big decimal: the bytes of its coefficient and its scale, all behind their length. -/
def writeBigDecimal (d : BigDecimal) : Bytes :=
  writeBytes (writeBytes (twosComplement d.coefficient) ++ writeInt d.scale)

/-- The bytes of a decimal number in its base. A number that does not fit a fixed size aborts the
call, and so does a size for which there is no room; in bytes, only the empty number does not
fit. -/
def writeDecimal (base : DecimalBase) (b : Bytes) : Except Fault Bytes :=
  match base with
  | .fixed _ size =>
    -- A number that has the size already has found its room.
    if maxRoom < size ∧ b.length < size then .error .aborted
    else match signExtend size b with
      | some b => .ok b
      | none => .error .aborted
  | .bytes => if b = [] then .error .invalid else .ok (writeBytes b)

end Binary

namespace Value

open Binary

mutual

/-- Writes a value of a schema. -/
def encodeAs (names : Names) (schema : Schema) : Value → Except Fault Bytes
  | null => .ok []
  | boolean b => .ok [if b then 1 else 0]
  | int i => .ok (writeInt i)
  | long i => .ok (writeInt i)
  | intAs _ i => .ok (writeInt i)
  | longAs _ i => .ok (writeInt i)
  | float x => .ok (Bytes.ofLittleEndian 4 x.bits.toNat)
  | double x => .ok (Bytes.ofLittleEndian 8 x.bits.toNat)
  | bytes b => .ok (writeBytes b)
  | string s => .ok (writeBytes (Bytes.ofString s))
  | fixed b => .ok b
  | enum index _ => .ok (writeInt index)
  | decimal b =>
    match schema.resolve names with
    | some (.decimal base) => writeDecimal base b
    | _ => .error .invalid
  | bigDecimal d => .ok (writeBigDecimal d)
  | uuid b => .ok (writeBytes (Bytes.ofString (Text.Uuid.text b)))
  | duration b => .ok b
  | union index value =>
    match schema.resolve names with
    | some (.union branches) =>
      match branches[index]? with
      | some branch => (value.encodeAs names branch).map (writeInt index ++ ·)
      | none => .error .invalid
    | _ => .error .invalid
  | array items =>
    match schema.resolve names with
    | some (.array s) => (encodeItems names s items).map fun b =>
        (if items.isEmpty then [] else writeInt items.length) ++ b ++ [0]
    | _ => .error .invalid
  | map entries =>
    match schema.resolve names with
    | some (.map s) => (encodeEntries names s entries).map fun b =>
        (if entries.isEmpty then [] else writeInt entries.length) ++ b ++ [0]
    | _ => .error .invalid
  | record fields =>
    match schema.resolve names with
    | some (.record _ schemas) => encodeFields names schemas fields
    | _ => .error .invalid

/-- Writes the items of an array. -/
def encodeItems (names : Names) (schema : Schema) : List Value → Except Fault Bytes
  | [] => .ok []
  | v :: rest => do
    let b ← v.encodeAs names schema
    let bs ← encodeItems names schema rest
    .ok (b ++ bs)

/-- Writes the entries of a map. -/
def encodeEntries (names : Names) (schema : Schema) : List (String × Value) → Except Fault Bytes
  | [] => .ok []
  | (k, v) :: rest => do
    let b ← v.encodeAs names schema
    let bs ← encodeEntries names schema rest
    .ok (writeBytes (Bytes.ofString k) ++ b ++ bs)

/-- Writes the fields of a record. -/
def encodeFields (names : Names) :
    List (Field × Schema) → List (String × Value) → Except Fault Bytes
  | (_, s) :: schemas, (_, v) :: rest => do
    let b ← v.encodeAs names s
    let bs ← encodeFields names schemas rest
    .ok (b ++ bs)
  | [], _ => .ok []
  | _ :: _, [] => .error .invalid

end

/-- Writes a value that fits the schema. -/
def encode (names : Names) (schema : Schema) (value : Value) : Except Fault Bytes :=
  if value.fits names schema then value.encodeAs names schema else .error .invalid

end Value

namespace Binary

/-! ### Reading -/

/-- The outcome of a reading step: a value and the rest of the data. -/
abbrev Decoded (α : Type) := Except Fault (α × Bytes)

/-- An integer of 64 bits. -/
def readLong (b : Bytes) : Decoded Int :=
  match Varint.decode b with
  | .ok (n, rest) => .ok (Varint.unzigzag n, rest)
  | .error _ => .error .invalid

/-- An integer of 32 bits. -/
def readInt (b : Bytes) : Decoded Int :=
  (readLong b).bind fun (i, rest) =>
    if -0x80000000 ≤ i ∧ i < 0x80000000 then .ok (i, rest) else .error .invalid

/-- The most that a length may be. -/
def maxLength : Nat := 512 * 1024 * 1024

/-- A length. -/
def readLength (b : Bytes) : Decoded Nat :=
  (readLong b).bind fun (i, rest) =>
    if 0 ≤ i ∧ i ≤ maxLength then .ok (i.toNat, rest) else .error .invalid

/-- The number of items in a block; a negative one is followed by the size of the block. -/
def readBlockLength (b : Bytes) : Decoded Nat :=
  (readLong b).bind fun (i, rest) =>
    if i < 0 then
      (readLong rest).bind fun (_, rest) =>
        if i.natAbs ≤ maxLength then .ok (i.natAbs, rest) else .error .invalid
    else if i ≤ maxLength then .ok (i.toNat, rest) else .error .invalid

/-- A number of bytes, `none` if there are fewer. -/
def split? (count : Nat) (b : Bytes) : Option (Bytes × Bytes) :=
  if count ≤ b.length then some (b.take count, b.drop count) else none

/-- A number of bytes. -/
def readExactly (count : Nat) (b : Bytes) : Decoded Bytes :=
  match split? count b with
  | some r => .ok r
  | none => .error (if maxRoom < count then .aborted else .invalid)

/-- Bytes behind their length. -/
def readBytes (b : Bytes) : Decoded Bytes :=
  (readLength b).bind fun (count, rest) => readExactly count rest

/-- A text behind its length; a text that is cut off is `null`. -/
def readString (b : Bytes) : Decoded Value :=
  (readLength b).bind fun (count, rest) =>
    match split? count rest with
    | none => .ok (.null, [])
    | some (b, rest) =>
      match Bytes.toString? b with
      | some s => .ok (.string s, rest)
      | none => .error .invalid

/-- A truth value; one that is missing is `null`. -/
def readBoolean : Bytes → Decoded Value
  | [] => .ok (.null, [])
  | b :: rest =>
    if b = 0 then .ok (.boolean false, rest)
    else if b = 1 then .ok (.boolean true, rest)
    else .error .invalid

/-- A big decimal from its bytes. -/
def readBigDecimal (b : Bytes) : Except Fault BigDecimal :=
  (readBytes b).bind fun (coefficient, rest) =>
    (readLong rest).map fun (scale, _) => ⟨ofTwosComplement coefficient, scale⟩

/-- An identifier: its sixteen bytes or its text, behind their length. -/
def readUuid (b : Bytes) : Decoded Value :=
  (readBytes b).bind fun (b, rest) =>
    if b.length = 16 then .ok (.uuid b, rest)
    else match (Bytes.toString? b).bind Text.Uuid.ofString? with
      | some id => .ok (.uuid id, rest)
      | none => .error .invalid

/-- The bytes of a decimal number in its base. -/
def readDecimal (base : DecimalBase) (b : Bytes) : Decoded Bytes :=
  match base with
  | .bytes => readBytes b
  | .fixed _ size => readExactly size b

/-- A number of items, one after the other. -/
def readMany {α : Type} (one : Bytes → Decoded α) : Nat → Bytes → Decoded (List α)
  | 0, b => .ok ([], b)
  | count + 1, b =>
    (one b).bind fun (a, rest) =>
      (readMany one count rest).map fun (items, rest) => (a :: items, rest)

/-- Blocks of items up to an empty one, at most `fuel` of them. -/
def readBlocks {α : Type} (one : Bytes → Decoded α) : Nat → Bytes → Decoded (List α)
  | 0, _ => .error .invalid
  | fuel + 1, b =>
    (readBlockLength b).bind fun (count, rest) =>
      if count = 0 then .ok ([], rest)
      else (readMany one count rest).bind fun (items, rest) =>
        (readBlocks one fuel rest).map fun (more, rest) => (items ++ more, rest)

/-- The key of an entry and its value. -/
def readEntry (one : Bytes → Decoded Value) (b : Bytes) : Decoded (String × Value) :=
  (readString b).bind fun
    | (.string key, rest) => (one rest).map fun (v, rest) => ((key, v), rest)
    | _ => .error .invalid

/-- The fields of a record, one after the other. -/
def readFields (one : Schema → Bytes → Decoded Value) :
    List (Field × Schema) → Bytes → Decoded (List (String × Value))
  | [], b => .ok ([], b)
  | (f, s) :: fields, b =>
    (one s b).bind fun (v, rest) =>
      (readFields one fields rest).map fun (vs, rest) => ((f.name, v) :: vs, rest)

/-- The index of a branch, `none` if the data ends before it does. -/
def readIndex (b : Bytes) : Except Fault (Option (Int × Bytes)) :=
  match Varint.decode b with
  | .ok (n, rest) => .ok (some (Varint.unzigzag n, rest))
  | .error .truncated => .ok none
  | .error .overlong => .error .invalid

/-- The symbol at an index. -/
def symbolAt (symbols : List String) (i : Int) : Except Fault Value :=
  if i < 0 then .error .invalid
  else match symbols[i.toNat]? with
    | some s => .ok (.enum i.toNat s)
    | none => .error .invalid

end Binary

namespace Value

open Binary

/-- Reads a value in at most `fuel` steps in a row. -/
def decodeWithin (names : Names) : Nat → Schema → Bytes → Decoded Value
  | 0, _, _ => .error .aborted
  | fuel + 1, schema, b =>
    match schema with
    | .null => .ok (.null, b)
    | .boolean => readBoolean b
    | .int => (readInt b).map fun (i, rest) => (.int i, rest)
    | .long => (readLong b).map fun (i, rest) => (.long i, rest)
    | .intAs meaning => (readInt b).map fun (i, rest) => (.intAs meaning i, rest)
    | .longAs meaning => (readLong b).map fun (i, rest) => (.longAs meaning i, rest)
    | .float => (readExactly 4 b).map fun (x, rest) =>
        (.float ⟨(Bytes.littleEndian x).toUInt32⟩, rest)
    | .double => (readExactly 8 b).map fun (x, rest) =>
        (.double ⟨(Bytes.littleEndian x).toUInt64⟩, rest)
    | .bytes => (readBytes b).map fun (x, rest) => (.bytes x, rest)
    | .string => readString b
    | .fixed _ size => (readExactly size b).map fun (x, rest) => (.fixed x, rest)
    | .decimal base => (readDecimal base b).map fun (x, rest) => (.decimal x, rest)
    | .bigDecimal => (readBytes b).bind fun (x, rest) =>
        (readBigDecimal x).map fun d => (.bigDecimal d, rest)
    | .uuid => readUuid b
    | .duration => (readExactly 12 b).map fun (x, rest) => (.duration x, rest)
    | .enum _ symbols _ => (readInt b).bind fun (i, rest) =>
        (symbolAt symbols i).map fun v => (v, rest)
    | .ref name =>
      match names.find? name.full with
      | some s => decodeWithin names fuel s b
      | none => .error .invalid
    | .array items => (readBlocks (decodeWithin names fuel items) (b.length + 1) b).map
        fun (vs, rest) => (.array vs, rest)
    | .map values => (readBlocks (readEntry (decodeWithin names fuel values)) (b.length + 1) b).map
        fun (es, rest) => (.map (Table.ofList es), rest)
    | .record _ fields => (readFields (decodeWithin names fuel) fields b).map
        fun (vs, rest) => (.record vs, rest)
    | .union branches =>
      match readIndex b with
      | .error fault => .error fault
      | .ok none => .ok (.union 0 .null, [])
      | .ok (some (i, rest)) =>
        if i < 0 then .error .invalid
        else match branches[i.toNat]? with
          | none => .error .invalid
          | some branch => (decodeWithin names fuel branch rest).map
              fun (v, rest) => (.union i.toNat v, rest)

/-- More than the steps in a row without repeating a schema at the same place of the data. -/
def decodeLimit (names : Names) (schema : Schema) (b : Bytes) : Nat :=
  (schema.size + (names.map fun e => e.2.size).foldr (· + ·) 0) * (b.length + 1) + 1

/-- Reads a value of a schema from the start of the data; what follows it is ignored. -/
def decode (names : Names) (schema : Schema) (b : Bytes) : Except Fault Value :=
  (decodeWithin names (decodeLimit names schema b) schema b).map Prod.fst

end Value

end Messaging.Avro
