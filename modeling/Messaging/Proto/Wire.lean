import Messaging.Number.Varint
import Messaging.Proto.Message

/-!
# The wire format of protocol buffers

A message is a sequence of fields, each behind a key of its number and the shape of its data.
`Message.encode` writes the fields that count as set and the unknown ones in ascending order of
their numbers; `Message.decode?` reads them in any order. Of a field that comes several times the
last value counts, parts of a message are merged and items of a list are collected. Messages may be
nested `maxDepth` deep.
-/

namespace Messaging.Proto

open Number

/-- The shape of the data of a field. -/
inductive WireType where
  | varint
  | fixed64
  | delimited
  | startGroup
  | endGroup
  | fixed32
  deriving DecidableEq, Repr

namespace WireType

/-- The number of a shape. -/
def code : WireType → Nat
  | varint => 0
  | fixed64 => 1
  | delimited => 2
  | startGroup => 3
  | endGroup => 4
  | fixed32 => 5

/-- The shape of a number. -/
def ofCode? : Nat → Option WireType
  | 0 => some varint
  | 1 => some fixed64
  | 2 => some delimited
  | 3 => some startGroup
  | 4 => some endGroup
  | 5 => some fixed32
  | _ => none

end WireType

/-- The shape of a scalar. -/
def Scalar.wireType : Scalar → WireType
  | .double | .fixed64 | .sfixed64 => .fixed64
  | .float | .fixed32 | .sfixed32 => .fixed32
  | .string | .bytes => .delimited
  | _ => .varint

/-- The shape of one item of a type. -/
def FieldType.wireType : FieldType → WireType
  | .scalar s => s.wireType
  | .enum _ => .varint
  | .message _ => .delimited

/-- Can repeated values of the type be written in one piece? -/
def FieldType.packable (t : FieldType) : Bool := t.wireType ≠ .delimited

/-! ### Writing -/

/-- An integer as a natural number of `bits` bits in two's complement. -/
def wrap (bits : Nat) (i : Int) : Nat := (i.emod (Nat.pow 2 bits : Nat)).toNat

/-- The key of a field. -/
def writeKey (number : Nat) (w : WireType) : Bytes := Varint.encode (8 * number + w.code)

/-- Data behind its length. -/
def writeDelimited (b : Bytes) : Bytes := Varint.encode b.length ++ b

/-- An integer of a scalar type. -/
def Scalar.writeInt (s : Scalar) (i : Int) : Bytes :=
  match s with
  | .sint32 | .sint64 => Varint.encode (Varint.zigzag i)
  | .fixed32 | .sfixed32 => Bytes.ofLittleEndian 4 (wrap 32 i)
  | .fixed64 | .sfixed64 => Bytes.ofLittleEndian 8 (wrap 64 i)
  | _ => Varint.encode (wrap 64 i)

/-- The data of a value that has no parts, without its key. -/
def Value.leafData (type : FieldType) : Value → Bytes
  | .bool b => [if b then 1 else 0]
  | .int i => match type with | .scalar s => s.writeInt i | _ => []
  | .float x => Bytes.ofLittleEndian 4 x.bits.toNat
  | .double x => Bytes.ofLittleEndian 8 x.bits.toNat
  | .string s => writeDelimited (Bytes.ofString s)
  | .bytes b => writeDelimited b
  | .enum i => Varint.encode (wrap 64 i)
  | _ => []

/-- A key of a map as a value. -/
def Key.toValue : Key → Value
  | .bool b => .bool b
  | .int i => .int i
  | .string s => .string s

/-- The wire form of the key of an entry; a default is left out. -/
def Key.data (p : Pool) (f : Field) (k : Key) : Bytes :=
  if f.shows p k.toValue then writeKey f.number f.type.wireType ++ k.toValue.leafData f.type else []

/-- Parts of a message, known and unknown, in ascending order of their numbers. -/
def writeParts (known unknown : List (Nat × Bytes)) : Bytes :=
  (unknown.foldl (fun parts u => setNumber u.1 u.2 parts) known).flatMap Prod.snd

mutual

/-- The data of a value of a type, without its key. -/
def Value.data (p : Pool) (type : FieldType) : Value → Bytes
  | .message fields unknown =>
    writeDelimited (writeParts (fieldParts p (p.messageOf type) fields) unknown)
  | v => v.leafData type

/-- The data of the items of a list. -/
def itemData (p : Pool) (type : FieldType) : List Value → List Bytes
  | [] => []
  | v :: rest => v.data p type :: itemData p type rest

/-- The wire form of a value of a field. -/
def fieldData (p : Pool) (f : Field) : Value → Bytes
  | .list items =>
    let data := itemData p f.type items
    if f.packed then writeKey f.number .delimited ++ writeDelimited data.flatten
    else data.flatMap fun b => writeKey f.number f.type.wireType ++ b
  | .map entries =>
    match p.entryFields? f.type with
    | some (key, value) => (entryData p key value entries).flatMap fun b =>
        writeKey f.number .delimited ++ writeDelimited b
    | none => []
  | .message fields unknown =>
    writeKey f.number .delimited
      ++ writeDelimited (writeParts (fieldParts p (p.messageOf f.type) fields) unknown)
  | v => writeKey f.number f.type.wireType ++ v.leafData f.type

/-- The wire forms of the entries of a map; a default is left out. -/
def entryData (p : Pool) (key value : Field) : List (Key × Value) → List Bytes
  | [] => []
  | (k, v) :: rest =>
    (k.data p key ++ (if value.shows p v then fieldData p value v else []))
      :: entryData p key value rest

/-- The wire forms of the fields that count as set, by their numbers. -/
def fieldParts (p : Pool) (t : MessageType) : List (Nat × Value) → List (Nat × Bytes)
  | [] => []
  | (number, v) :: rest =>
    match t.byNumber? number with
    | some f =>
      if f.shows p v then (number, fieldData p f v) :: fieldParts p t rest
      else fieldParts p t rest
    | none => fieldParts p t rest

end

/-- The wire form of a message. -/
def Message.encode (m : Message) : Bytes :=
  writeParts (fieldParts m.pool m.type m.body.fields) m.body.unknown

/-! ### Reading -/

/-- Messages and groups may be nested this deep. -/
def maxDepth : Nat := 100

/-- The lowest `bits` bits of a number as a signed integer. -/
def signed (bits : Nat) (n : Nat) : Int := Int.bmod (n : Int) (Nat.pow 2 bits)

/-- A number of at most ten bytes that fits 64 bits. -/
def readVarint (b : Bytes) : Option (Nat × Bytes) :=
  match Varint.decodeWithin 10 1 b with
  | .ok (n, rest) => if n < 0x10000000000000000 then some (n, rest) else none
  | .error _ => none

/-- The number and the shape of a field. -/
def readKey (b : Bytes) : Option (Nat × WireType × Bytes) := do
  let (key, rest) ← readVarint b
  if 0x100000000 ≤ key then none
  else
    let w ← WireType.ofCode? (key % 8)
    if key / 8 = 0 then none else some (key / 8, w, rest)

/-- A number of bytes. -/
def readExactly (count : Nat) (b : Bytes) : Option (Bytes × Bytes) :=
  if count ≤ b.length then some (b.take count, b.drop count) else none

/-- Data behind its length. -/
def readDelimited (b : Bytes) : Option (Bytes × Bytes) := do
  let (count, rest) ← readVarint b
  readExactly count rest

/-- An integer of a scalar type from its number on the wire. -/
def Scalar.intOf (s : Scalar) (n : Nat) : Int :=
  match s with
  | .int32 | .sfixed32 => signed 32 n
  | .int64 | .sfixed64 => signed 64 n
  | .uint32 | .fixed32 => (n % 0x100000000 : Nat)
  | .sint32 => Varint.unzigzag (n % 0x100000000)
  | .sint64 => Varint.unzigzag n
  | _ => n

/-- A value of a scalar type. -/
def Scalar.read (s : Scalar) (w : WireType) (b : Bytes) : Option (Value × Bytes) := do
  if w ≠ s.wireType then none
  else
    match s with
    | .double => (readExactly 8 b).map fun (x, rest) =>
        (.double ⟨(Bytes.littleEndian x).toUInt64⟩, rest)
    | .float => (readExactly 4 b).map fun (x, rest) =>
        (.float ⟨(Bytes.littleEndian x).toUInt32⟩, rest)
    | .string => do
      let (x, rest) ← readDelimited b
      let text ← Bytes.toString? x
      some (.string text, rest)
    | .bytes => (readDelimited b).map fun (x, rest) => (.bytes x, rest)
    | .bool => (readVarint b).map fun (n, rest) => (.bool (n ≠ 0), rest)
    | s =>
      match s.wireType with
      | .fixed32 => (readExactly 4 b).map fun (x, rest) =>
          (.int (s.intOf (Bytes.littleEndian x)), rest)
      | .fixed64 => (readExactly 8 b).map fun (x, rest) =>
          (.int (s.intOf (Bytes.littleEndian x)), rest)
      | _ => (readVarint b).map fun (n, rest) => (.int (s.intOf n), rest)

/-- The key of a map that a value is. -/
def Value.toKey : Value → Key
  | .bool b => .bool b
  | .int i => .int i
  | .string s => .string s
  | _ => .string ""

mutual

/-- The wire form of an unknown field behind its key, which is given, with the key; numbers are
written anew in their shortest form. -/
def readUnknown (fuel depth number : Nat) (w : WireType) (b : Bytes) : Option (Bytes × Bytes) :=
  match fuel with
  | 0 => none
  | fuel + 1 =>
    let key := writeKey number w
    match w with
    | .varint => (readVarint b).map fun (n, rest) => (key ++ Varint.encode n, rest)
    | .fixed64 => (readExactly 8 b).map fun (x, rest) => (key ++ x, rest)
    | .fixed32 => (readExactly 4 b).map fun (x, rest) => (key ++ x, rest)
    | .delimited => (readDelimited b).map fun (x, rest) => (key ++ writeDelimited x, rest)
    | .startGroup =>
      match depth with
      | 0 => none
      | depth + 1 => (readGroup fuel depth number b).map fun (x, rest) => (key ++ x, rest)
    | .endGroup => none

/-- The fields of a group up to the end of the group, included. -/
def readGroup (fuel depth number : Nat) (b : Bytes) : Option (Bytes × Bytes) :=
  match fuel with
  | 0 => none
  | fuel + 1 => do
    let (inner, w, rest) ← readKey b
    if w = .endGroup then
      if inner = number then some (writeKey number .endGroup, rest) else none
    else
      let (raw, rest) ← readUnknown fuel depth inner w rest
      let (more, rest) ← readGroup fuel depth number rest
      some (raw ++ more, rest)

end

/-- One item of a type. `nested` reads the fields of a message into the ones it has. -/
def readItem (nested : MessageType → Body → Bytes → Option Body) (p : Pool) (type : FieldType)
    (w : WireType) (old : Value) (b : Bytes) : Option (Value × Bytes) :=
  match type with
  | .scalar s => s.read w b
  | .enum _ =>
    if w = .varint then (readVarint b).map fun (n, rest) => (.enum (signed 32 n), rest) else none
  | .message name =>
    if w = .delimited then do
      let (x, rest) ← readDelimited b
      let body : Body := match old with
        | .message fields unknown => ⟨fields, unknown⟩
        | _ => {}
      let body ← nested (p.message name) body x
      some (.message body.fields body.unknown, rest)
    else none

/-- Items in one piece, which they have to fill; `fuel` bounds their number. -/
def readPacked (s : FieldType) (read : Bytes → Option (Value × Bytes)) :
    Nat → Bytes → Option (List Value)
  | 0, b => if b = [] then some [] else none
  | fuel + 1, b =>
    if b = [] then some []
    else do
      let (v, rest) ← read b
      let vs ← readPacked s read fuel rest
      some (v :: vs)

/-- The key and the value of an entry of a map from its fields; `fuel` bounds their number. -/
def readEntry (nested : MessageType → Body → Bytes → Option Body) (p : Pool) (depth : Nat)
    (key value : Field) : Nat → Value × Value → Bytes → Option (Value × Value)
  | 0, entry, b => if b = [] then some entry else none
  | fuel + 1, entry, b =>
    if b = [] then some entry
    else do
      let (number, w, rest) ← readKey b
      if number = 1 then
        let (k, rest) ← readItem nested p key.type w entry.1 rest
        readEntry nested p depth key value fuel (k, entry.2) rest
      else if number = 2 then
        let (v, rest) ← readItem nested p value.type w entry.2 rest
        readEntry nested p depth key value fuel (entry.1, v) rest
      else
        let (_, rest) ← readUnknown (b.length + 1) depth number w rest
        readEntry nested p depth key value fuel entry rest

/-- A field, read into the value it has. -/
def readField (nested : MessageType → Body → Bytes → Option Body) (p : Pool) (depth : Nat)
    (f : Field) (w : WireType) (old : Value) (b : Bytes) : Option (Value × Bytes) :=
  match f.cardinality with
  | .singular => readItem nested p f.type w old b
  | .repeated => do
    let items : List Value := match old with | .list items => items | _ => []
    if w = .delimited ∧ f.type.packable then
      let (x, rest) ← readDelimited b
      let read := readItem nested p f.type f.type.wireType (f.type.default p)
      let more ← readPacked f.type read x.length x
      some (.list (items ++ more), rest)
    else
      let (v, rest) ← readItem nested p f.type w (f.type.default p) b
      some (.list (items ++ [v]), rest)
  | .map => do
    let entries : List (Key × Value) := match old with | .map entries => entries | _ => []
    let (key, value) ← p.entryFields? f.type
    let (x, rest) ← readDelimited b
    let start := (key.defaultValue p, value.defaultValue p)
    let (k, v) ← readEntry nested p depth key value x.length start x
    some (.map (setKey k.toKey v entries), rest)

/-- Reads the fields of a message into the ones it has. Each field takes a byte, so the length of
the data bounds the steps. -/
def readBody (p : Pool) : Nat → Nat → MessageType → Body → Bytes → Option Body
  | 0, _, _, body, b => if b = [] then some body else none
  | fuel + 1, depth, t, body, b =>
    if b = [] then some body
    else do
      let (number, w, rest) ← readKey b
      match t.byNumber? number with
      | some f =>
        let nested (t : MessageType) (body : Body) (x : Bytes) : Option Body :=
          match depth with
          | 0 => none
          | depth + 1 => readBody p fuel depth t body x
        let old := (body.get? f).getD (f.defaultValue p)
        let (v, rest) ← readField nested p depth f w old rest
        readBody p fuel depth t (body.set t f v) rest
      | none =>
        let (raw, rest) ← readUnknown (b.length + 1) depth number w rest
        readBody p fuel depth t (body.addUnknown number raw) rest

/-- Reads a message of a type. -/
def Message.decode? (p : Pool) (t : MessageType) (b : Bytes) : Option Message :=
  (readBody p b.length maxDepth t {} b).map fun body => ⟨p, t, body⟩

end Messaging.Proto
