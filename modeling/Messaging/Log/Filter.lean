import Messaging.Log
import Messaging.Table

/-!
# Log filters

A filter says down to which level entries are shown: a bare level for all of them, and levels for
targets. A target is the start of a source, and the longest that fits an entry decides; an entry
that neither a target nor a bare level decides is not shown. `Filter.parse?` reads the text of a
filter, parts with commas between them.
-/

namespace Messaging.Log

/-- How far down a filter shows entries: `n` shows those of the first `n` levels. -/
abbrev Depth := Nat

/-- A filter. -/
structure Filter where
  /-- The depth for entries that no target fits. -/
  bare : Option Depth := none
  /-- The depths for targets. -/
  targets : Table Depth := []
  deriving DecidableEq, Repr

namespace Filter

/-- The filter that shows everything down to a level. -/
def ofLevel (level : Level) : Filter := { bare := some level.rank }

/-! ### Deciding -/

/-- The longer of two targets; of two of one length the first. -/
def longer (a b : String × Depth) : String × Depth :=
  if a.1.utf8ByteSize < b.1.utf8ByteSize then b else a

/-- The depth for a source. -/
def depth? (f : Filter) (source : String) : Option Depth :=
  match f.targets.filter fun t => t.1.toList.isPrefixOf source.toList with
  | [] => f.bare
  | t :: rest => some (rest.foldl longer t).2

/-- Does the filter show an entry? -/
def shows (f : Filter) (e : Entry) : Bool :=
  (f.depth? e.source).any fun depth => e.level.rank ≤ depth

/-! ### Reading -/

/-- The depth that shows everything. -/
def everything : Depth := 5

/-- The words for depths. -/
def words : List (String × Depth) :=
  [("off", 0), ("error", 1), ("warn", 2), ("info", 3), ("debug", 4), ("trace", everything)]

/-- Reads a decimal number, which may have a plus sign and leading zeros. -/
def number? (cs : List Char) : Option Nat :=
  let ds := if cs.head? = some '+' then cs.tail else cs
  if ds ≠ [] ∧ ds.all Char.isDigit then
    some (ds.foldl (fun n d => 10 * n + (d.toNat - '0'.toNat)) 0)
  else none

/-- Reads a depth: a word in upper or lower case, or a number. -/
def readDepth? (cs : List Char) : Option Depth :=
  match number? cs with
  | some n => if n ≤ everything then some n else none
  | none => words.lookup (String.ofList (cs.map Char.toLower))

/-- May a part start with the character? All characters past the first 128 count as letters. -/
def startsPart (c : Char) : Bool :=
  c.isAlphanum || c = '-' || c = ':' || c = '_' || 0x80 ≤ c.toNat

/-- The blanks that may stand around a part. -/
def isBlank (c : Char) : Bool :=
  c = ' ' || (0x09 ≤ c.toNat && c.toNat ≤ 0x0d)

/-- A part without the blanks around it. -/
def trim (cs : List Char) : List Char :=
  ((cs.dropWhile isBlank).reverse.dropWhile isBlank).reverse

/-- Adds a part to a filter: a level, a target, or a target and a level with an equals sign between
them. A target without a level shows everything. The place of the equals sign is counted without the
blanks around the part, but target and level are cut from the part with its blanks. -/
def addPart? (f : Filter) (part : List Char) : Option Filter :=
  let core := trim part
  let cut := (core.takeWhile (· ≠ '=')).length
  let withTarget (target : List Char) (depth : Depth) : Filter :=
    { f with targets := f.targets.insert (String.ofList target) depth }
  if !core.head?.any startsPart || core.contains '[' then none
  else if cut = core.length then
    some (match readDepth? part with
      | some depth => { f with bare := some depth }
      | none => withTarget part everything)
  else
    match part.drop (cut + 1) with
    | [] => some (withTarget (part.take cut) everything)
    | level => (readDepth? level).map (withTarget (part.take cut))

/-- Reads the text of a filter. Empty parts do not count, and a text without parts shows errors
only. -/
def parse? (text : String) : Option Filter :=
  match (text.toList.splitOn ',').filter (· ≠ []) with
  | [] => some (ofLevel .error)
  | parts => parts.foldlM addPart? {}

end Filter

end Messaging.Log
