import Messaging.Text.Digit
import Messaging.Toml.Basic

/-!
# Reading TOML

`Toml.read?` reads a text: lines of keys with values and of headings. The readers of the parts take
characters from the front of a list and give back the rest; `none` is a fault.
-/

namespace Messaging.Toml

/-- A reader of a part. -/
abbrev Part (α : Type) := List Char → Option (α × List Char)

/-- Values, and the tables of a dotted key, may be nested less deep than this. -/
def maxDepth : Nat := 80

/-! ### Blanks, comments and line ends -/

/-- The text without leading spaces and tabs. -/
def skipBlanks (cs : List Char) : List Char := cs.dropWhile fun c => c = ' ' || c = '\t'

/-- May the character stand in a comment or a text on one line? -/
def isPlain (c : Char) : Bool := c = '\t' || (0x20 ≤ c.toNat && c.toNat ≠ 0x7f)

/-- A line end. -/
def readLineEnd : List Char → Option (List Char)
  | '\n' :: cs => some cs
  | '\x0d' :: '\n' :: cs => some cs
  | _ => none

/-- The text without a leading comment. -/
def skipComment : List Char → List Char
  | '#' :: cs => cs.dropWhile isPlain
  | cs => cs

/-- The text without leading blanks, comments and line ends. Each round takes a character. -/
def skipLines : Nat → List Char → List Char
  | 0, cs => cs
  | fuel + 1, cs =>
    let cs := skipComment (skipBlanks cs)
    match readLineEnd cs with
    | some rest => skipLines fuel rest
    | none => cs

/-- The text without leading blanks, comments and line ends. -/
def skipSpace (cs : List Char) : List Char := skipLines cs.length cs

/-! ### Strings -/

/-- The character whose number is written in hexadecimal digits. -/
def numbered? (ds : List Char) : Option Char := do
  let n ← ds.foldlM (fun n c => (Text.hexDigit? c).map (16 * n + ·)) 0
  if n < 0xD800 ∨ (0xDFFF < n ∧ n < 0x110000) then some (Char.ofNat n) else none

/-- The character of an escape, behind the backslash. -/
def readEscape : Part Char
  | 'b' :: cs => some ('\x08', cs)
  | 't' :: cs => some ('\t', cs)
  | 'n' :: cs => some ('\n', cs)
  | 'f' :: cs => some ('\x0c', cs)
  | 'r' :: cs => some ('\x0d', cs)
  | '"' :: cs => some ('"', cs)
  | '\\' :: cs => some ('\\', cs)
  | 'u' :: cs =>
    if (cs.take 4).length = 4 then (numbered? (cs.take 4)).map (·, cs.drop 4) else none
  | 'U' :: cs =>
    if (cs.take 8).length = 8 then (numbered? (cs.take 8)).map (·, cs.drop 8) else none
  | _ => none

/-- The rest of a basic string on one line. -/
def readBasic : Nat → Part (List Char)
  | 0, _ => none
  | fuel + 1, cs =>
    match cs with
    | '"' :: rest => some ([], rest)
    | '\\' :: rest => do
      let (c, rest) ← readEscape rest
      let (text, rest) ← readBasic fuel rest
      some (c :: text, rest)
    | c :: rest =>
      if isPlain c then do
        let (text, rest) ← readBasic fuel rest
        some (c :: text, rest)
      else none
    | [] => none

/-- The rest of a literal string on one line. -/
def readLiteral (cs : List Char) : Option (List Char × List Char) :=
  let text := cs.takeWhile fun c => isPlain c && c ≠ '\''
  match cs.drop text.length with
  | '\'' :: rest => some (text, rest)
  | _ => none

/-- Behind a backslash at the end of a line: the text without the blanks and line ends up to the
next character. At least one line has to end. -/
def skipContinuation (cs : List Char) : Option (List Char) := do
  let rest ← readLineEnd (skipBlanks cs)
  let blank (c : Char) : Bool := c = ' ' || c = '\t' || c = '\n'
  let rec skip : Nat → List Char → List Char
    | 0, cs => cs
    | fuel + 1, cs =>
      match cs.dropWhile blank with
      | '\x0d' :: '\n' :: cs => skip fuel cs
      | cs => cs
  some (skip rest.length rest)

/-- Quotes that may end a string of several lines: three end it, and up to two before them belong
to it. The result tells how many quotes belong to the string and whether it ends. -/
def closing (count : Nat) : Option (Nat × Bool) :=
  if count < 3 then some (count, false)
  else if count ≤ 5 then some (count - 3, true)
  else none

/-- The rest of a string of several lines between three quotes of a kind; a basic one has
escapes. -/
def readLong (quote : Char) (basic : Bool) : Nat → Part (List Char)
  | 0, _ => none
  | fuel + 1, cs =>
    match cs with
    | [] => none
    | c :: rest =>
      if c = quote then do
        let run := (cs.takeWhile (· = quote)).length
        let (kept, ends) ← closing run
        let rest := cs.drop run
        if ends then some (List.replicate kept quote, rest)
        else
          let (text, rest) ← readLong quote basic fuel rest
          some (List.replicate kept quote ++ text, rest)
      else if c = '\\' ∧ basic then
        match skipContinuation rest with
        | some rest => readLong quote basic fuel rest
        | none => do
          let (e, rest) ← readEscape rest
          let (text, rest) ← readLong quote basic fuel rest
          some (e :: text, rest)
      else
        match readLineEnd cs with
        | some rest => do
          let (text, rest) ← readLong quote basic fuel rest
          some ('\n' :: text, rest)
        | none =>
          if isPlain c then do
            let (text, rest) ← readLong quote basic fuel rest
            some (c :: text, rest)
          else none

/-- A string of any of the four forms. A line end right behind three quotes is dropped. -/
def readString : Part String := fun cs =>
  let text (r : Option (List Char × List Char)) := r.map fun (t, rest) => (String.ofList t, rest)
  match cs with
  | '"' :: '"' :: '"' :: rest =>
    let rest := (readLineEnd rest).getD rest
    text (readLong '"' true (rest.length + 1) rest)
  | '\'' :: '\'' :: '\'' :: rest =>
    let rest := (readLineEnd rest).getD rest
    text (readLong '\'' false (rest.length + 1) rest)
  | '"' :: rest => text (readBasic (rest.length + 1) rest)
  | '\'' :: rest => text (readLiteral rest)
  | _ => none

/-! ### Keys -/

/-- May the character stand in a key without quotes? -/
def isBare (c : Char) : Bool :=
  ('a' ≤ c && c ≤ 'z') || ('A' ≤ c && c ≤ 'Z') || ('0' ≤ c && c ≤ '9') || c = '_' || c = '-'

/-- A part of a key between dots. -/
def readKeyPart : Part String := fun cs =>
  match cs with
  | '"' :: rest => (readBasic (rest.length + 1) rest).map fun (t, r) => (String.ofList t, r)
  | '\'' :: rest => (readLiteral rest).map fun (t, r) => (String.ofList t, r)
  | cs =>
    let key := cs.takeWhile isBare
    if key = [] then none else some (String.ofList key, cs.drop key.length)

/-- The parts of a key, with blanks around the dots. -/
def readKeyParts : Nat → Part (List String)
  | 0, _ => none
  | fuel + 1, cs => do
    let (part, rest) ← readKeyPart (skipBlanks cs)
    match skipBlanks rest with
    | '.' :: rest => do
      let (parts, rest) ← readKeyParts fuel rest
      some (part :: parts, rest)
    | rest => some ([part], rest)

/-- A key with the blanks around it. -/
def readKey : Part (List String) := readKeyParts maxDepth

/-! ### Numbers and dates -/

/-- Digits of a kind with single underscores between them. -/
def readDigits (digit : Char → Bool) (cs : List Char) : Option (List Char × List Char) :=
  let run := cs.takeWhile fun c => digit c || c = '_'
  let rec separated : Bool → List Char → Bool
    | before, [] => before
    | before, c :: rest => if c = '_' then before && separated false rest else separated true rest
  if run ≠ [] ∧ separated false run then
    some (run.filter (· ≠ '_'), cs.drop run.length)
  else none

/-- The value of digits in a base. -/
def valueIn (base : Nat) (ds : List Char) : Nat :=
  ds.foldl (fun n c => base * n + (Text.hexDigit? c).getD 0) 0

/-- An integer of 64 bits. -/
def integer? (i : Int) : Option Value :=
  if -0x8000000000000000 ≤ i ∧ i < 0x8000000000000000 then some (.integer i) else none

/-- An integer in a base other than ten, behind its mark. -/
def readBased (base : Nat) (digit : Char → Bool) (cs : List Char) : Option (Value × List Char) := do
  let (ds, rest) ← readDigits digit cs
  let v ← integer? (valueIn base ds)
  some (v, rest)

/-- A sign and the rest. -/
def readSign : List Char → Option Bool × List Char
  | '+' :: cs => (some false, cs)
  | '-' :: cs => (some true, cs)
  | cs => (none, cs)

/-- The places of a number. -/
def readPlaces : List Char → Option (Bool × List Char)
  | '.' :: cs => (readDigits Char.isDigit cs).map fun (_, rest) => (true, rest)
  | cs => some (false, cs)

/-- The exponent of a number. -/
def readExponent : List Char → Option (Bool × List Char)
  | c :: cs =>
    if c = 'e' ∨ c = 'E' then
      (readDigits Char.isDigit (readSign cs).2).map fun (_, rest) => (true, rest)
    else some (false, c :: cs)
  | [] => some (false, [])

/-- A decimal number: an integer, or a floating-point number if it has places or an exponent. -/
def readDecimal (cs : List Char) : Option (Value × List Char) := do
  let (sign, digits) := readSign cs
  match digits with
  | 'i' :: 'n' :: 'f' :: rest => some (.float "inf", rest)
  | 'n' :: 'a' :: 'n' :: rest => some (.float "nan", rest)
  | _ =>
    let (ds, rest) ← readDigits Char.isDigit digits
    let padded := match digits with
      | '0' :: c :: _ => c.isDigit || c = '_'
      | _ => false
    if padded then none
    else
      let (places, rest) ← readPlaces rest
      let (exponent, rest) ← readExponent rest
      if places || exponent then
        some (.float (String.ofList (cs.take (cs.length - rest.length))), rest)
      else
        let n : Int := valueIn 10 ds
        let v ← integer? (if sign = some true then -n else n)
        some (v, rest)

/-- A number of exactly `count` digits. -/
def readCount (count : Nat) (cs : List Char) : Option (Nat × List Char) :=
  let ds := cs.take count
  if ds.length = count ∧ ds.all Char.isDigit then some (valueIn 10 ds, cs.drop count) else none

/-- A character that has to be there. -/
def readChar (c : Char) : List Char → Option (List Char)
  | d :: cs => if d = c then some cs else none
  | [] => none

/-- Days in a month of a year. -/
def daysInMonth (year month : Nat) : Nat :=
  match month with
  | 2 => if year % 4 = 0 ∧ (year % 100 ≠ 0 ∨ year % 400 = 0) then 29 else 28
  | 4 | 6 | 9 | 11 => 30
  | _ => 31

/-- A date; the rest follows it. -/
def readDate (cs : List Char) : Option (List Char) := do
  let (year, cs) ← readCount 4 cs
  let cs ← readChar '-' cs
  let (month, cs) ← readCount 2 cs
  let cs ← readChar '-' cs
  let (day, cs) ← readCount 2 cs
  if 1 ≤ month ∧ month ≤ 12 ∧ 1 ≤ day ∧ day ≤ daysInMonth year month then some cs else none

/-- A time of day; the rest follows it. -/
def readTime (cs : List Char) : Option (List Char) := do
  let (hour, cs) ← readCount 2 cs
  let cs ← readChar ':' cs
  let (minute, cs) ← readCount 2 cs
  let cs ← readChar ':' cs
  let (second, cs) ← readCount 2 cs
  if hour < 24 ∧ minute < 60 ∧ second ≤ 60 then
    match cs with
    | '.' :: rest =>
      if (rest.takeWhile Char.isDigit).isEmpty then none else some (rest.dropWhile Char.isDigit)
    | cs => some cs
  else none

/-- An offset from UTC, if there is one; the rest follows it. -/
def readOffset (cs : List Char) : Option (List Char) :=
  match cs with
  | 'Z' :: rest => some rest
  | 'z' :: rest => some rest
  | c :: rest =>
    if c = '+' ∨ c = '-' then do
      let (hour, rest) ← readCount 2 rest
      let rest ← readChar ':' rest
      let (minute, rest) ← readCount 2 rest
      if hour < 24 ∧ minute < 60 then some rest else none
    else some cs
  | [] => some []

/-- Does a time of day follow a date, behind a letter or a blank? -/
def timeFollows : List Char → Bool
  | c :: d :: _ => c = 'T' || c = 't' || (c = ' ' && d.isDigit)
  | [c] => c = 'T' || c = 't'
  | [] => false

/-- A date, a time of day, or both with an offset. -/
def readDatetime (cs : List Char) : Option (Value × List Char) := do
  let rest ←
    if (readCount 4 cs).isSome ∧ (cs.drop 4).head? = some '-' then do
      let rest ← readDate cs
      if timeFollows rest then readTime (rest.drop 1) >>= readOffset else some rest
    else readTime cs
  some (.datetime (String.ofList (cs.take (cs.length - rest.length))), rest)

/-- Does the text start like a date or a time of day? -/
def startsDatetime (cs : List Char) : Bool :=
  ((readCount 4 cs).isSome && (cs.drop 4).head? = some '-')
    || ((readCount 2 cs).isSome && (cs.drop 2).head? = some ':')

/-- A number or date. -/
def readNumber (cs : List Char) : Option (Value × List Char) :=
  if startsDatetime cs then readDatetime cs
  else match cs with
    | '0' :: 'x' :: rest => readBased 16 (fun c => (Text.hexDigit? c).isSome) rest
    | '0' :: 'o' :: rest => readBased 8 (fun c => '0' ≤ c && c ≤ '7') rest
    | '0' :: 'b' :: rest => readBased 2 (fun c => c = '0' || c = '1') rest
    | cs => readDecimal cs

/-! ### Values -/

/-- The entries of an inline table as values, with tables made by dotted keys among them. -/
inductive Inline where
  | value (v : Value)
  | dotted (entries : List (String × Inline))
  deriving Inhabited

/-- Adds a value at a dotted key. -/
def Inline.add (v : Value) : List String → List (String × Inline) → Option (List (String × Inline))
  | [], _ => none
  | [name], entries =>
    if entries.any (·.1 = name) then none else some (entries ++ [(name, .value v)])
  | name :: path, entries =>
    match entries.lookup name with
    | none => (Inline.add v path []).map fun inner => entries ++ [(name, .dotted inner)]
    | some (.dotted inner) => (Inline.add v path inner).map fun inner =>
        entries.map fun e => if e.1 = name then (name, .dotted inner) else e
    | some (.value _) => none

mutual

/-- The value of an entry. -/
def Inline.toValue : Inline → Value
  | .value v => v
  | .dotted entries => .inlineTable (Inline.toEntries entries)

/-- The values of a list of entries. -/
def Inline.toEntries : List (String × Inline) → List (String × Value)
  | [] => []
  | (k, i) :: rest => (k, i.toValue) :: Inline.toEntries rest

end

mutual

/-- A value with at most `depth` levels of arrays and tables; `fuel` bounds the steps. -/
def readValue (fuel depth : Nat) (cs : List Char) : Option (Value × List Char) :=
  match fuel with
  | 0 => none
  | fuel + 1 =>
    match cs with
    | '"' :: _ => (readString cs).map fun (s, rest) => (.string s, rest)
    | '\'' :: _ => (readString cs).map fun (s, rest) => (.string s, rest)
    | 't' :: 'r' :: 'u' :: 'e' :: rest => some (.boolean true, rest)
    | 'f' :: 'a' :: 'l' :: 's' :: 'e' :: rest => some (.boolean false, rest)
    | '[' :: rest =>
      match depth with
      | 0 => none
      | depth + 1 => (readItems fuel depth rest).map fun (vs, rest) => (.array vs, rest)
    | '\x7b' :: rest =>
      match depth with
      | 0 => none
      | depth + 1 =>
        match skipBlanks rest with
        | '\x7d' :: rest => some (.inlineTable [], rest)
        | _ => (readEntries fuel depth [] rest).map fun (es, rest) =>
            (.inlineTable (Inline.toEntries es), rest)
    | cs => readNumber cs

/-- The rest of an array. -/
def readItems (fuel depth : Nat) (cs : List Char) : Option (List Value × List Char) :=
  match fuel with
  | 0 => none
  | fuel + 1 =>
    match skipSpace cs with
    | ']' :: rest => some ([], rest)
    | cs => do
      let (v, rest) ← readValue fuel depth cs
      match skipSpace rest with
      | ',' :: rest => do
        let (vs, rest) ← readItems fuel depth rest
        some (v :: vs, rest)
      | ']' :: rest => some ([v], rest)
      | _ => none

/-- The rest of an inline table behind the entries it has. -/
def readEntries (fuel depth : Nat) (entries : List (String × Inline)) (cs : List Char) :
    Option (List (String × Inline) × List Char) :=
  match fuel with
  | 0 => none
  | fuel + 1 => do
    let (key, rest) ← readKey cs
    let rest ← readChar '=' rest
    let (v, rest) ← readValue fuel depth (skipBlanks rest)
    let entries ← Inline.add v key entries
    match skipBlanks rest with
    | ',' :: rest => readEntries fuel depth entries rest
    | '\x7d' :: rest => some (entries, rest)
    | _ => none

end

/-! ### Lines -/

/-- What is known of a text while it is read: the finished part, and the table that the last heading
has begun. -/
structure State where
  root : Items := []
  /-- The heading of the current table. -/
  path : List String := []
  /-- Is the current table one of several with its heading? -/
  several : Bool := false
  current : Items := []

namespace State

/-- The text with the current table put where its heading says. -/
def finish (st : State) : Option Items :=
  match st.path.reverse with
  | [] => some st.current
  | name :: parents =>
    let place : Items.Change := fun _ items =>
      match st.several, items.lookup name with
      | true, none => some (items.set name (.tables [st.current]))
      | true, some (.tables all) => some (items.set name (.tables (all ++ [st.current])))
      | true, some _ => none
      | false, none => some (items.set name (.table .heading st.current))
      | false, some _ => none
    st.root.descend .implied place parents.reverse .heading

/-- Begins the table of a heading. A table that longer headings have implied may begin once. -/
def beginTable (st : State) (path : List String) : Option State := do
  let root ← st.finish
  let (name, parents) ← match path.reverse with
    | name :: parents => some (name, parents.reverse)
    | [] => none
  let parent ← find .heading root parents
  match parent.lookup name with
  | none => some { root, path, several := false, current := [] }
  | some (.table .implied inner) =>
    let remove : Items.Change := fun _ items => some (items.filter (·.1 ≠ name))
    let root ← root.descend .implied remove parents .heading
    some { root, path, several := false, current := inner }
  | some _ => none
where
  /-- The items of the table at the end of a path; one that is missing has none. -/
  find : Origin → Items → List String → Option Items
    | _, items, [] => some items
    | _, items, name :: path =>
      match items.lookup name with
      | none => some []
      | some (.value _) => none
      | some (.table origin inner) => find origin inner path
      | some (.tables all) => all.getLast?.bind fun inner => find .heading inner path

/-- Begins one more table of a heading that several have. -/
def beginOneOf (st : State) (path : List String) : Option State := do
  let root ← st.finish
  let (name, parents) ← match path.reverse with
    | name :: parents => some (name, parents.reverse)
    | [] => none
  let parent ← beginTable.find .heading root parents
  match parent.lookup name with
  | none | some (.tables _) => some { root, path, several := true, current := [] }
  | some _ => none

/-- Enters a value at a key of the current table. Tables made by dotted keys are not mixed with
tables of headings. -/
def enter (st : State) (key : List String) (v : Value) : Option State := do
  let (name, parents) ← match key.reverse with
    | name :: parents => some (name, parents.reverse)
    | [] => none
  let put : Items.Change := fun origin items =>
    if (parents ≠ [] ∧ origin ≠ .dotted) ∨ items.any (·.1 = name) then none
    else some (items.set name (.value v))
  let current ← st.current.descend .dotted put parents .heading
  some { st with current }

end State

/-- The end of a line: blanks, a comment, and a line end or the end of the text. -/
def readEnd (cs : List Char) : Option (List Char) :=
  let cs := skipComment (skipBlanks cs)
  if cs = [] then some [] else readLineEnd cs

/-- A line with a heading or a value. -/
def readLine (st : State) (cs : List Char) : Option (State × List Char) :=
  match cs with
  | '[' :: '[' :: rest => do
    let (path, rest) ← readKey rest
    let rest ← readChar ']' rest >>= readChar ']'
    let st ← st.beginOneOf path
    let rest ← readEnd rest
    some (st, rest)
  | '[' :: rest => do
    let (path, rest) ← readKey rest
    let rest ← readChar ']' rest
    let st ← st.beginTable path
    let rest ← readEnd rest
    some (st, rest)
  | cs => do
    let (key, rest) ← readKey cs
    let rest ← readChar '=' rest
    let (v, rest) ← readValue (rest.length + 1) (maxDepth - 1) (skipBlanks rest)
    let st ← st.enter key v
    let rest ← readEnd rest
    some (st, rest)

/-- The lines of a text. Each takes a character. -/
def readLines : Nat → State → List Char → Option Items
  | 0, _, _ => none
  | fuel + 1, st, cs =>
    match skipSpace cs with
    | [] => st.finish
    | cs => do
      let (st, rest) ← readLine st cs
      readLines fuel st rest

/-- Reads a text. A byte order mark at its start is ignored. -/
def read? (text : String) : Option Items :=
  let cs := match text.toList with
    | '\ufeff' :: cs => cs
    | cs => cs
  readLines (cs.length + 1) {} cs

end Messaging.Toml
