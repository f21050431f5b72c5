import CompilingProxy.Toml.Number

/-!
# Reading TOML

A document is a list of lines: headers of tables, and keys with their values. What the lines say is
put together after all of them are read.
-/

namespace CompilingProxy.Toml

open Text

/-- Reads something off the front of text. -/
abbrev Reader := StateT (List Char) Option

/-- The characters that may stand in comments, and between the marks of strings. -/
def isPlain (c : Char) : Bool := c == '\t' || (0x20 ≤ c.val && c.val != 0x7f)

def isSpace (c : Char) : Bool := c == ' ' || c == '\t'

/-- What follows a line break, if there is one. -/
def lineBreak? : List Char → Option (List Char)
  | '\n' :: cs => some cs
  | '\r' :: '\n' :: cs => some cs
  | _ => none

/-! ### Strings -/

def scalar? (digits : List Char) : Option Char :=
  let n := digitsValue 16 digits
  if digits.all isHex && (n < 0xd800 || (0xe000 ≤ n && n < 0x110000)) then some (Char.ofNat n)
  else none

/-- The character that an escape stands for, and what follows it. -/
def escape? : List Char → Option (Char × List Char)
  | 'b' :: cs => some ('\x08', cs)
  | 't' :: cs => some ('\t', cs)
  | 'n' :: cs => some ('\n', cs)
  | 'f' :: cs => some ('\x0c', cs)
  | 'r' :: cs => some ('\r', cs)
  | '"' :: cs => some ('"', cs)
  | '\\' :: cs => some ('\\', cs)
  | 'u' :: a :: b :: c :: d :: cs => (scalar? [a, b, c, d]).map (·, cs)
  | 'U' :: a :: b :: c :: d :: e :: f :: g :: h :: cs =>
    (scalar? [a, b, c, d, e, f, g, h]).map (·, cs)
  | _ => none

/-- Reads a string on one line after its opening mark. -/
def lineString (mark : Char) : (fuel : Nat) → List Char → Option (List Char × List Char)
  | 0, _ => none
  | _ + 1, [] => none
  | fuel + 1, c :: cs => do
    if c = mark then some ([], cs)
    else if c = '\\' && mark == '"' then
      let (e, cs) ← escape? cs
      let (text, rest) ← lineString mark fuel cs
      some (e :: text, rest)
    else if isPlain c then
      let (text, rest) ← lineString mark fuel cs
      some (c :: text, rest)
    else none

/-- What follows a backslash at the end of a line: all blanks and line breaks are passed over. -/
def continued? (cs : List Char) : Option (List Char) :=
  let rest := cs.dropWhile isSpace
  (lineBreak? rest).map fun rest => skip rest.length rest
where
  skip : Nat → List Char → List Char
    | 0, cs => cs
    | fuel + 1, cs =>
      match lineBreak? cs with
      | some rest => skip fuel rest
      | none =>
        match cs with
        | c :: rest => if isSpace c then skip fuel rest else cs
        | [] => []

/-- Reads a string on many lines after its opening marks. Up to two marks may stand before the three
that close it. -/
def textString (mark : Char) : (fuel : Nat) → List Char → Option (List Char × List Char)
  | 0, _ => none
  | _ + 1, [] => none
  | fuel + 1, c :: cs => do
    let goOn (read : List Char) (cs : List Char) := do
      let (text, rest) ← textString mark fuel cs
      some (read ++ text, rest)
    if c = mark then
      let marks := min (((c :: cs).takeWhile (· = mark)).length) 5
      if marks < 3 then goOn [c] cs
      else some (List.replicate (marks - 3) mark, (c :: cs).drop marks)
    else if c = '\\' && mark == '"' then
      match continued? cs with
      | some cs => goOn [] cs
      | none =>
        let (e, cs) ← escape? cs
        goOn [e] cs
    else if isPlain c then goOn [c] cs
    else
      let cs ← lineBreak? (c :: cs)
      goOn ['\n'] cs

/-- Reads a string from its opening mark on. -/
def string (mark : Char) : Reader String := do
  let cs ← get
  let marks := (cs.takeWhile (· = mark)).length
  let (text, rest) ←
    if 3 ≤ marks then
      let cs := cs.drop 3
      textString mark (cs.length + 1) ((lineBreak? cs).getD cs)
    else lineString mark (cs.length + 1) (cs.drop 1)
  set rest
  return String.ofList text

/-- Reads a string on one line from its opening mark on. -/
def keyString (mark : Char) : Reader String := do
  let cs ← get
  let (text, rest) ← lineString mark (cs.length + 1) (cs.drop 1)
  set rest
  return String.ofList text

/-! ### Keys and values -/

def spaces : Reader Unit := modify (·.dropWhile isSpace)

def mark (c : Char) : Reader Unit := do
  match (← get) with
  | d :: rest => if c = d then set rest else failure
  | [] => failure

def isBare (c : Char) : Bool := c.isAlphanum || c == '_' || c == '-'

/-- One part of a key. -/
def keyPart : Reader String := do
  match (← get) with
  | '"' :: _ => keyString '"'
  | '\'' :: _ => keyString '\''
  | cs =>
    let bare := cs.takeWhile isBare
    if bare.isEmpty then failure
    set (cs.dropWhile isBare)
    return String.ofList bare

/-- Nesting is refused from this depth on, of values as of keys. -/
def depthLimit : Nat := 80

/-- The parts of a key, which points stand between. -/
def keyParts : (fuel : Nat) → Reader (List String)
  | 0 => failure
  | fuel + 1 => do
    spaces
    let part ← keyPart
    spaces
    match (← get) with
    | '.' :: rest => set rest; return part :: (← keyParts fuel)
    | _ => return [part]

def key : Reader (List String) := keyParts (depthLimit - 1)

/-- A comment up to the end of its line. -/
def comment : Reader Unit := do
  match (← get) with
  | '#' :: rest => set (rest.dropWhile isPlain)
  | _ => pure ()

/-- Blanks, line breaks and comments. -/
def gap : (fuel : Nat) → Reader Unit
  | 0 => pure ()
  | fuel + 1 => do
    spaces
    comment
    match lineBreak? (← get) with
    | some rest => set rest; gap fuel
    | none => pure ()

def lines : Reader Unit := do gap ((← get).length + 1)

def isPlainPart (c : Char) : Bool :=
  c.isAlphanum || c == '_' || c == '-' || c == '+' || c == '.' || c == ':'

/-- A value without marks or brackets. A blank may stand between a date and a time. -/
def plain : Reader TomlValue := do
  let cs ← get
  let run := cs.takeWhile isPlainPart
  let rest := cs.dropWhile isPlainPart
  let both := match date? run, rest with
    | some [], ' ' :: c :: more =>
      if c.isDigit then some ((c :: more).takeWhile isPlainPart) else none
    | _, _ => none
  match both with
  | some time =>
    set ((rest.drop 1).drop time.length)
    plain? (run ++ ' ' :: time)
  | none =>
    set rest
    plain? run

mutual

/-- A value; `depth` levels of nesting are still open to it. -/
def value : (fuel depth : Nat) → Reader TomlValue
  | 0, _ => failure
  | fuel + 1, depth => do
    match (← get) with
    | '"' :: _ => return .string (← string '"')
    | '\'' :: _ => return .string (← string '\'')
    | '[' :: rest =>
      if depth ≤ 1 then failure
      set rest
      lines
      return .array (← items fuel (depth - 1))
    | '{' :: rest =>
      if depth ≤ 1 then failure
      set rest
      spaces
      match (← get) with
      | '}' :: rest => set rest; return .inlineTable .written []
      | _ => return (← members fuel (depth - 1) {}).toValue true
    | _ => plain

/-- The values of an array up to its bracket. -/
def items : (fuel depth : Nat) → Reader (List TomlValue)
  | 0, _ => failure
  | fuel + 1, depth => do
    match (← get) with
    | ']' :: rest => set rest; return []
    | _ =>
      let item ← value fuel depth
      lines
      match (← get) with
      | ',' :: rest => set rest; lines; return item :: (← items fuel depth)
      | ']' :: rest => set rest; return [item]
      | _ => failure

/-- The members of a table between braces up to the brace that closes it. -/
def members : (fuel depth : Nat) → TomlTable → Reader TomlTable
  | 0, _, _ => failure
  | fuel + 1, depth, table => do
    let path ← key
    mark '='
    spaces
    let v ← value fuel depth
    spaces
    let table ← table.define true path v
    match (← get) with
    | ',' :: rest => set rest; members fuel depth table
    | '}' :: rest => set rest; return table
    | _ => failure

end

/-! ### Lines -/

/-- What one line says; nothing if it is empty. -/
def statement : Reader (Option TomlStatement) := do
  match (← get) with
  | [] => return none
  | '[' :: '[' :: rest =>
    set rest
    let path ← key
    mark ']'
    mark ']'
    return some (.itemHeader path)
  | '[' :: rest =>
    set rest
    let path ← key
    mark ']'
    return some (.header path)
  | c :: rest =>
    if c == '#' || (lineBreak? (c :: rest)).isSome then return none
    else
      let path ← key
      mark '='
      spaces
      return some (.entry path (← value ((← get).length + 1) depthLimit))

/-- What the lines say. -/
def statements : (fuel : Nat) → Reader (List TomlStatement)
  | 0 => failure
  | fuel + 1 => do
    spaces
    let s ← statement
    spaces
    comment
    let cs ← get
    if cs.isEmpty then return s.toList
    else
      match lineBreak? cs with
      | some rest => set rest; return s.toList ++ (← statements fuel)
      | none => failure

end CompilingProxy.Toml

namespace CompilingProxy

/-- The table of a document; none if it is malformed. A mark of the order of bytes may stand first.
-/
def TomlTable.parse? (text : String) : Option TomlTable := do
  let cs := match text.toList with
    | '\uFEFF' :: cs => cs
    | cs => cs
  let (statements, _) ← (Toml.statements (cs.length + 1)).run cs
  TomlTable.state {} [] statements

end CompilingProxy
