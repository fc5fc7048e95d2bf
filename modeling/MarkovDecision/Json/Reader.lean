import MarkovDecision.Decimal.Reading

/-!
# Reading JSON

A reader takes a value of a known shape from the front of a text in one pass from left to right.
It stops at the first fault, of which there are three kinds: the text ends too early, it is not
JSON, or it is JSON of another shape.  A value of another shape is read to its end before it is
refused, unless it is an array or an object.
-/

namespace MarkovDecision

namespace Json

inductive Fault where
  /-- The text ends inside a value. -/
  | truncated
  /-- The text is not JSON. -/
  | malformed
  /-- The value has another shape than the expected one. -/
  | mismatched
  deriving DecidableEq, Repr

/-- Takes a value from the front of a text and returns what follows it. -/
abbrev Reader (T : Type) : Type :=
  List Char → Except Fault (T × List Char)

def skipBlanks (chars : List Char) : List Char :=
  chars.dropWhile fun c => c == ' ' || c == '\n' || c == '\t' || c == '\r'

/-- Takes the given characters from the front of a text. -/
def expect : List Char → List Char → Except Fault (List Char)
  | [], chars => .ok chars
  | _ :: _, [] => .error .truncated
  | expected :: rest, c :: chars => if c = expected then expect rest chars else .error .malformed

section Strings

def hexValue? (c : Char) : Option Nat :=
  if c.isDigit then some (c.toNat - '0'.toNat)
  else if 'a' ≤ c ∧ c ≤ 'f' then some (c.toNat - 'a'.toNat + 10)
  else if 'A' ≤ c ∧ c ≤ 'F' then some (c.toNat - 'A'.toNat + 10)
  else none

/-- Takes `count` hexadecimal digits; `value` is what the digits before them denote. -/
def takeHex : Nat → Nat → Reader Nat
  | 0, value, chars => .ok (value, chars)
  | _ + 1, _, [] => .error .truncated
  | count + 1, value, c :: chars =>
    match hexValue? c with
    | some digit => takeHex count (16 * value + digit) chars
    | none => .error .malformed

/-- Takes the second half of a surrogate pair and puts the halves together. -/
def takeLowSurrogate (high : Nat) (chars : List Char) : Except Fault (Char × List Char) := do
  let (low, rest) ← takeHex 4 0 (← expect ['\\', 'u'] chars)
  if 0xdc00 ≤ low ∧ low ≤ 0xdfff then
    .ok (Char.ofNat (0x10000 + (high - 0xd800) * 0x400 + (low - 0xdc00)), rest)
  else .error .malformed

def takeEscape : List Char → Except Fault (Char × List Char)
  | [] => .error .truncated
  | '"' :: rest => .ok ('"', rest)
  | '\\' :: rest => .ok ('\\', rest)
  | '/' :: rest => .ok ('/', rest)
  | 'b' :: rest => .ok ('\x08', rest)
  | 'f' :: rest => .ok ('\x0c', rest)
  | 'n' :: rest => .ok ('\n', rest)
  | 'r' :: rest => .ok ('\r', rest)
  | 't' :: rest => .ok ('\t', rest)
  | 'u' :: rest => do
    let (code, rest) ← takeHex 4 0 rest
    if 0xd800 ≤ code ∧ code ≤ 0xdbff then takeLowSurrogate code rest
    else if 0xdc00 ≤ code ∧ code ≤ 0xdfff then .error .malformed
    else .ok (Char.ofNat code, rest)
  | _ => .error .malformed

/-- Takes what follows the backslash of an escape without asking which character it stands for. -/
def skipEscape : List Char → Except Fault (List Char)
  | [] => .error .truncated
  | 'u' :: rest => (takeHex 4 0 rest).map (·.2)
  | c :: rest => if c ∈ ['"', '\\', '/', 'b', 'f', 'n', 'r', 't'] then .ok rest else .error .malformed

/-- Takes the rest of a string behind its opening quote; `taken` holds the characters before, the
last one first.  The first argument bounds the number of characters. -/
def takeString : Nat → List Char → Reader String
  | 0, _, _ => .error .truncated
  | _ + 1, _, [] => .error .truncated
  | _ + 1, taken, '"' :: rest => .ok (String.ofList taken.reverse, rest)
  | bound + 1, taken, '\\' :: rest => do
    let (c, rest) ← takeEscape rest
    takeString bound (c :: taken) rest
  | bound + 1, taken, c :: rest =>
    if c.toNat < 0x20 then .error .malformed else takeString bound (c :: taken) rest

/-- Drops the rest of a string behind its opening quote. -/
def skipString : Nat → List Char → Except Fault (List Char)
  | 0, _ => .error .truncated
  | _ + 1, [] => .error .truncated
  | _ + 1, '"' :: rest => .ok rest
  | bound + 1, '\\' :: rest => do skipString bound (← skipEscape rest)
  | bound + 1, c :: rest => if c.toNat < 0x20 then .error .malformed else skipString bound rest

end Strings

section Numerals

/-- A number: its value, and the whole number it is written as, if it is below `2 ^ 64`. -/
structure Numeral where
  value : Float
  natural? : Option Nat

def takeDigits (chars : List Char) : Except Fault (List Char × List Char) :=
  match chars with
  | [] => .error .truncated
  | c :: _ => if c.isDigit then .ok (spanDigits chars) else .error .malformed

/-- Takes the whole part of a number: a zero, or digits that begin with another one. -/
def takeWhole (chars : List Char) : Except Fault (List Char × List Char) := do
  let (digits, rest) ← takeDigits chars
  if digits.head? = some '0' ∧ 1 < digits.length then .error .malformed else .ok (digits, rest)

/-- Takes the fraction of a number, if there is one. -/
def takeFraction (chars : List Char) : Except Fault (List Char × List Char) :=
  match chars with
  | '.' :: rest => takeDigits rest
  | _ => .ok ([], chars)

/-- Takes the exponent of a number, if there is one. -/
def takeExponent (chars : List Char) : Except Fault (Option Int × List Char) :=
  match chars with
  | mark :: rest =>
    if mark = 'e' ∨ mark = 'E' then do
      let (negative, rest) := spanSign rest
      let (digits, rest) ← takeDigits rest
      .ok (some (if negative then -digitsValue digits else digitsValue digits), rest)
    else .ok (none, chars)
  | [] => .ok (none, chars)

/-- Takes a number.  A number beyond the range of doubles is refused. -/
def takeNumeral (chars : List Char) : Except Fault (Numeral × List Char) := do
  let (negative, rest) := match chars with
    | '-' :: rest => (true, rest)
    | _ => (false, chars)
  let (whole, rest) ← takeWhole rest
  let (fraction, rest) ← takeFraction rest
  let (exponent?, rest) ← takeExponent rest
  let magnitude := decimalValue whole fraction (exponent?.getD 0)
  let isNatural := !negative && fraction.isEmpty && exponent?.isNone
    && digitsValue whole < Nat.pow 2 64
  if magnitude.isInf then .error .malformed
  else .ok (⟨if negative then -magnitude else magnitude,
    if isNatural then some (digitsValue whole) else none⟩, rest)

/-- Takes a number whose value does not matter.  One that ends too early is not JSON here. -/
def skipNumeral (chars : List Char) : Except Fault (List Char) :=
  let skipped : Except Fault (List Char) := do
    let rest := match chars with
      | '-' :: rest => rest
      | _ => chars
    let (_, rest) ← takeWhole rest
    let (_, rest) ← takeFraction rest
    let (_, rest) ← takeExponent rest
    .ok rest
  match skipped with
  | .ok rest => .ok rest
  | .error _ => .error .malformed

end Numerals

def startsNumeral (c : Char) : Bool :=
  c == '-' || c.isDigit

/-- Refuses the value at the front of a text, which has another shape than the expected one. -/
def refuse {T : Type} (chars : List Char) : Except Fault T :=
  match chars with
  | [] => .error .malformed
  | c :: rest => do
    if c = 'n' then discard <| expect "ull".toList rest
    else if c = 't' then discard <| expect "rue".toList rest
    else if c = 'f' then discard <| expect "alse".toList rest
    else if c = '"' then discard <| takeString (rest.length + 1) [] rest
    else if startsNumeral c then discard <| takeNumeral chars
    else if c ≠ '[' ∧ c ≠ '\x7b' then .error .malformed
    .error .mismatched

def readNumeral : Reader Numeral := fun chars =>
  match skipBlanks chars with
  | [] => .error .truncated
  | c :: rest => if startsNumeral c then takeNumeral (c :: rest) else refuse (c :: rest)

def readFloat : Reader Float := fun chars => do
  let (numeral, rest) ← readNumeral chars
  .ok (numeral.value, rest)

/-- Reads a whole number below `2 ^ 64`. -/
def readNatural : Reader Nat := fun chars => do
  let (numeral, rest) ← readNumeral chars
  match numeral.natural? with
  | some value => .ok (value, rest)
  | none => .error .mismatched

def readString : Reader String := fun chars =>
  match skipBlanks chars with
  | [] => .error .truncated
  | '"' :: rest => takeString (rest.length + 1) [] rest
  | chars => refuse chars

/-- Reads a value or `null`. -/
def readNullable {T : Type} (reader : Reader T) : Reader (Option T) := fun chars =>
  match skipBlanks chars with
  | 'n' :: rest => do .ok (none, ← expect "ull".toList rest)
  | chars => do
    let (value, rest) ← reader chars
    .ok (some value, rest)

def takeColon (chars : List Char) : Except Fault (List Char) :=
  match skipBlanks chars with
  | [] => .error .truncated
  | ':' :: rest => .ok rest
  | _ => .error .malformed

section Skipping

/-- The array or object around a value that is skipped. -/
inductive Frame where
  | array
  | object

/-- Drops a key and its colon. -/
def skipKey (chars : List Char) : Except Fault (List Char) :=
  match skipBlanks chars with
  | [] => .error .truncated
  | '"' :: rest => do takeColon (← skipString (rest.length + 1) rest)
  | _ => .error .malformed

/-- Drops a value that is neither an array nor an object. -/
def skipScalar (chars : List Char) : Except Fault (List Char) :=
  match chars with
  | [] => .error .truncated
  | 'n' :: rest => expect "ull".toList rest
  | 't' :: rest => expect "rue".toList rest
  | 'f' :: rest => expect "alse".toList rest
  | '"' :: rest => skipString (rest.length + 1) rest
  | c :: _ => if startsNumeral c then skipNumeral chars else .error .malformed

mutual

/-- Drops a value inside the given frames, and what is left of them.  The first argument bounds
the number of steps. -/
def skipValueIn : Nat → List Frame → List Char → Except Fault (List Char)
  | 0, _, _ => .error .truncated
  | bound + 1, frames, chars =>
    match skipBlanks chars with
    | '[' :: rest =>
      match skipBlanks rest with
      | [] => .error .truncated
      | ']' :: rest => skipRest bound frames rest
      | rest => skipValueIn bound (.array :: frames) rest
    | '\x7b' :: rest =>
      match skipBlanks rest with
      | [] => .error .truncated
      | '\x7d' :: rest => skipRest bound frames rest
      | rest => do skipValueIn bound (.object :: frames) (← skipKey rest)
    | chars => do skipRest bound frames (← skipScalar chars)

/-- Drops what follows a value inside the given frames. -/
def skipRest : Nat → List Frame → List Char → Except Fault (List Char)
  | _, [], chars => .ok chars
  | 0, _, _ => .error .truncated
  | bound + 1, frame :: frames, chars =>
    match frame, skipBlanks chars with
    | _, [] => .error .truncated
    | .array, ',' :: rest => skipValueIn bound (.array :: frames) rest
    | .object, ',' :: rest => do skipValueIn bound (.object :: frames) (← skipKey rest)
    | .array, ']' :: rest => skipRest bound frames rest
    | .object, '\x7d' :: rest => skipRest bound frames rest
    | _, _ => .error .malformed

end

def skipValue (chars : List Char) : Except Fault (List Char) :=
  skipValueIn (2 * chars.length + 2) [] chars

end Skipping

section Objects

/-- Reads the members of an object behind its opening brace, and its closing brace.  Each member
is read by a step that is given its key and stands before its colon.  The first argument bounds
the number of members; the flag tells whether a member came before. -/
def readMembers {T : Type} (step : T → String → Reader T) : Nat → Bool → T → Reader T
  | 0, _, _, _ => .error .truncated
  | bound + 1, later, state, chars =>
    match skipBlanks chars with
    | [] => .error .truncated
    | '\x7d' :: rest => .ok (state, rest)
    | c :: rest =>
      let start := if later && c == ',' then some (skipBlanks rest)
        else if later then none else some (c :: rest)
      match start with
      | none => .error .malformed
      | some [] => .error .truncated
      | some ('"' :: rest) => do
        let (key, rest) ← takeString (rest.length + 1) [] rest
        let (state, rest) ← step state key rest
        readMembers step bound true state rest
      | some _ => .error .malformed

def readObject {T : Type} (step : T → String → Reader T) (start : T) : Reader T := fun chars =>
  match skipBlanks chars with
  | [] => .error .truncated
  | '\x7b' :: rest => readMembers step (rest.length + 1) false start rest
  | chars => refuse chars

/-- Reads an object as a table; of members with the same key the last one counts. -/
def readTable {T : Type} (reader : Reader T) : Reader (List (String × T)) := fun chars => do
  let (reversed, rest) ← readObject (fun entries key chars => do
    let (value, rest) ← reader (← takeColon chars)
    .ok ((key, value) :: entries, rest)) [] chars
  .ok (reversed.reverse, rest)

end Objects

section Records

/-- A field of a record: its key, and a reader that puts its value into the record. -/
structure Field (T : Type) where
  key : String
  read : T → Reader T

/-- Whether a record without some of its fields is refused or keeps what it had. -/
inductive Missing where
  | refused
  | kept
  deriving DecidableEq

/-- Reads one member of a record.  Members that are no field are skipped, and a field that comes
twice is refused. -/
def readField {T : Type} (fields : List (Field T)) (state : T × List String) (key : String) :
    Reader (T × List String) := fun chars =>
  match fields.find? (·.key == key) with
  | none => do .ok (state, ← skipValue (← takeColon chars))
  | some field =>
    if state.2.contains key then .error .mismatched
    else do
      let (record, rest) ← field.read state.1 (← takeColon chars)
      .ok ((record, key :: state.2), rest)

/-- Reads the elements of an array behind its opening bracket as the fields of a record, in
their order, and its closing bracket.  The flag tells whether an element came before. -/
def readPositional {T : Type} (missing : Missing) :
    List (Field T) → Bool → T → Reader T
  | [], _, record, chars =>
    match skipBlanks chars with
    | [] => .error .truncated
    | ']' :: rest => .ok (record, rest)
    | _ => .error .malformed
  | field :: fields, later, record, chars =>
    match skipBlanks chars with
    | [] => .error .truncated
    | ']' :: rest => if missing = .kept then .ok (record, rest) else .error .mismatched
    | c :: rest =>
      if later && c != ',' then .error .malformed
      else
        match (if later then skipBlanks rest else c :: rest) with
        | [] => .error .truncated
        | ']' :: _ => .error .malformed
        | chars => do
          let (record, rest) ← field.read record chars
          readPositional missing fields true record rest

/-- Reads a record, written as an object or as an array of its fields. -/
def readRecord {T : Type} (fields : List (Field T)) (missing : Missing) (start : T) : Reader T :=
  fun chars =>
    match skipBlanks chars with
    | '[' :: rest => readPositional missing fields false start rest
    | chars => do
      let ((record, seen), rest) ← readObject (readField fields) (start, []) chars
      if missing = .kept ∨ fields.all (seen.contains ·.key) then .ok (record, rest)
      else .error .mismatched

/-- A field whose value is read and then stored. -/
def field {T V : Type} (key : String) (reader : Reader V) (store : T → V → T) : Field T :=
  { key := key
    read := fun record chars => do
      let (value, rest) ← reader chars
      .ok (store record value, rest) }

end Records

/-- Reads a text that holds one value and nothing else. -/
def readText {T : Type} (reader : Reader T) (text : String) : Except Fault T := do
  let (value, rest) ← reader text.toList
  if (skipBlanks rest).isEmpty then .ok value else .error .malformed

end Json

end MarkovDecision
