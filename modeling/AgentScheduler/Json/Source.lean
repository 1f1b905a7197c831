/-
JSON text, read into a tree that still holds what was written: numerals digit
by digit, strings that may contain half a surrogate pair, members in their
order with repetitions. What a number or a string means is settled by whoever
takes it out of the tree, so a part that nobody looks at only has to be
well formed.

The grammar is the strict one: no byte order mark, comments, trailing commas
or trailing text, and no raw control characters in strings.
-/
namespace AgentScheduler.Json

/-- A number as written: its digits before and behind the point, and the digits of its
exponent with the sign. -/
structure Numeral where
  negative : Bool
  whole : List Char
  fraction : List Char
  exponent : Option (Bool × List Char)
  deriving DecidableEq

/-- A JSON text as a tree. A string is `none` where a surrogate lacks its other half. -/
inductive Source
  | null
  | bool (b : Bool)
  | num (n : Numeral)
  | str (s : Option String)
  | arr (items : List Source)
  | obj (members : List (Option String × Source))

namespace Source

/-- Space, tabulator and the two line ends. -/
def isBlank (c : Char) : Bool := c == ' ' || c == '\n' || c == '\t' || c == '\r'

/-- The text behind leading blanks. -/
def skipBlanks (cs : List Char) : List Char := cs.dropWhile isBlank

/-! ## Strings -/

/-- The value of a hexadecimal digit. -/
def hexValue? (c : Char) : Option Nat :=
  if '0' ≤ c ∧ c ≤ '9' then some (c.toNat - 48)
  else if 'a' ≤ c ∧ c ≤ 'f' then some (c.toNat - 87)
  else if 'A' ≤ c ∧ c ≤ 'F' then some (c.toNat - 55)
  else none

/-- The value of four hexadecimal digits. -/
def hexWord? (a b c d : Char) : Option Nat := do
  some ((((← hexValue? a) * 16 + (← hexValue? b)) * 16 + (← hexValue? c)) * 16 + (← hexValue? d))

/-- What a one-letter escape stands for. -/
def unescape? (c : Char) : Option Char :=
  match c with
  | '"' => some '"'
  | '\\' => some '\\'
  | '/' => some '/'
  | 'b' => some '\x08'
  | 'f' => some '\x0c'
  | 'n' => some '\n'
  | 'r' => some '\r'
  | 't' => some '\t'
  | _ => none

/-- The code points and escaped code units up to the closing quote, and the text behind
it. -/
def stringUnits : List Char → Option (List Nat × List Char)
  | [] => none
  | '"' :: rest => some ([], rest)
  | '\\' :: 'u' :: a :: b :: c :: d :: rest => do
    let unit ← hexWord? a b c d
    let (units, rest) ← stringUnits rest
    some (unit :: units, rest)
  | '\\' :: c :: rest => do
    let c ← unescape? c
    let (units, rest) ← stringUnits rest
    some (c.toNat :: units, rest)
  | c :: rest =>
    if c.toNat < 32 ∨ c = '\\' then none
    else do
      let (units, rest) ← stringUnits rest
      some (c.toNat :: units, rest)

/-- The first half of a surrogate pair. -/
def isHighSurrogate (n : Nat) : Bool := 0xd800 ≤ n && n < 0xdc00

/-- The second half of a surrogate pair. -/
def isLowSurrogate (n : Nat) : Bool := 0xdc00 ≤ n && n < 0xe000

/-- Characters of code points and code units; none where half a pair stands alone. -/
def joinSurrogates : List Nat → Option (List Char)
  | [] => some []
  | high :: low :: rest =>
    if isHighSurrogate high then
      if isLowSurrogate low then
        (joinSurrogates rest).map
          (Char.ofNat (0x10000 + (high - 0xd800) * 0x400 + (low - 0xdc00)) :: ·)
      else none
    else if isLowSurrogate high then none
    else (joinSurrogates (low :: rest)).map (Char.ofNat high :: ·)
  | [last] =>
    if isHighSurrogate last || isLowSurrogate last then none else some [Char.ofNat last]

/-- A string behind its opening quote. -/
def string (cs : List Char) : Option (Option String × List Char) := do
  let (units, rest) ← stringUnits cs
  some ((joinSurrogates units).map String.ofList, rest)

/-! ## Numerals -/

/-- Leading digits and the text behind them. -/
def digits (cs : List Char) : List Char × List Char :=
  (cs.takeWhile Char.isDigit, cs.dropWhile Char.isDigit)

/-- At least one digit and the text behind. -/
def digits1 (cs : List Char) : Option (List Char × List Char) :=
  match digits cs with
  | ([], _) => none
  | found => some found

/-- The digits before the point: zero alone, or digits that do not start with zero. -/
def wholePart (cs : List Char) : Option (List Char × List Char) :=
  match digits cs with
  | ([], _) => none
  | ('0' :: _ :: _, _) => none
  | found => some found

/-- The digits behind a point; none without a point. -/
def fractionPart : List Char → Option (List Char × List Char)
  | '.' :: rest => digits1 rest
  | rest => some ([], rest)

/-- The exponent's digits behind its mark and sign. -/
def exponentPart (cs : List Char) : Option (Option (Bool × List Char) × List Char) :=
  let behindMark := fun rest =>
    match rest with
    | '-' :: rest => (digits1 rest).map fun (ds, rest) => (some (true, ds), rest)
    | '+' :: rest => (digits1 rest).map fun (ds, rest) => (some (false, ds), rest)
    | rest => (digits1 rest).map fun (ds, rest) => (some (false, ds), rest)
  match cs with
  | 'e' :: rest => behindMark rest
  | 'E' :: rest => behindMark rest
  | rest => some (none, rest)

/-- A number. -/
def numeral (cs : List Char) : Option (Numeral × List Char) := do
  let (negative, cs) := match cs with
    | '-' :: rest => (true, rest)
    | rest => (false, rest)
  let (whole, cs) ← wholePart cs
  let (fraction, cs) ← fractionPart cs
  let (exponent, cs) ← exponentPart cs
  some (⟨negative, whole, fraction, exponent⟩, cs)

/-! ## Values -/

mutual

/-- A value at the start of the text, and the text behind it. -/
def value : Nat → List Char → Option (Source × List Char)
  | 0, _ => none
  | fuel + 1, cs =>
    match cs with
    | 'n' :: 'u' :: 'l' :: 'l' :: rest => some (.null, rest)
    | 't' :: 'r' :: 'u' :: 'e' :: rest => some (.bool true, rest)
    | 'f' :: 'a' :: 'l' :: 's' :: 'e' :: rest => some (.bool false, rest)
    | '"' :: rest => (string rest).map fun (s, rest) => (.str s, rest)
    | '[' :: rest =>
      match skipBlanks rest with
      | ']' :: rest => some (.arr [], rest)
      | rest => (items fuel rest).map fun (vs, rest) => (.arr vs, rest)
    | '\x7b' :: rest =>
      match skipBlanks rest with
      | '\x7d' :: rest => some (.obj [], rest)
      | rest => (members fuel rest).map fun (ms, rest) => (.obj ms, rest)
    | cs => (numeral cs).map fun (n, rest) => (.num n, rest)

/-- The items of an array up to its closing bracket. -/
def items : Nat → List Char → Option (List Source × List Char)
  | 0, _ => none
  | fuel + 1, cs => do
    let (v, rest) ← value fuel (skipBlanks cs)
    match skipBlanks rest with
    | ']' :: rest => some ([v], rest)
    | ',' :: rest => (items fuel rest).map fun (vs, rest) => (v :: vs, rest)
    | _ => none

/-- The members of an object up to its closing brace. -/
def members : Nat → List Char → Option (List (Option String × Source) × List Char)
  | 0, _ => none
  | fuel + 1, cs =>
    match skipBlanks cs with
    | '"' :: rest => do
      let (key, rest) ← string rest
      match skipBlanks rest with
      | ':' :: rest => do
        let (v, rest) ← value fuel (skipBlanks rest)
        match skipBlanks rest with
        | '\x7d' :: rest => some ([(key, v)], rest)
        | ',' :: rest => (members fuel rest).map fun (ms, rest) => ((key, v) :: ms, rest)
        | _ => none
      | _ => none
    | _ => none

end

/-- The tree of a text that holds one value, with blanks around it. Two steps for every
character are enough. -/
def ofText? (s : String) : Option Source := do
  let cs := s.toList
  let (v, rest) ← value (2 * cs.length + 2) (skipBlanks cs)
  if (skipBlanks rest).isEmpty then some v else none

end Source

end AgentScheduler.Json
