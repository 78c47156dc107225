import ChordSequencer.Json.Basic

/-!
# Reading JSON

A reader of JSON texts. Each part of the grammar takes a text and gives what it has read and the
rest; nothing is given when the text is no JSON.
-/

namespace ChordSequencer.Json

/-- The blanks between tokens. -/
def isSpace (c : Char) : Bool := c == ' ' || c == '\t' || c == '\n' || c == '\r'

/-- Skips blanks. -/
def skip (s : List Char) : List Char := s.dropWhile isSpace

/-- Takes a literal off a text. -/
def literal? (word : List Char) (s : List Char) : Option (List Char) :=
  if word.isPrefixOf s then some (s.drop word.length) else none

/-- The value of a hexadecimal digit. -/
def hexDigit? (c : Char) : Option Nat :=
  if '0' ≤ c && c ≤ '9' then some (c.toNat - 48)
  else if 'a' ≤ c && c ≤ 'f' then some (c.toNat - 87)
  else if 'A' ≤ c && c ≤ 'F' then some (c.toNat - 55)
  else none

/-- Four hexadecimal digits. -/
def hex4? : List Char → Option (Nat × List Char)
  | a :: b :: c :: d :: r => do
    let a ← hexDigit? a
    let b ← hexDigit? b
    let c ← hexDigit? c
    let d ← hexDigit? d
    return (((a * 16 + b) * 16 + c) * 16 + d, r)
  | _ => none

/-- A code point after `\u`, which two surrogates may give together; one alone gives the replacement
character. -/
def codePoint? (s : List Char) : Option (Char × List Char) := do
  let (high, r) ← hex4? s
  if 0xD800 ≤ high ∧ high < 0xDC00 then
    match r with
    | '\\' :: 'u' :: r' =>
      let (low, rest) ← hex4? r'
      if 0xDC00 ≤ low ∧ low < 0xE000 then
        return (Char.ofNat (0x10000 + (high - 0xD800) * 0x400 + (low - 0xDC00)), rest)
      else return ('\uFFFD', r)
    | _ => return ('\uFFFD', r)
  else if 0xDC00 ≤ high ∧ high < 0xE000 then return ('\uFFFD', r)
  else return (Char.ofNat high, r)

/-- The character of an escape of one letter. -/
def escape? : Char → Option Char
  | '"' => some '"'
  | '\\' => some '\\'
  | '/' => some '/'
  | 'b' => some '\x08'
  | 'f' => some '\x0c'
  | 'n' => some '\n'
  | 'r' => some '\r'
  | 't' => some '\t'
  | _ => none

/-- A text after its opening quote; `done` are the characters so far, the latest first. -/
def string? : Nat → List Char → List Char → Option (String × List Char)
  | 0, _, _ => none
  | n + 1, done, s =>
    match s with
    | [] => none
    | '"' :: r => some (String.ofList done.reverse, r)
    | '\\' :: 'u' :: r => (codePoint? r).bind fun (c, r) => string? n (c :: done) r
    | '\\' :: e :: r => (escape? e).bind fun c => string? n (c :: done) r
    | c :: r => string? n (c :: done) r

/-- The ASCII digits at the start of a text. -/
def digits (s : List Char) : List Char × List Char :=
  (s.takeWhile Char.isDigit, s.dropWhile Char.isDigit)

/-- The number that ASCII digits write. -/
def digitsValue (s : List Char) : Nat := s.foldl (fun n c => 10 * n + (c.toNat - 48)) 0

/-- The exponent of a number: its value, and whether there is one. -/
def exponent (s : List Char) : Int × Bool × List Char :=
  match s with
  | e :: r =>
    if e = 'e' ∨ e = 'E' then
      let (negative, r') : Bool × List Char := match r with
        | '-' :: t => (true, t)
        | '+' :: t => (false, t)
        | t => (false, t)
      let (ds, rest) := digits r'
      if ds.isEmpty then (0, false, s)
      else
        let n : Int := digitsValue ds
        (if negative then -n else n, true, rest)
    else (0, false, s)
  | [] => (0, false, s)

/-- A number without its sign. -/
def unsigned? (negative : Bool) (s : List Char) : Option (Json × List Char) :=
  let (whole, r) := digits s
  if whole.isEmpty then none
  else
    let (fraction, r, hasPoint) : List Char × List Char × Bool := match r with
      | '.' :: t =>
        let (ds, rest) := digits t
        if ds.isEmpty then ([], r, false) else (ds, rest, true)
      | _ => ([], r, false)
    let (e, hasExponent, rest) := exponent r
    if hasPoint || hasExponent then
      some (.float (Number.Decimal.toDouble
        ⟨negative, digitsValue (whole ++ fraction), e - fraction.length⟩), rest)
    else
      let n : Int := digitsValue whole
      some (.int (if negative then -n else n), rest)

/-- A number. -/
def number? : List Char → Option (Json × List Char)
  | '-' :: r => unsigned? true r
  | s => unsigned? false s

mutual

/-- A value. -/
def value? : Nat → List Char → Option (Json × List Char)
  | 0, _ => none
  | n + 1, s =>
    match skip s with
    | '{' :: r =>
      match skip r with
      | '}' :: r => some (.obj [], r)
      | r => (members? n [] r).map fun (ms, r) => (.obj ms, r)
    | '[' :: r =>
      match skip r with
      | ']' :: r => some (.arr [], r)
      | r => (items? n [] r).map fun (vs, r) => (.arr vs, r)
    | '"' :: r => (string? (r.length + 1) [] r).map fun (t, r) => (.str t, r)
    | 't' :: r => (literal? ['r', 'u', 'e'] r).map fun r => (.bool true, r)
    | 'f' :: r => (literal? ['a', 'l', 's', 'e'] r).map fun r => (.bool false, r)
    | 'n' :: r => (literal? ['u', 'l', 'l'] r).map fun r => (.null, r)
    | r => number? r

/-- The items of a list up to its closing bracket; `done` are the items so far, the latest first. -/
def items? : Nat → List Json → List Char → Option (List Json × List Char)
  | 0, _, _ => none
  | n + 1, done, s =>
    match value? n s with
    | none => none
    | some (v, r) =>
      match skip r with
      | ',' :: r => items? n (v :: done) r
      | ']' :: r => some ((v :: done).reverse, r)
      | _ => none

/-- The members of an object up to its closing brace. A key that comes again replaces the value that
it had. -/
def members? : Nat → List (String × Json) → List Char →
    Option (List (String × Json) × List Char)
  | 0, _, _ => none
  | n + 1, done, s =>
    match skip s with
    | '"' :: r =>
      match string? (r.length + 1) [] r with
      | none => none
      | some (key, r) =>
        match skip r with
        | ':' :: r =>
          match value? n r with
          | none => none
          | some (v, r) =>
            let done := if (done.lookup key).isSome
              then done.map fun (k, old) => if k = key then (k, v) else (k, old)
              else (key, v) :: done
            match skip r with
            | ',' :: r => members? n done r
            | '}' :: r => some (done.reverse, r)
            | _ => none
        | _ => none
    | _ => none

end

/-- The value that a JSON text says. -/
def ofText? (text : String) : Option Json :=
  let s := text.toList
  match value? (s.length + 1) s with
  | some (v, rest) => if (skip rest).isEmpty then some v else none
  | none => none

end ChordSequencer.Json
