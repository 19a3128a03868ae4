import EventLedger.Base.Json

namespace Json

-- Four lower-case hexadecimal digits.
def hex4 (n : ℕ) : Text :=
  [n / 4096 % 16, n / 256 % 16, n / 16 % 16, n % 16].map Nat.digitChar

-- The ASCII text of a character inside a string.
def escape (c : Char) : Text :=
  if c = '"' then ['\\', '"']
  else if c = '\\' then ['\\', '\\']
  else if c = '\n' then ['\\', 'n']
  else if c = '\r' then ['\\', 'r']
  else if c = '\t' then ['\\', 't']
  else if c = '\x0c' then ['\\', 'f']
  else if c = '\x08' then ['\\', 'b']
  else if 0x20 ≤ c.toNat ∧ c.toNat ≤ 0x7e then [c]
  else if c.toNat < 0x10000 then '\\' :: 'u' :: hex4 c.toNat
  else
    let n := c.toNat - 0x10000
    '\\' :: 'u' :: hex4 (0xd800 + n / 1024) ++ '\\' :: 'u' :: hex4 (0xdc00 + n % 1024)

def quote (s : Text) : Text :=
  '"' :: s.flatMap escape ++ ['"']

def intText (i : ℤ) : Text :=
  Numeral.text 'e' 2 ⟨i < 0, Nat.toDigits 10 i.natAbs, [], none⟩

def floatText : Float64 → Text
  | .nan            => "NaN"
  | .inf false      => "Infinity"
  | .inf true       => "-Infinity"
  | .finite neg mag => (mag.numeral neg).text 'e' 2

mutual

-- The compact text of a value, the members of an object in the order they have.
def emit : Json → Text
  | null                => "null"
  | bool true           => "true"
  | bool false          => "false"
  | int i               => intText i
  | float x             => floatText x
  | str s               => quote s
  | arr []              => ['[', ']']
  | arr (x :: xs)       => '[' :: x.emit ++ emitElems xs
  | obj []              => ['{', '}']
  | obj ((k, v) :: fs)  => '{' :: quote k ++ ':' :: v.emit ++ emitMembers fs

def emitElems : List Json → Text
  | []      => [']']
  | x :: xs => ',' :: x.emit ++ emitElems xs

def emitMembers : List (Text × Json) → Text
  | []           => ['}']
  | (k, v) :: fs => ',' :: quote k ++ ':' :: v.emit ++ emitMembers fs

end

-- The compact text of a value with sorted names.
def dumps (j : Json) : Text :=
  j.sorted.emit

def isWs (c : Char) : Bool :=
  c = ' ' || c = '\t' || c = '\n' || c = '\r'

def skipWs (t : Text) : Text :=
  t.dropWhile isWs

def scanHex4 : Text → Option (ℕ × Text)
  | a :: b :: c :: d :: t => do
    let a ← Text.hexDigit a
    let b ← Text.hexDigit b
    let c ← Text.hexDigit c
    let d ← Text.hexDigit d
    some (a * 4096 + b * 256 + c * 16 + d, t)
  | _ => none

-- What follows `\u`: a pair of surrogates is one character, a lone one is none.
def scanUnicode (t : Text) : Option (Char × Text) := do
  let (u, t) ← scanHex4 t
  if 0xd800 ≤ u ∧ u ≤ 0xdbff then
    match t with
    | '\\' :: 'u' :: t =>
      let (v, t) ← scanHex4 t
      if 0xdc00 ≤ v ∧ v ≤ 0xdfff then
        some (Char.ofNat (0x10000 + (u - 0xd800) * 1024 + (v - 0xdc00)), t)
      else
        none
    | _ => none
  else if 0xdc00 ≤ u ∧ u ≤ 0xdfff then
    none
  else
    some (Char.ofNat u, t)

def scanEscape : Text → Option (Char × Text)
  | '"' :: t  => some ('"', t)
  | '\\' :: t => some ('\\', t)
  | '/' :: t  => some ('/', t)
  | 'b' :: t  => some ('\x08', t)
  | 'f' :: t  => some ('\x0c', t)
  | 'n' :: t  => some ('\n', t)
  | 'r' :: t  => some ('\r', t)
  | 't' :: t  => some ('\t', t)
  | 'u' :: t  => scanUnicode t
  | _         => none

def scanChar : Text → Option (Char × Text)
  | []     => none
  | c :: t => if c = '\\' then scanEscape t else if c.toNat < 0x20 then none else some (c, t)

-- The characters up to the closing quote, at most `n` of them.
def scanString : ℕ → Text → Option (Text × Text)
  | 0,     _ => none
  | n + 1, t =>
    if t.head? = some '"' then some ([], t.tail) else do
    let (c, t) ← scanChar t
    let (s, t) ← scanString n t
    some (c :: s, t)

-- A point counts as part of a number only before a digit.
def scanFraction (t : Text) : Text × Text :=
  let (ds, r) := Numeral.scanFrac t
  if ds = [] then ([], t) else (ds, r)

def scanExponent : Text → Option ℤ × Text
  | []     => (none, [])
  | c :: t =>
    if c = 'e' ∨ c = 'E' then
      let (neg, r) := Numeral.scanSign t
      let (ds, r) := Numeral.spanDigits r
      if ds = [] then
        (none, c :: t)
      else
        let k : ℤ := Nat.ofDigitChars 10 ds 0
        (some <| if neg then -k else k, r)
    else
      (none, c :: t)

def scanNumber (t : Text) : Option (Json × Text) :=
  let (neg, t) := if t.head? = some '-' then (true, t.tail) else (false, t)
  let (ds, r) := Numeral.spanDigits t
  if ds = [] then none else
  let (whole, t) := if ds.head? = some '0' then (['0'], t.tail) else (ds, r)
  let (frac, t) := scanFraction t
  let (exp, t) := scanExponent t
  let n : Numeral := { neg, int := whole, frac, exp }
  if frac = [] ∧ exp = none then
    let k := Nat.ofDigitChars 10 whole 0
    some (Json.int (if neg then -k else k), t)
  else
    some (float (Float64.ofDecimal n.decimal), t)

def constants : List (Text × Json) :=
  [("null", null), ("true", bool true), ("false", bool false), ("NaN", float .nan),
   ("Infinity", float (.inf false)), ("-Infinity", float (.inf true))]

def scanConstant (t : Text) : Option (Json × Text) :=
  constants.findSome? fun (p, v) => if p.isPrefixOf t then some (v, t.drop p.length) else none

def setMember (fs : List (Text × Json)) (f : Text × Json) : List (Text × Json) :=
  if f.1 ∈ fs.map Prod.fst then fs.map fun g => if g.1 = f.1 then f else g else fs ++ [f]

-- The dictionary a sequence of members builds: the last value of a name is kept.
def dict (fs : List (Text × Json)) : List (Text × Json) :=
  fs.foldl setMember []

mutual

def scanValue : ℕ → Text → Option (Json × Text)
  | 0,     _ => none
  | n + 1, t =>
    match skipWs t with
    | '"' :: t => do
      let (s, t) ← scanString (t.length + 1) t
      some (str s, t)
    | '[' :: t =>
      if (skipWs t).head? = some ']' then some (arr [], (skipWs t).tail) else do
      let (x, t) ← scanValue n t
      let (xs, t) ← scanElems n t
      some (arr (x :: xs), t)
    | '{' :: t =>
      if (skipWs t).head? = some '}' then some (obj [], (skipWs t).tail) else do
      let (f, t) ← scanMember n t
      let (fs, t) ← scanMembers n t
      some (obj (dict (f :: fs)), t)
    | t => scanNumber t <|> scanConstant t

def scanElems : ℕ → Text → Option (List Json × Text)
  | 0,     _ => none
  | n + 1, t =>
    match skipWs t with
    | ']' :: t => some ([], t)
    | ',' :: t => do
      let (x, t) ← scanValue n t
      let (xs, t) ← scanElems n t
      some (x :: xs, t)
    | _ => none

def scanMember : ℕ → Text → Option ((Text × Json) × Text)
  | 0,     _ => none
  | n + 1, t =>
    match skipWs t with
    | '"' :: t => do
      let (k, t) ← scanString (t.length + 1) t
      match skipWs t with
      | ':' :: t =>
        let (v, t) ← scanValue n t
        some ((k, v), t)
      | _ => none
    | _ => none

def scanMembers : ℕ → Text → Option (List (Text × Json) × Text)
  | 0,     _ => none
  | n + 1, t =>
    match skipWs t with
    | '}' :: t => some ([], t)
    | ',' :: t => do
      let (f, t) ← scanMember n t
      let (fs, t) ← scanMembers n t
      some (f :: fs, t)
    | _ => none

end

-- The value a text denotes; every level of nesting takes at least one of its characters.
def loads (t : Text) : Option Json :=
  match scanValue t.length t with
  | some (v, r) => if skipWs r = [] then some v else none
  | none        => none

end Json
