import ScriptHost.Number.Numeral
import ScriptHost.Text.Rune
import ScriptHost.Toml.Time

set_option autoImplicit false

namespace ScriptHost.Toml

inductive Scalar where
  | text (s : Bytes)
  | integer (n : Int)
  | float (bits : UInt64)
  | boolean (b : Bool)
  | time (t : Time)
deriving DecidableEq, Repr

inductive Expression where
  | scalar (s : Scalar)
  | array (items : List Expression)
  | inlineTable (entries : List (List Bytes × Expression))

def Expression.isArray : Expression → Bool
  | .array _ => true
  | _ => false

inductive Statement where
  | header (key : List Bytes)
  | arrayHeader (key : List Bytes)
  | assignment (key : List Bytes) (value : Expression)

def isBlank (c : Char) : Bool := c = ' ' || c = '\t'

def isLineEnd (c : Char) : Bool := c = '\n' || c = '\r'

def isBareKeyChar (c : Char) : Bool := c.isAlphanum || c = '_' || c = '-'

def isClean : List Char → Bool
  | [] => true
  | '\r' :: '\n' :: rest => isClean rest
  | c :: rest => (c = '\t' || c = '\n' || (0x20 ≤ c.toNat && c.toNat ≠ 0x7f)) && isClean rest

def skipBlanks (s : List Char) : List Char := s.dropWhile isBlank

def skipFiller : Bool → List Char → List Char
  | _, [] => []
  | true, c :: rest => skipFiller (!isLineEnd c) rest
  | false, c :: rest =>
    if isBlank c || isLineEnd c then skipFiller false rest
    else if c = '#' then skipFiller true rest
    else c :: rest

def endOfLine (s : List Char) : Option (List Char) :=
  match skipBlanks s with
  | [] => some []
  | c :: rest =>
    if isLineEnd c then some rest
    else if c = '#' then some (rest.dropWhile (!isLineEnd ·))
    else none

inductive StringState where
  | plain
  | escape
  | escaped
  | code (left value : Nat)
  | joining

def simpleEscape? (c : Char) : Option Char :=
  match c with
  | 'b' => some (Char.ofNat 0x08)
  | 't' => some '\t'
  | 'n' => some '\n'
  | 'f' => some (Char.ofNat 0x0c)
  | 'r' => some '\r'
  | 'e' => some (Char.ofNat 0x1b)
  | '"' => some '"'
  | '\\' => some '\\'
  | _ => none

def codeLength? (c : Char) : Option Nat :=
  match c with
  | 'x' => some 2
  | 'u' => some 4
  | 'U' => some 8
  | _ => none

def scalarValue? (n : Nat) : Option Char :=
  if n < 0xd800 ∨ 0xdfff < n ∧ n ≤ 0x10ffff then some (Char.ofNat n) else none

def before (s : Bytes) (found : Option (Bytes × List Char)) : Option (Bytes × List Char) :=
  found.map fun (t, rest) => (s ++ t, rest)

def basicString : StringState → List Char → Option (Bytes × List Char)
  | _, [] => none
  | .escape, c :: rest =>
    match simpleEscape? c, codeLength? c with
    | some d, _ => before (Bytes.ofChar d) (basicString .plain rest)
    | none, some n => basicString (.code n 0) rest
    | none, none => none
  | .code left value, c :: rest =>
    match Numeral.hexDigit? c with
    | none => none
    | some d =>
      if 1 < left then basicString (.code (left - 1) (16 * value + d)) rest
      else match scalarValue? (16 * value + d) with
        | some e => before (Bytes.ofChar e) (basicString .plain rest)
        | none => none
  | _, c :: rest =>
    if c = '"' then some ([], rest)
    else if c = '\\' then basicString .escape rest
    else if isLineEnd c then none
    else before (Bytes.ofChar c) (basicString .plain rest)

def literalString : List Char → Option (Bytes × List Char)
  | [] => none
  | c :: rest =>
    if c = '\'' then some ([], rest)
    else if isLineEnd c then none
    else before (Bytes.ofChar c) (literalString rest)

def longEnd (quote : Char) (limit : Nat) (s : List Char) : Option (Option (Bytes × List Char)) :=
  let count := (s.takeWhile (· = quote)).length
  if count < 3 then none
  else if limit < count then some none
  else some (some ((List.replicate (count - 3) quote).flatMap Bytes.ofChar, s.drop count))

def endsLine (s : List Char) : Bool := (skipBlanks s).head?.any isLineEnd

def longBasicString : StringState → List Char → Option (Bytes × List Char)
  | _, [] => none
  | .escape, c :: rest =>
    match simpleEscape? c, codeLength? c with
    | some d, _ =>
      before (Bytes.ofChar d) (longBasicString (if c = '\\' then .escaped else .plain) rest)
    | none, some n => longBasicString (.code n 0) rest
    | none, none => if endsLine (c :: rest) then longBasicString .joining rest else none
  | .code left value, c :: rest =>
    match Numeral.hexDigit? c with
    | none => none
    | some d =>
      if 1 < left then longBasicString (.code (left - 1) (16 * value + d)) rest
      else match scalarValue? (16 * value + d) with
        | some e => before (Bytes.ofChar e) (longBasicString .plain rest)
        | none => none
  | state, c :: rest =>
    if (state matches .joining) && (isBlank c || isLineEnd c) then longBasicString .joining rest
    else match longEnd '"' (if state matches .escaped then 6 else 5) (c :: rest) with
      | some result => result
      | none =>
        if c = '\\' then longBasicString .escape rest
        else before (Bytes.ofChar c) (longBasicString .plain rest)

def longLiteralString : List Char → Option (Bytes × List Char)
  | [] => none
  | c :: rest =>
    match longEnd '\'' 5 (c :: rest) with
    | some result => result
    | none => before (Bytes.ofChar c) (longLiteralString rest)

def dropFirstLineEnd : List Char → List Char
  | '\r' :: '\n' :: rest => rest
  | '\n' :: rest => rest
  | s => s

def anyString : List Char → Option (Bytes × List Char)
  | '"' :: '"' :: '"' :: rest => longBasicString .plain (dropFirstLineEnd rest)
  | '"' :: rest => basicString .plain rest
  | '\'' :: '\'' :: '\'' :: rest => longLiteralString (dropFirstLineEnd rest)
  | '\'' :: rest => literalString rest
  | _ => none

def groupedDigits? (isDigit : Char → Bool) (s : List Char) : Option (List Char) :=
  let alternates := s.all (fun c => isDigit c || c = '_')
    && !(s.zip s.tail).any (fun (a, b) => a = '_' && b = '_')
  if alternates && s.head?.any isDigit && s.getLast?.any isDigit then some (s.filter (· ≠ '_'))
  else none

def inRange? (n : Int) : Option Int :=
  if -2 ^ 63 ≤ n ∧ n < 2 ^ 63 then some n else none

def isOctal (c : Char) : Bool := '0' ≤ c && c ≤ '7'

def isBinary (c : Char) : Bool := c = '0' || c = '1'

def decimalDigits? (s : List Char) : Option (List Char) :=
  match groupedDigits? Char.isDigit s with
  | some ('0' :: _ :: _) => none
  | digits => digits

def integer? (s : List Char) : Option Int :=
  let based (base : Nat) (isDigit : Char → Bool) (digits : List Char) : Option Int :=
    (groupedDigits? isDigit digits).bind fun digits => inRange? (Numeral.value base digits)
  match s with
  | '0' :: 'x' :: digits => based 16 (fun c => (Numeral.hexDigit? c).isSome) digits
  | '0' :: 'o' :: digits => based 8 isOctal digits
  | '0' :: 'b' :: digits => based 2 isBinary digits
  | s =>
    let (negative, digits) := Numeral.signed s
    (decimalDigits? digits).bind fun digits =>
      let n : Int := Numeral.value 10 digits
      inRange? (if negative then -n else n)

def isDigits (part : Option (List Char)) : Bool :=
  part.all fun s => (groupedDigits? Char.isDigit s).isSome

def isFloat (s : List Char) : Bool :=
  let (whole, fraction, power) := Numeral.parts 'e' (Numeral.signed s).2
  (fraction.isSome || power.isSome) && (decimalDigits? whole).isSome && isDigits fraction
    && isDigits (power.map fun p => (Numeral.signed p).2)

def float? (s : List Char) : Option UInt64 :=
  let unsigned := (Numeral.signed s).2
  if unsigned = "nan".toList then some (BinaryFormat.double.infinity + 1).toUInt64
  else
    (Numeral.toBinary? .double (s.filter (· ≠ '_'))).bind fun bits =>
      if unsigned = "inf".toList
          ∨ isFloat s && bits % 2 ^ 63 != BinaryFormat.double.infinity then
        some bits.toUInt64
      else none

def twoDigits? (a b : Char) : Option Nat :=
  if a.isDigit && b.isDigit then some (Numeral.value 10 [a, b]) else none

def date? (s : List Char) : Option (Date × List Char) :=
  match s with
  | a :: b :: c :: d :: '-' :: e :: f :: '-' :: g :: h :: rest => do
    let year := 100 * (← twoDigits? a b) + (← twoDigits? c d)
    let month ← twoDigits? e f
    let day ← twoDigits? g h
    if 1 ≤ month ∧ month ≤ 12 ∧ 1 ≤ day ∧ day ≤ Date.daysIn year month then
      some (⟨year, month, day⟩, rest)
    else none
  | _ => none

def fractionText (digits : List Char) : Bytes :=
  let kept := (digits.take 9).map fun c => c.toNat.toUInt8
  (kept.reverse.dropWhile (· == 0x30)).reverse

def clock? (s : List Char) : Option (Clock × List Char) :=
  match s with
  | a :: b :: ':' :: c :: d :: rest => do
    let hour ← twoDigits? a b
    let minute ← twoDigits? c d
    if 24 ≤ hour ∨ 60 ≤ minute then none
    match rest with
    | ':' :: e :: f :: rest =>
      let second ← twoDigits? e f
      if 60 ≤ second then none
      match rest with
      | '.' :: rest =>
        let digits := rest.takeWhile Char.isDigit
        if digits.isEmpty then none
        some (⟨hour, minute, second, fractionText digits⟩, rest.dropWhile Char.isDigit)
      | rest => some (⟨hour, minute, second, []⟩, rest)
    | rest => some (⟨hour, minute, 0, []⟩, rest)
  | _ => none

def zone? (s : List Char) : Option TimeZone :=
  match s with
  | [] => some .localDatetime
  | ['Z'] => some (.offset false 0 0)
  | ['z'] => some (.offset false 0 0)
  | [sign, a, b, ':', c, d] => do
    let hours ← twoDigits? a b
    let minutes ← twoDigits? c d
    if (sign = '+' ∨ sign = '-') ∧ hours ≤ 24 ∧ minutes ≤ 60 then
      some (.offset (sign = '-') hours minutes)
    else none
  | _ => none

def time? (s : List Char) : Option Time :=
  match date? s with
  | some (date, []) => some ⟨date, ⟨0, 0, 0, []⟩, .localDate⟩
  | some (date, c :: rest) =>
    if c = 'T' ∨ c = 't' ∨ c = ' ' then do
      let (clock, rest) ← clock? rest
      some ⟨date, clock, ← zone? rest⟩
    else none
  | none =>
    match clock? s with
    | some (clock, []) => some ⟨⟨0, 1, 1⟩, clock, .localTime⟩
    | _ => none

def isTokenChar (c : Char) : Bool :=
  c.isAlphanum || c = '_' || c = '+' || c = '-' || c = '.' || c = ':'

def token (s : List Char) : List Char × List Char :=
  let word := s.takeWhile isTokenChar
  let rest := s.dropWhile isTokenChar
  match date? word, rest with
  | some (_, []), ' ' :: c :: more =>
    if c.isDigit then
      (word ++ ' ' :: (c :: more).takeWhile isTokenChar, (c :: more).dropWhile isTokenChar)
    else (word, rest)
  | _, _ => (word, rest)

def tokenScalar? (word : List Char) : Option Scalar :=
  if word = "true".toList then some (.boolean true)
  else if word = "false".toList then some (.boolean false)
  else match integer? word, float? word, time? word with
    | some n, _, _ => some (.integer n)
    | none, some bits, _ => some (.float bits)
    | none, none, some t => some (.time t)
    | none, none, none => none

def simpleKey (s : List Char) : Option (Bytes × List Char) :=
  match s with
  | '"' :: rest => basicString .plain rest
  | '\'' :: rest => literalString rest
  | s =>
    let name := s.takeWhile isBareKeyChar
    if name.isEmpty then none
    else some (name.flatMap Bytes.ofChar, s.dropWhile isBareKeyChar)

def dottedKey : Nat → List Char → Option (List Bytes × List Char)
  | 0, _ => none
  | bound + 1, s => do
    let (name, rest) ← simpleKey (skipBlanks s)
    match skipBlanks rest with
    | '.' :: rest =>
      let (more, rest) ← dottedKey bound rest
      some (name :: more, rest)
    | rest => some ([name], rest)

def key (s : List Char) : Option (List Bytes × List Char) := dottedKey (s.length + 1) s

mutual

def value : Nat → List Char → Option (Expression × List Char)
  | 0, _ => none
  | bound + 1, s =>
    match skipBlanks s with
    | '[' :: rest => (arrayItems bound rest).map fun (xs, rest) => (.array xs, rest)
    | '\x7b' :: rest => (inlineEntries bound rest).map fun (xs, rest) => (.inlineTable xs, rest)
    | s =>
      match s with
      | '"' :: _ => (anyString s).map fun (t, rest) => (.scalar (.text t), rest)
      | '\'' :: _ => (anyString s).map fun (t, rest) => (.scalar (.text t), rest)
      | s =>
        let (word, rest) := token s
        (tokenScalar? word).map fun x => (.scalar x, rest)

def arrayItems : Nat → List Char → Option (List Expression × List Char)
  | 0, _ => none
  | bound + 1, s =>
    match skipFiller false s with
    | ']' :: rest => some ([], rest)
    | s => do
      let (x, rest) ← value bound s
      match skipFiller false rest with
      | ',' :: rest =>
        let (xs, rest) ← arrayItems bound rest
        some (x :: xs, rest)
      | ']' :: rest => some ([x], rest)
      | _ => none

def inlineEntries : Nat → List Char → Option (List (List Bytes × Expression) × List Char)
  | 0, _ => none
  | bound + 1, s =>
    match skipFiller false s with
    | '\x7d' :: rest => some ([], rest)
    | s => do
      let (k, rest) ← key s
      let '=' :: rest := rest | none
      let (x, rest) ← value bound rest
      match skipFiller false rest with
      | ',' :: rest =>
        let (xs, rest) ← inlineEntries bound rest
        some ((k, x) :: xs, rest)
      | '\x7d' :: rest => some ([(k, x)], rest)
      | _ => none

end

def statement (s : List Char) : Option (Statement × List Char) :=
  match s with
  | '[' :: '[' :: rest => do
    let (k, rest) ← key rest
    let ']' :: ']' :: rest := rest | none
    some (.arrayHeader k, rest)
  | '[' :: rest => do
    let (k, rest) ← key rest
    let ']' :: rest := rest | none
    some (.header k, rest)
  | s => do
    let (k, rest) ← key s
    let '=' :: rest := rest | none
    let (x, rest) ← value (2 * rest.length + 2) rest
    some (.assignment k x, rest)

def statements : Nat → List Char → Option (List Statement)
  | 0, _ => none
  | bound + 1, s =>
    match skipFiller false s with
    | [] => some []
    | s => do
      let (x, rest) ← statement s
      let rest ← endOfLine rest
      return x :: (← statements bound rest)

def withoutMark : Bytes → Bytes
  | 0xff :: 0xfe :: rest => rest
  | 0xfe :: 0xff :: rest => rest
  | 0xef :: 0xbb :: 0xbf :: rest => rest
  | s => s

def parse (document : Bytes) : Option (List Statement) :=
  let runes := (withoutMark document).runes
  let chars := runes.map Rune.char
  if runes.all Rune.isScalar && isClean chars then statements (chars.length + 1) chars else none

end ScriptHost.Toml
