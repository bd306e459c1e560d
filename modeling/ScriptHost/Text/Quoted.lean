import ScriptHost.Text.Printable
import ScriptHost.Text.Rune

set_option autoImplicit false

namespace ScriptHost.Text

inductive Repertoire where
  | printable
  | ascii
deriving DecidableEq, Repr

def Repertoire.contains (r : Repertoire) (c : Char) : Bool :=
  match r with
  | .printable => isPrintable c
  | .ascii => c.toNat < 0x80 && isPrintable c

def escapeLetter? (c : Char) : Option Char :=
  match c.toNat with
  | 0x07 => some 'a'
  | 0x08 => some 'b'
  | 0x0c => some 'f'
  | 0x0a => some 'n'
  | 0x0d => some 'r'
  | 0x09 => some 't'
  | 0x0b => some 'v'
  | _ => none

def escapeChar (repertoire : Repertoire) (quote c : Char) : Bytes :=
  if c = quote ∨ c = '\\' then "\\" ++ Bytes.ofChar c
  else if repertoire.contains c then Bytes.ofChar c
  else match escapeLetter? c with
    | some letter => "\\" ++ Bytes.ofChar letter
    | none =>
      if c.toNat < 0x20 ∨ c.toNat = 0x7f then "\\x" ++ Bytes.hexNat 2 c.toNat
      else if c.toNat < 0x10000 then "\\u" ++ Bytes.hexNat 4 c.toNat
      else "\\U" ++ Bytes.hexNat 8 c.toNat

def escapeRune (repertoire : Repertoire) (quote : Char) : Rune → Bytes
  | .scalar c => escapeChar repertoire quote c
  | .stray b => "\\x" ++ Bytes.hexNat 2 b.toNat

def quote (repertoire : Repertoire) (s : Bytes) : Bytes :=
  "\"" ++ s.runes.flatMap (escapeRune repertoire '"') ++ "\""

def quoteChar (repertoire : Repertoire) (c : Char) : Bytes :=
  "'" ++ escapeChar repertoire '\'' c ++ "'"

def fitsBackQuotes (s : Bytes) : Bool :=
  s.runes.all fun
    | .scalar c =>
      (0x20 ≤ c.toNat || c.toNat = 0x09) && c.toNat ≠ 0x60 && c.toNat ≠ 0x7f && c.toNat ≠ 0xfeff
    | .stray _ => false

end ScriptHost.Text
