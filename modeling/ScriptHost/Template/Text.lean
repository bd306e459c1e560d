import ScriptHost.Template.Layout
import ScriptHost.Text.Quoted

set_option autoImplicit false

namespace ScriptHost.Template.Layout

def truncate (l : Layout) (s : Bytes) : Bytes :=
  match l.precision with
  | some n => (s.runes.take n).flatMap Rune.encode
  | none => s

def quoted (l : Layout) (s : Bytes) : Bytes :=
  let s := l.truncate s
  if l.sharp && Text.fitsBackQuotes s then l.pad ("`" ++ s ++ "`")
  else l.pad (Text.quote (if l.plus then .ascii else .printable) s)

def hexText (l : Layout) (upper : Bool) (s : Bytes) : Bytes :=
  let s := match l.precision with
    | some n => s.take n
    | none => s
  let digits (b : UInt8) : Bytes :=
    if upper then Bytes.asciiUpper (Bytes.hex [b]) else Bytes.hex [b]
  let mark : Bytes := if !l.sharp then [] else if upper then "0X" else "0x"
  if s.isEmpty then l.pad []
  else if l.space then l.pad (Bytes.join " " (s.map fun b => mark ++ digits b))
  else l.pad (mark ++ s.flatMap digits)

def text? (l : Layout) (verb : Char) (s : Bytes) : Option Bytes :=
  match verb with
  | 'v' => some (if l.source then l.quoted s else l.pad (l.truncate s))
  | 's' => some (l.pad (l.truncate s))
  | 'q' => some (l.quoted s)
  | 'x' => some (l.hexText false s)
  | 'X' => some (l.hexText true s)
  | _ => none

end ScriptHost.Template.Layout
