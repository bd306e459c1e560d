import ScriptHost.Template.Argument
import ScriptHost.Template.Directive

set_option autoImplicit false

namespace ScriptHost.Template

def leftOver (args : List Shape) (c : Cursor) : Bytes :=
  let extra := args.drop c.next
  if c.isReordered || extra.isEmpty then []
  else "%!(EXTRA " ++ Bytes.join ", " (extra.map Shape.leftOver) ++ ")"

def fill (args : List Shape) (c : Cursor) : Bytes :=
  match start : c.rest with
  | [] => leftOver args c
  | r :: rest =>
    have _step : rest.length < c.rest.length := by simp [start]
    if r = .scalar '%' then
      let d := Directive.read args { c with rest }
      have read : d.cursor.rest.length ≤ rest.length := Directive.read_length_le args { c with rest }
      match found : d.cursor.rest with
      | [] => d.complaints ++ "%!(NOVERB)" ++ leftOver args d.cursor
      | verb :: after =>
        have _step : after.length < c.rest.length := by
          simp only [found, List.length_cons] at read
          omega
        let (s, next) := d.shown args verb.char
        d.complaints ++ s ++ fill args { d.cursor with rest := after, next }
    else r.encode ++ fill args { c with rest }
termination_by c.rest.length

def expand (template : Bytes) (args : List Shape) : Bytes :=
  if args.isEmpty then template else fill args ⟨template.runes, 0, false, false⟩

def message (classes : Classes) (objects : Pool .objects Object) (template : Bytes)
    (args : List Value) : Bytes :=
  expand template (args.map (Shape.among classes objects))

def detail (classes : Classes) (objects : Pool .objects Object) (v : Value) : Bytes :=
  (Shape.among classes objects v).render {} 'v' false true

end ScriptHost.Template
