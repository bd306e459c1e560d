import ScriptHost.Template.Integer
import ScriptHost.Template.Real
import ScriptHost.Template.Text

set_option autoImplicit false

namespace ScriptHost.Template

inductive Shape where
  | null (type : Bytes)
  | bool (b : Bool)
  | int (type : Bytes) (isSigned : Bool) (n : Int)
  | real (type : Bytes) (format : BinaryFormat) (bits : Nat)
  | text (type : Bytes) (s : Bytes)
  | bytes (s : Bytes)
  | list (type : Bytes) (items : Option (List Shape))
  | map (type : Bytes) (entries : List (Bytes × Shape))
  | record (type : Bytes) (fields : List (Bytes × Shape))
  | reference (type : Bytes) (target : Option Shape)
  | spoken (s : Bytes) (shape : Shape)

namespace Shape

instance : Inhabited Shape := ⟨.null []⟩

def typeName : Shape → Bytes
  | .null _ => "<nil>"
  | .bool _ => "bool"
  | .int type _ _ => type
  | .real type _ _ => type
  | .text type _ => type
  | .bytes _ => "[]uint8"
  | .list type _ => type
  | .map type _ => type
  | .record type _ => type
  | .reference type _ => type
  | .spoken _ shape => shape.typeName

def count? : Shape → Option Int
  | .int _ _ n => if n.natAbs ≤ 1000000 then some n else none
  | _ => none

def isSimple : Shape → Bool
  | .bool _ | .int _ _ _ | .real _ _ _ | .bytes _ => true
  | .text type _ => type = Bytes.ofString "string"
  | _ => false

def address : Nat := 0xc000000000

def showsText (verb : Char) : Bool :=
  verb = 'v' || verb = 's' || verb = 'x' || verb = 'X' || verb = 'q'

def orMisfit (verb : Char) (type : Bytes) (render : Char → Option Bytes) : Bytes :=
  match render verb with
  | some s => s
  | none => misfit verb type ((render 'v').getD [])

def octet (l : Layout) (verb : Char) (b : UInt8) : Bytes :=
  orMisfit verb "uint8" fun verb => integer? l verb false b.toNat

def octets (l : Layout) (type : Bytes) (verb : Char) (s : Bytes) : Bytes :=
  if showsText verb ∧ verb ≠ 'v' then (l.text? verb s).getD []
  else if l.source then type ++ "\x7b" ++ Bytes.join ", " (s.map (octet l verb)) ++ "\x7d"
  else "[" ++ Bytes.join " " (s.map (octet l verb)) ++ "]"

def pointer? (l : Layout) (type : Bytes) (address : Nat) (verb : Char) : Option Bytes :=
  let hex (marked : Bool) : Bytes := { l with sharp := marked }.integer (.hexadecimal false) address
  match verb with
  | 'v' =>
    if l.source then
      some ("(" ++ type ++ ")(" ++ (if address = 0 then Bytes.ofString "nil" else hex true) ++ ")")
    else if address = 0 then some (l.pad "<nil>")
    else some (hex !l.sharp)
  | 'p' => some (hex !l.sharp)
  | 'b' | 'o' | 'd' | 'x' | 'X' => integer? l verb false address
  | _ => none

def named (l : Layout) (name s : Bytes) : Bytes :=
  if l.named || l.source then name ++ ":" ++ s else s

def enclose (l : Layout) (type opening closing : Bytes) (parts : List Bytes) : Bytes :=
  if l.source then type ++ "\x7b" ++ Bytes.join ", " parts ++ "\x7d"
  else opening ++ Bytes.join " " parts ++ closing

mutual

def render (l : Layout) (verb : Char) (quiet top : Bool) : Shape → Bytes
  | .null type => if l.source then type ++ "(nil)" else "<nil>"
  | .bool b =>
    orMisfit verb "bool" fun verb =>
      if verb = 't' ∨ verb = 'v' then some (l.pad (if b then "true" else "false" : String)) else none
  | .int type isSigned n => orMisfit verb type fun verb => integer? l verb isSigned n
  | .real type format bits => orMisfit verb type fun verb => l.real? verb format bits
  | .text type s => orMisfit verb type fun verb => l.text? verb s
  | .bytes s => octets l (if top ∧ verb = 'v' then "[]byte" else "[]uint8") verb s
  | .list type none => if l.source then type ++ "(nil)" else "[]"
  | .list type (some items) => enclose l type "[" "]" (renderList l verb quiet items)
  | .map type entries => enclose l type "map[" "]" (renderEntries l verb quiet entries)
  | .record type fields => enclose l type "\x7b" "\x7d" (renderFields l verb quiet fields)
  | .reference type none => orMisfit verb type (pointer? l type 0)
  | .reference type (some target) =>
    if top then "&" ++ render l verb quiet false target
    else match pointer? l type address verb with
      | some s => s
      | none => misfit verb type ("&" ++ render l 'v' true false target)
  | .spoken s shape =>
    if !quiet && !l.source && showsText verb then (l.text? verb s).getD []
    else render l verb quiet top shape

def renderList (l : Layout) (verb : Char) (quiet : Bool) : List Shape → List Bytes
  | [] => []
  | v :: rest => render l verb quiet false v :: renderList l verb quiet rest

def renderEntries (l : Layout) (verb : Char) (quiet : Bool) : List (Bytes × Shape) → List Bytes
  | [] => []
  | (key, v) :: rest =>
    (orMisfit verb "string" (fun verb => l.text? verb key) ++ ":" ++ render l verb quiet false v)
      :: renderEntries l verb quiet rest

def renderFields (l : Layout) (verb : Char) (quiet : Bool) : List (Bytes × Shape) → List Bytes
  | [] => []
  | (name, v) :: rest =>
    named l name (render l verb quiet false v) :: renderFields l verb quiet rest

end

def pointed (l : Layout) (shape : Shape) : Bytes :=
  let place : Option Nat := match shape with
    | .bytes _ | .list _ _ | .map _ _ => some address
    | .reference _ target | .spoken _ (.reference _ target) =>
      some (if target.isSome then address else 0)
    | _ => none
  match place with
  | some place => (pointer? l shape.typeName place 'p').getD []
  | none => misfit 'p' shape.typeName (render l 'v' true true shape)

def argument (l : Layout) (verb : Char) (shape : Shape) : Bytes :=
  let l := if verb = 'v' ∨ verb = 'w' then l.general else l
  match shape with
  | .null _ =>
    if verb = 'T' ∨ verb = 'v' then l.pad "<nil>" else "%!" ++ Bytes.ofChar verb ++ "(<nil>)"
  | shape =>
    if verb = 'T' then l.pad (l.truncate shape.typeName)
    else if verb = 'p' then pointed l shape
    else if verb = 'w' ∧ !shape.isSimple then
      misfit verb shape.typeName (render l 'v' true true shape)
    else render l verb false true shape

def leftOver : Shape → Bytes
  | .null _ => "<nil>"
  | shape => shape.typeName ++ "=" ++ render {} 'v' false true shape

end Shape

end ScriptHost.Template
