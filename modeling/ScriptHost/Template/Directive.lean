import ScriptHost.Template.Shape

set_option autoImplicit false

namespace ScriptHost.Template

structure Cursor where
  rest : List Rune
  next : Nat
  isMisplaced : Bool
  isReordered : Bool

def digit? (r : Rune) : Option Nat :=
  let c := r.char
  if '0' ≤ c ∧ c ≤ '9' then some (c.toNat - '0'.toNat) else none

def largest : Nat := 1000000

def number : Option Nat → List Rune → Option Nat × List Rune
  | n, [] => (n, [])
  | n, r :: rest =>
    match digit? r with
    | none => (n, r :: rest)
    | some d =>
      if n.getD 0 > largest then (none, []) else number (some (10 * n.getD 0 + d)) rest

theorem number_length_le (n : Option Nat) (s : List Rune) :
    (number n s).2.length ≤ s.length := by
  fun_induction number n s <;> grind

def setFlag? (l : Layout) (r : Rune) : Option Layout :=
  match r.char with
  | '-' => some { l with minus := true }
  | '+' => some { l with plus := true }
  | '#' => some { l with sharp := true }
  | ' ' => some { l with space := true }
  | '0' => some { l with zero := true }
  | _ => none

def flags (l : Layout) : List Rune → Layout × List Rune
  | [] => (l, [])
  | r :: rest =>
    match setFlag? l r with
    | some l => flags l rest
    | none => (l, r :: rest)

theorem flags_length_le (l : Layout) (s : List Rune) : (flags l s).2.length ≤ s.length := by
  fun_induction flags l s <;> grind

def untilBracket : List Rune → Option (List Rune × List Rune)
  | [] => none
  | r :: rest =>
    if r = .scalar ']' then some ([], rest)
    else match untilBracket rest with
      | some (inner, after) => some (r :: inner, after)
      | none => none

theorem untilBracket_length_lt (s inner after : List Rune)
    (h : untilBracket s = some (inner, after)) : after.length < s.length := by
  fun_induction untilBracket s generalizing inner <;> grind

namespace Cursor

def index (count : Nat) (c : Cursor) : Bool × Cursor :=
  match c.rest with
  | .scalar '[' :: rest =>
    let skipped := { c with rest, isMisplaced := true, isReordered := true }
    match if rest.length < 2 then none else untilBracket rest with
    | none => (false, skipped)
    | some (inner, after) =>
      match number none inner with
      | (some n, []) =>
        if 1 ≤ n ∧ n ≤ count then
          (true, { c with rest := after, next := n - 1, isReordered := true })
        else (true, { skipped with rest := after })
      | _ => (false, { skipped with rest := after })
  | _ => (false, c)

theorem index_length_le (count : Nat) (c : Cursor) :
    (c.index count).2.rest.length ≤ c.rest.length := by
  unfold index
  split
  · next rest h =>
    split
    · simp [h]
    · next inner after found =>
      have shorter := untilBracket_length_lt rest inner after (by grind)
      split
      · split <;> simp only [h, List.length_cons] <;> omega
      · simp only [h, List.length_cons]
        omega
  · simp

def countArgument (args : List Shape) (c : Cursor) : Option Int × Cursor :=
  match args[c.next]? with
  | none => (none, c)
  | some shape => (shape.count?, { c with next := c.next + 1 })

theorem countArgument_rest (args : List Shape) (c : Cursor) :
    (c.countArgument args).2.rest = c.rest := by
  unfold countArgument
  split <;> rfl

end Cursor

structure Directive where
  layout : Layout
  cursor : Cursor
  isIndexed : Bool
  complaints : Bytes

namespace Directive

def index (count : Nat) (d : Directive) : Directive :=
  let (isIndexed, cursor) := d.cursor.index count
  { d with cursor, isIndexed }

def widen (l : Layout) (n : Int) : Layout :=
  if n < 0 then { l with width := some n.natAbs, minus := true, zero := false }
  else { l with width := some n.natAbs }

def width (args : List Shape) (d : Directive) : Directive :=
  match d.cursor.rest with
  | .scalar '*' :: rest =>
    let taken := { d.cursor with rest }.countArgument args
    { d with
      cursor := taken.2
      isIndexed := false
      layout := taken.1.elim d.layout (widen d.layout)
      complaints := if taken.1.isSome then d.complaints else d.complaints ++ "%!(BADWIDTH)" }
  | rest =>
    let read := number none rest
    { d with
      layout := { d.layout with width := read.1 }
      cursor := { d.cursor with
        rest := read.2
        isMisplaced := d.cursor.isMisplaced || d.isIndexed && read.1.isSome } }

def precisionBehindPoint (args : List Shape) (d : Directive) : Directive :=
  match d.cursor.rest with
  | .scalar '*' :: rest =>
    let taken := { d.cursor with rest }.countArgument args
    let n := (taken.1.filter (0 ≤ ·)).map Int.toNat
    { d with
      cursor := taken.2
      isIndexed := false
      layout := { d.layout with precision := n }
      complaints := if n.isSome then d.complaints else d.complaints ++ "%!(BADPREC)" }
  | rest =>
    let read := number none rest
    { d with
      layout := { d.layout with precision := some (read.1.getD 0) }
      cursor := { d.cursor with rest := read.2 } }

def precision (args : List Shape) (d : Directive) : Directive :=
  match d.cursor.rest with
  | .scalar '.' :: r :: rest =>
    let cursor := { d.cursor with
      rest := r :: rest, isMisplaced := d.cursor.isMisplaced || d.isIndexed }
    ({ d with cursor }.index args.length).precisionBehindPoint args
  | _ => d

def read (args : List Shape) (c : Cursor) : Directive :=
  let (layout, rest) := flags {} c.rest
  let start : Directive := ⟨layout, { c with rest, isMisplaced := false }, false, []⟩
  let d := ((start.index args.length).width args).precision args
  if d.isIndexed then d else d.index args.length

theorem index_length_le (count : Nat) (d : Directive) :
    (d.index count).cursor.rest.length ≤ d.cursor.rest.length :=
  d.cursor.index_length_le count

theorem width_length_le (args : List Shape) (d : Directive) :
    (d.width args).cursor.rest.length ≤ d.cursor.rest.length := by
  unfold width
  split
  · next rest h => simp [h, Cursor.countArgument_rest]
  · exact number_length_le none _

theorem precisionBehindPoint_length_le (args : List Shape) (d : Directive) :
    (d.precisionBehindPoint args).cursor.rest.length ≤ d.cursor.rest.length := by
  unfold precisionBehindPoint
  split
  · next rest h => simp [h, Cursor.countArgument_rest]
  · exact number_length_le none _

theorem precision_length_le (args : List Shape) (d : Directive) :
    (d.precision args).cursor.rest.length ≤ d.cursor.rest.length := by
  unfold precision
  split
  · next r rest h =>
    refine Nat.le_trans (precisionBehindPoint_length_le args _) ?_
    refine Nat.le_trans (index_length_le _ _) ?_
    simp [h]
  · exact Nat.le_refl _

theorem read_length_le (args : List Shape) (c : Cursor) :
    (read args c).cursor.rest.length ≤ c.rest.length := by
  have h := flags_length_le {} c.rest
  unfold read
  simp only []
  split
  · exact Nat.le_trans (precision_length_le args _)
      (Nat.le_trans (width_length_le args _) (Nat.le_trans (index_length_le _ _) h))
  · exact Nat.le_trans (index_length_le _ _) (Nat.le_trans (precision_length_le args _)
      (Nat.le_trans (width_length_le args _) (Nat.le_trans (index_length_le _ _) h)))

def shown (args : List Shape) (verb : Char) (d : Directive) : Bytes × Nat :=
  let next := d.cursor.next
  let complaint (s : Bytes) : Bytes := "%!" ++ Bytes.ofChar verb ++ "(" ++ s ++ ")"
  if verb = '%' then ("%", next)
  else if d.cursor.isMisplaced then (complaint "BADINDEX", next)
  else match args[next]? with
    | none => (complaint "MISSING", next)
    | some shape => (shape.argument d.layout verb, next + 1)

end Directive

end ScriptHost.Template
