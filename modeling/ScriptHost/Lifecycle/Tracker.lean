import ScriptHost.Identity

set_option autoImplicit false

namespace ScriptHost

structure Tracker where
  entries : List (Nat × ObjectId)
  index : List (ObjectId × Nat)
  order : List Nat
  next : Nat
  queue : List Nat
deriving DecidableEq, Repr

namespace Tracker

def empty : Tracker := ⟨[], [], [], 1, []⟩

instance : Inhabited Tracker := ⟨empty⟩

def object? (t : Tracker) (handle : Nat) : Option ObjectId :=
  (t.entries.find? (·.1 = handle)).map (·.2)

def handle? (t : Tracker) (object : ObjectId) : Option Nat :=
  (t.index.find? (·.1 = object)).map (·.2)

def handles (t : Tracker) : List Nat := t.entries.map (·.1)

def objects (t : Tracker) : List ObjectId := t.entries.map (·.2)

def reclaim (t : Tracker) (handle : Nat) : Tracker :=
  { t with queue := t.queue ++ [handle] }

def drop (t : Tracker) (handle : Nat) : Tracker :=
  match t.object? handle with
  | none => t
  | some object =>
    { t with
      entries := t.entries.filter (·.1 ≠ handle)
      index := t.index.filter (·.1 ≠ object) }

def drain (t : Tracker) : Tracker :=
  if t.queue.isEmpty then t
  else
    let t := t.queue.foldl drop { t with queue := [] }
    { t with order := t.order.filter fun handle => (t.object? handle).isSome }

def enter (t : Tracker) (object : ObjectId) : Tracker :=
  { t with
    entries := t.entries.filter (·.1 ≠ t.next) ++ [(t.next, object)]
    index := t.index.filter (·.1 ≠ object) ++ [(object, t.next)]
    order := t.order ++ [t.next]
    next := t.next + 1 }

def add (t : Tracker) (object : ObjectId) : Nat × Tracker :=
  let t := t.drain
  match t.handle? object with
  | some handle => (handle, t)
  | none => (t.next, t.enter object)

end Tracker

end ScriptHost
