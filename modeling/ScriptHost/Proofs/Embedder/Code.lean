import ScriptHost.Proofs.Embedder.Operation

set_option autoImplicit false

/-!
Code of an embedder: what it asks the library, step by step, and what it does with each outcome.
Every callback is such code, so a run nests as deep as callbacks ask for operations that call back.
A run keeps a journal of the callbacks that start and end and of the operations that end.
-/

namespace ScriptHost

inductive Call where
  | enterClass (k : Callback) (c : ContextId)
  | createObject (k : Callback) (c : ContextId) (ofClass : ClassId) (args : List Value)
  | destroyObject (k : Callback) (c : ContextId) (o : ObjectId)
  | callFunction (k : Callback) (c : ContextId) (args : List Value)
  | runModule (k : Callback) (c : ContextId) (table : Option TableId)
  | handleError (k : Callback) (c : ContextId) (m : Message)
  | handleException (k : Callback) (c : ContextId) (f : Failure)
  | reportError (k : Callback) (c : ContextId) (m : Message)
  | reportFatal (k : Callback) (c : ContextId) (e : Fatal)
  | autoload (k : Callback) (c : ContextId) (name : Bytes)
  | filterOutput (k : Callback) (c : ContextId) (chunk : Bytes) (mode : OutputMode)
  | settingChanged (k : Callback) (c : ContextId) (value : Option Bytes)
  | loadExtension (k : Callback) (c : ContextId)
  | shutDown (k : Callback) (c : ContextId)
  | runShell (k : Callback) (c : ContextId) (command : Bytes)
  | exit (c : ContextId) (status : Int)
  | compile (k : Callback) (c : ContextId) (source : Source)
  | dump (k : Callback) (m : ModuleId)
  | undump (k : Callback) (c : ContextId) (source : Source) (payload : Bytes)
  | fetchCached (k : Callback) (name digest : Bytes)
  | saveCached (k : Callback) (name digest payload : Bytes)

abbrev Call.Answer : Call → Type
  | enterClass .. => Option Failure
  | createObject .. => Option ObjectId
  | runModule .. => Value
  | handleError .. => Bool
  | filterOutput .. => Bytes
  | runShell .. | dump .. => Except Failure Bytes
  | compile .. | undump .. => Except Failure ModuleId
  | fetchCached .. => Except Failure (Option Bytes)
  | saveCached .. => Except Failure Unit
  | _ => Unit

def Host.ofCalls {τ : Type} (patience : Nat) (answer : (call : Call) → Run τ call.Answer) :
    Host τ where
  patience
  enterClass k c := answer (.enterClass k c)
  createObject k c ofClass args := answer (.createObject k c ofClass args)
  destroyObject k c o := answer (.destroyObject k c o)
  callFunction k c args := answer (.callFunction k c args)
  runModule k c table := answer (.runModule k c table)
  handleError k c m := answer (.handleError k c m)
  handleException k c f := answer (.handleException k c f)
  reportError k c m := answer (.reportError k c m)
  reportFatal k c e := answer (.reportFatal k c e)
  autoload k c name := answer (.autoload k c name)
  filterOutput k c chunk mode := answer (.filterOutput k c chunk mode)
  settingChanged k c value := answer (.settingChanged k c value)
  loadExtension k c := answer (.loadExtension k c)
  shutDown k c := answer (.shutDown k c)
  runShell k c command := answer (.runShell k c command)
  exit c status := answer (.exit c status)
  compile k c source := answer (.compile k c source)
  dump k m := answer (.dump k m)
  undump k c source payload := answer (.undump k c source payload)
  fetchCached k name digest := answer (.fetchCached k name digest)
  saveCached k name digest payload := answer (.saveCached k name digest payload)

inductive Event where
  | called (call : Call)
  | answered (call : Call) (outcome : Except Signal call.Answer)
  | finished (o : Operation) (outcome : Except Signal o.Result)

/-- An event, the operations in progress with the innermost first, and the world at that time. -/
structure Moment (σ : Type) where
  event : Event
  running : List Operation
  world : World σ

structure Ledger (σ : Type) where
  journal : List (Moment σ) := []
  running : List Operation := []
  own : σ

abbrev Recorded (σ : Type) := World (Ledger σ)

namespace World

variable {σ : Type}

def unrecorded (w : Recorded σ) : World σ := { w with embedder := w.embedder.own }

def recorded (w : World σ) : Recorded σ := { w with embedder := { own := w.embedder } }

def setOwn (w : Recorded σ) (own : σ) : Recorded σ :=
  { w with embedder := { w.embedder with own } }

def note (w : Recorded σ) (event : Event) : Recorded σ :=
  { w with embedder := { w.embedder with
      journal := w.embedder.journal ++ [⟨event, w.embedder.running, w.unrecorded⟩] } }

def begin (w : Recorded σ) (o : Operation) : Recorded σ :=
  { w with embedder := { w.embedder with running := o :: w.embedder.running } }

def finish (w : Recorded σ) (running : List Operation) (o : Operation)
    (outcome : Except Signal o.Result) : Recorded σ :=
  { w with embedder := { w.embedder with running } }.note (.finished o outcome)

end World

def Moment.recall {σ : Type} (m : Moment σ) (journal : List (Moment σ)) : Recorded σ :=
  { m.world with embedder := ⟨journal, m.running, m.world.embedder⟩ }

/-- Code that ends with a result of type `ρ` or with a signal. -/
inductive Code (σ ρ : Type) where
  | done (outcome : Except Signal ρ)
  | look (next : World σ → Code σ ρ)
  | setOwn (own : σ) (next : Code σ ρ)
  | ask (o : Operation) (next : Except Signal o.Result → Code σ ρ)

def Code.each {σ ρ : Type} (result : ρ) : List Operation → Code σ ρ
  | [] => done (.ok result)
  | o :: rest => ask o fun _ => each result rest

def Code.run {σ ρ : Type} (h : Host (Ledger σ)) : Code σ ρ → Run (Ledger σ) ρ
  | done outcome, w => (outcome, w)
  | look next, w => (next w.unrecorded).run h w
  | setOwn own next, w => next.run h (w.setOwn own)
  | ask o next, w =>
    match o.request h (w.begin o) with
    | (outcome, w') => (next outcome).run h (w'.finish w.embedder.running o outcome)

def Code.Asks {σ ρ : Type} (permitted : Operation → Prop) : Code σ ρ → Prop
  | done _ => True
  | look next => ∀ w, (next w).Asks permitted
  | setOwn _ next => next.Asks permitted
  | ask o next => permitted o ∧ ∀ outcome, (next outcome).Asks permitted

/-- The code of an embedder, and how many rounds its loops may take. -/
structure Script (σ : Type) where
  patience : Nat
  code : (call : Call) → Code σ call.Answer

def Call.recorded {σ : Type} (call : Call) (answer : Run (Ledger σ) call.Answer) :
    Run (Ledger σ) call.Answer := fun w =>
  match answer (w.note (.called call)) with
  | (outcome, w) => (outcome, w.note (.answered call outcome))

def Script.host {σ : Type} (s : Script σ) : Nat → Host (Ledger σ)
  | 0 => .ofCalls s.patience fun call => call.recorded Run.exhausted
  | depth + 1 => .ofCalls s.patience fun call => call.recorded ((s.code call).run (s.host depth))

def World.start {σ : Type} (files : FileTree) (own : σ) : Recorded σ where
  files
  observers := standardObservers
  embedder := { own }

def Script.journal {σ ρ : Type} (s : Script σ) (depth : Nat) (code : Code σ ρ) (files : FileTree)
    (own : σ) : List (Moment σ) :=
  (code.run (s.host depth) (.start files own)).2.embedder.journal

end ScriptHost
