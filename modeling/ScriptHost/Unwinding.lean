import ScriptHost.CommandLine

set_option autoImplicit false

namespace ScriptHost

class AsFailure (ε : Type) where
  asFailure : ε → Failure

export AsFailure (asFailure)

instance : AsFailure OutputError where
  asFailure
    | .notErasable => .refused .notErasable (OutputError.message .notErasable)
    | e => .plain e.message

instance : AsFailure AlreadyDeclared where
  asFailure e := .refused .alreadyRegistered e.message

instance : AsFailure ImportError where
  asFailure
    | .noCompiler => .refused .noCompiler (ImportError.message .noCompiler)
    | .compile f => f
    | .undump name f => .within ("undump " ++ name) (some f)

instance : AsFailure DefineError where
  asFailure e := .refused .moduleNotFound e.message

instance : AsFailure Corruption where
  asFailure e := .refused .corruptEntry e.message

instance : AsFailure StoreError where
  asFailure
    | .notFound => .refused .notCached (StoreError.message .notFound)
    | .corrupt c => asFailure c
    | e => .plain e.message

instance : AsFailure OpenError where
  asFailure e := .plain e.message

instance : AsFailure ManifestError where
  asFailure e := .plain e.message

instance : AsFailure CommandError where
  asFailure
    | .store e => asFailure e
    | e => .plain e.message

def Run.orFail {σ ε α : Type} [AsFailure ε] : Except ε α → Run σ α
  | .ok a => return a
  | .error e => fail (asFailure e)

end ScriptHost
