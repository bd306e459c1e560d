import ScriptHost.Inspect.Values
import ScriptHost.Unwinding

set_option autoImplicit false

namespace ScriptHost

open Description

instance {ε : Type} [AsFailure ε] : Describe ε := ⟨fun e => describe (asFailure e)⟩

instance {ε α : Type} [AsFailure ε] [Describe α] : Describe (Except ε α) where
  describe
    | .ok a => describe a
    | .error e => describe e

instance : Describe Constant where
  describe k := ofFields
    [field "name" k.name, field "value" k.value, field "sensitive" k.isCaseSensitive,
      field "at" k.trace]

instance : Describe Module where
  describe m := ofFields
    [field "name" m.name, field "internal" m.internalName, field "classes" m.classes,
      field "functions" m.functions, field "constants" m.constants]

instance : Describe Buffer where
  describe b := ofFields
    [field "level" b.level, field "root" (b.level == 0), field "closed" b.isClosed,
      field "len" b.held.length, field "contents" b.held, field "chunk" b.chunkSize,
      field "erase" b.isErasable]

instance : Describe Envelope where
  describe e := ofFields
    [field "version" e.version, field "name" e.name,
      field "source_digest" (Description.hex (e.sourceDigest.getD [])),
      field "payload_digest" (Description.hex e.payloadDigest.toList),
      field "stored_at" e.storedAt, field "payload" (Description.hex e.payload),
      field "verify" e.verify]

instance : Describe StoreEntry where
  describe e := .list [.text e.name, .hex e.sourceDigest, describe e.size, describe e.storedAt]

instance : Describe Manifest where
  describe m := ofFields
    [field "name" m.name, field "version" m.version, field "dir" m.directory, field "mask" m.mask,
      field "error_reporting" m.errorReporting, field "include_paths" m.searchPath,
      field "defaults" m.defaults, field "keys" m.keys, field "cache_path" m.cachePath,
      field "cache_enabled" m.isCacheEnabled]

end ScriptHost
