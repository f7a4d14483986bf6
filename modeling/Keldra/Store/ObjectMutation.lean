import Keldra.Store.Model

/-!
# Replicated object mutations

One exact-path mutation as its coordinator evaluated it.  Replicas install the
result; they evaluate nothing again.  The registry of an object's logical aliases
is reduced to the alias paths.
-/

namespace Keldra.Store

inductive ObjectVersioning where
  | unversioned
  | enabled
deriving DecidableEq, Repr

/-- The aliases of a path and the version they resolved to before the mutation. -/
structure ObjectAliasSnapshot where
  aliases : List String
  canonicalVersion : Version
deriving DecidableEq, Repr

/-- One bounded object mutation, as metadata owners exchange it. -/
structure ObjectMutation where
  format : Nat
  tenantId : Nat
  bucketId : Nat
  versioning : ObjectVersioning
  exactPath : String
  commandId : String
  inputFingerprint : Digest
  version : Version
  receiptExpiresAtUnixMillis : Nat
  stamp : MutationStamp
  referenceDeltas : List ReferenceDelta
  accountingTransition : Option AccountingHeadTransition
  definitionTransition : Option DefinitionTransition
  aliasSnapshot : Option ObjectAliasSnapshot
deriving DecidableEq, Repr

namespace ObjectMutation

end ObjectMutation

end Keldra.Store
