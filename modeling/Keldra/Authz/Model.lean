import Mathlib.Data.Prod.Lex
import Mathlib.Data.String.Basic
import Mathlib.Data.Sum.Order
import Keldra.Foundation.Checks
import Keldra.Foundation.Machine
import Keldra.Foundation.Text

/-!
# Authorization data model

Objects, usersets, grant tuples and schemas of one authorization realm, with
the validators of their texts.  A field called `namespace` in the code is `ns`
here.

The ordered types carry the derived order of the code: the variants of an
enumeration in the order of their declaration, then the fields from left to
right.  Texts are ordered by code point, which is the byte order of their UTF-8
encodings.
-/

namespace Keldra.Authz

open Foundation

def defaultRealmId : String := "default"
def systemRealmId : String := "_keldra/system"
def publicSubjectNamespace : String := "app"
def publicSubjectId : String := "_keldra/public"
def maxRealmIdBytes : Nat := 256
def maxNamespaceBytes : Nat := 256
def maxRelationBytes : Nat := 256
def maxOpaqueIdBytes : Nat := 4096
def maxPathBytes : Nat := 4096

/-- Why a schema, a tuple or a check is refused. -/
inductive AuthorizationError where
  | invalidRealm (reason : String)
  | invalidLimits (reason : String)
  | invalidSchema (reason : String)
  | invalidTuple (index : Nat) (reason : String)
  | invalidCheck (reason : String)
  | evaluationLimit (limit : String) (maximum : Nat)
deriving DecidableEq, Repr

/-- The text shown to a caller. -/
def AuthorizationError.toText : AuthorizationError → String
  | .invalidRealm reason => s!"invalid authorization realm: {reason}"
  | .invalidLimits reason => s!"invalid authorization limits: {reason}"
  | .invalidSchema reason => s!"invalid authorization schema: {reason}"
  | .invalidTuple index reason => s!"invalid authorization tuple {index}: {reason}"
  | .invalidCheck reason => s!"invalid authorization check: {reason}"
  | .evaluationLimit limit maximum => s!"authorization evaluation exceeded {limit} limit {maximum}"

/-- The result type of the crate's public functions. -/
abbrev Result := Except AuthorizationError

/-- Identifiers are non-empty, bounded and free of control characters. -/
def validateBounded (value label : String) (maximum : Nat) : Except String Unit := do
  rejectIf (value = "") s!"{label} must not be empty"
  rejectIf (value.utf8ByteSize > maximum) s!"{label} exceeds {maximum} bytes"
  rejectIf (value.toList.any isControl = true) s!"{label} must not contain control characters"

/-- A bounded text that is neither a dot segment nor contains a separator. -/
def validateComponent (label : String) (maximum : Nat) (separators : List Char)
    (reason value : String) : Except String Unit := do
  validateBounded value label maximum
  rejectIf (value = "." ∨ value = ".." ∨ value.toList.any (fun c => separators.contains c) = true)
    reason

def validateNamespace : String → Except String Unit :=
  validateComponent "namespace" maxNamespaceBytes ['/', ':', '#']
    "namespace must be one safe component"

def validateRelation : String → Except String Unit :=
  validateComponent "relation" maxRelationBytes ['/', '#'] "relation must be one safe component"

/-- The system realm is the one id that may contain a separator. -/
def validateRealmId (value : String) : Except String Unit :=
  if value = systemRealmId then
    .ok ()
  else
    validateComponent "realm id" maxRealmIdBytes ['/', ':', '#']
      "realm id must be one canonical non-reserved component" value

def validateOpaqueId (value : String) : Except String Unit :=
  validateBounded value "object id" maxOpaqueIdBytes

/-- The boundary of one authorization graph. -/
structure RealmId where
  value : String
  valid : validateRealmId value = .ok ()

namespace RealmId

def defaultRealm : RealmId := ⟨defaultRealmId, by decide +kernel⟩

def system : RealmId := ⟨systemRealmId, by decide +kernel⟩

end RealmId

/-- The bounds of a schema, of its tuples and of one search. -/
structure AuthorizationLimits where
  maxNamespaces : Nat := 256
  maxRelationsPerNamespace : Nat := 256
  maxItemsPerRelation : Nat := 256
  maxTuples : Nat := 65536
  maxDepth : Nat := 32
  maxSteps : Nat := 16384
deriving DecidableEq, Repr

/-- Every bound is at least one. -/
def AuthorizationLimits.validate (limits : AuthorizationLimits) : Result Unit :=
  [("max_namespaces", limits.maxNamespaces),
    ("max_relations_per_namespace", limits.maxRelationsPerNamespace),
    ("max_items_per_relation", limits.maxItemsPerRelation),
    ("max_tuples", limits.maxTuples),
    ("max_depth", limits.maxDepth),
    ("max_steps", limits.maxSteps)].forM
    (fun limit => rejectIf (limit.2 = 0) (.invalidLimits s!"{limit.1} must be nonzero"))

/-- An exact object path; no ancestor grant is implied. -/
structure ExactPath where
  tenant : String
  bucket : String
  path : String
deriving DecidableEq, Repr

def ExactPath.toKey (path : ExactPath) : String ×ₗ String ×ₗ String :=
  toLex (path.tenant, toLex (path.bucket, path.path))

instance : LinearOrder ExactPath := LinearOrder.lift' ExactPath.toKey (by
    rintro ⟨t, b, p⟩ ⟨t', b', p'⟩ h
    simpa [ExactPath.toKey] using h)

/-- The id of an object: opaque, or the exact path of a stored one. -/
inductive ObjectId where
  | opaqueId (id : String)
  | exactPath (path : ExactPath)
deriving DecidableEq, Repr

def ObjectId.toKey : ObjectId → String ⊕ₗ ExactPath
  | .opaqueId id => Sum.inlₗ id
  | .exactPath path => Sum.inrₗ path

instance : LinearOrder ObjectId := LinearOrder.lift' ObjectId.toKey (by
    rintro (i | p) (i' | p') h <;> simp_all [ObjectId.toKey])

/-- An object of a namespace. -/
structure ObjectRef where
  ns : String
  id : ObjectId
deriving DecidableEq, Repr

def ObjectRef.toKey (object : ObjectRef) : String ×ₗ ObjectId :=
  toLex (object.ns, object.id)

instance : LinearOrder ObjectRef := LinearOrder.lift' ObjectRef.toKey (by
    rintro ⟨n, i⟩ ⟨n', i'⟩ h
    simpa [ObjectRef.toKey] using h)

/-- Keldra's reserved public principal. -/
def ObjectRef.isPublic (object : ObjectRef) : Bool :=
  decide (object = ⟨publicSubjectNamespace, .opaqueId publicSubjectId⟩)

/-- The subjects that hold one relation on one object. -/
structure UsersetRef where
  object : ObjectRef
  relation : String
deriving DecidableEq, Repr

def UsersetRef.toKey (userset : UsersetRef) : ObjectRef ×ₗ String :=
  toLex (userset.object, userset.relation)

instance : LinearOrder UsersetRef := LinearOrder.lift' UsersetRef.toKey (by
    rintro ⟨o, r⟩ ⟨o', r'⟩ h
    simpa [UsersetRef.toKey] using h)

/-- The subject of a tuple: an object or all members of a userset. -/
inductive TupleSubject where
  | object (object : ObjectRef)
  | userset (userset : UsersetRef)
deriving DecidableEq, Repr

def TupleSubject.toKey : TupleSubject → ObjectRef ⊕ₗ UsersetRef
  | .object o => Sum.inlₗ o
  | .userset u => Sum.inrₗ u

instance : LinearOrder TupleSubject := LinearOrder.lift' TupleSubject.toKey (by
    rintro (o | u) (o' | u') h <;> simp_all [TupleSubject.toKey])

/-- One active grant. -/
structure Tuple where
  object : ObjectRef
  relation : String
  subject : TupleSubject
deriving DecidableEq, Repr

/-- Tenant, bucket and path are bounded, and the path is canonical and relative. -/
def validateExactPath (value : ExactPath) : Except String Unit := do
  validateBounded value.tenant "tenant" maxNamespaceBytes
  validateBounded value.bucket "bucket" maxNamespaceBytes
  rejectIf ('/' ∈ value.tenant.toList ∨ '/' ∈ value.bucket.toList)
    "tenant and bucket must not contain `/`"
  validateBounded value.path "path" maxPathBytes
  rejectIf (value.path.toList.head? = some '/' ∨ value.path.toList.getLast? = some '/' ∨
    ∃ segment ∈ value.path.toList.splitOn '/',
      segment = [] ∨ segment = ['.'] ∨ segment = ['.', '.'])
    "path must contain canonical non-empty relative segments"

def validateObject (object : ObjectRef) : Except String Unit := do
  validateNamespace object.ns
  match object.id with
  | .opaqueId id => validateOpaqueId id
  | .exactPath path => validateExactPath path

/-- A userset names a valid object and relation. -/
def validateUserset (userset : UsersetRef) : Except String Unit := do
  validateObject userset.object
  validateRelation userset.relation

def validateTupleSubject : TupleSubject → Except String Unit
  | .object object => validateObject object
  | .userset userset => validateUserset userset

/-- A selector of the subjects a writable relation accepts. -/
inductive AllowedSubject where
  | anyObject (ns : String)
  | anyUserset (ns relation : String)
  | exact (subject : TupleSubject)
  | sameResourceId (ns : String)
  | publicSubject
deriving DecidableEq, Repr

def AllowedSubject.toKey :
    AllowedSubject → String ⊕ₗ (String ×ₗ String) ⊕ₗ TupleSubject ⊕ₗ String ⊕ₗ Unit
  | .anyObject ns => Sum.inlₗ ns
  | .anyUserset ns relation => Sum.inrₗ (Sum.inlₗ (toLex (ns, relation)))
  | .exact subject => Sum.inrₗ (Sum.inrₗ (Sum.inlₗ subject))
  | .sameResourceId ns => Sum.inrₗ (Sum.inrₗ (Sum.inrₗ (Sum.inlₗ ns)))
  | .publicSubject => Sum.inrₗ (Sum.inrₗ (Sum.inrₗ (Sum.inrₗ ())))

instance : LinearOrder AllowedSubject := LinearOrder.lift' AllowedSubject.toKey (by
    rintro (a | ⟨a, r⟩ | a | a | _) (b | ⟨b, r'⟩ | b | b | _) h <;>
      simp_all [AllowedSubject.toKey])

/-- One alternative of a permission. -/
inductive RewriteRule where
  /-- Union in another relation of the same object. -/
  | inherit (relation : String)
  /-- Follow the objects named by a direct relation, then their relation. -/
  | tupleToUserset (tupleRelation targetRelation : String)
deriving DecidableEq, Repr

def RewriteRule.toKey : RewriteRule → String ⊕ₗ (String ×ₗ String)
  | .inherit relation => Sum.inlₗ relation
  | .tupleToUserset tupleRelation targetRelation => Sum.inrₗ (toLex (tupleRelation, targetRelation))

instance : LinearOrder RewriteRule := LinearOrder.lift' RewriteRule.toKey (by
    rintro (r | ⟨t, r⟩) (r' | ⟨t', r'⟩) h <;>
      simp_all [RewriteRule.toKey])

/-- A relation is granted by tuples or computed by rules. -/
inductive RelationKind where
  | direct (allowedSubjects : List AllowedSubject)
  | permission (rules : List RewriteRule)
deriving DecidableEq, Repr

/-- A relation with its kind. -/
structure RelationDefinition where
  name : String
  kind : RelationKind
deriving DecidableEq, Repr

/-- A namespace with its relations. -/
structure NamespaceDefinition where
  name : String
  relations : List RelationDefinition
deriving DecidableEq, Repr

/-- The namespaces of a realm. -/
structure Schema where
  namespaces : List NamespaceDefinition
deriving DecidableEq, Repr

/-- The question of a check: has the subject the relation to the object? -/
structure AuthorizationCheck where
  subject : ObjectRef
  object : ObjectRef
  relation : String
deriving DecidableEq, Repr

end Keldra.Authz
