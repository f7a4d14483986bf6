import Keldra.AtomicProgram.Definition

/-!
# Program execution

The engine expands the bound paths of an invocation, reads one snapshot of
them, evaluates the assertions and operations over working copies, and returns
one bundle of observed heads and writes.

Encoded sizes and debug renderings come from the host; the engine only compares
the former with its limits and prints the latter in its errors.  An index into
the working documents that the code takes without a check is an error here.
-/

namespace Keldra.AtomicProgram

open Foundation

/-- The tenant that an invocation runs for. -/
structure InvocationContext where
  tenant : String
deriving DecidableEq, Repr

/-- What a binding demands of the head of its path. -/
inductive ExpectedHead where
  | any
  | absent
  | version (version : String)
deriving DecidableEq, Repr

/-- A path bound to a slot, with the values of its template. -/
structure PathBinding where
  path : ObjectPath
  templateValues : OrdMap String String
  expectedHead : ExpectedHead
  initialJson : Option Json

/-- One call of a program with its arguments, inputs and bindings. -/
structure ProgramInvocation where
  programPathHash : BitVec 256
  commandId : String
  inputFingerprint : String
  arguments : OrdMap String String
  inputs : OrdMap String Json
  blobs : OrdMap String (List UInt8)
  bindings : OrdMap String (List PathBinding)

/-- The content of a document. -/
inductive StoredValue where
  | json (value : Json)
  | opaqueBytes (value : List UInt8)
deriving Repr

/-- A stored head; no value is a versioned tombstone. -/
structure VersionedDocument where
  version : String
  value : Option StoredValue
  contentType : Option String
deriving Repr

/-- Missing paths are absent. -/
structure ProgramSnapshot where
  documents : OrdMap ObjectPath VersionedDocument

/-- The head that the snapshot had for a path. -/
inductive ObservedHead where
  | neverExisted
  | version (version : String)
deriving DecidableEq, Repr

/-- No value is a tombstone. -/
structure VersionedWrite where
  value : Option StoredValue
  contentType : Option String
deriving Repr

/-- A path of the write bundle, with what it observed and what it writes. -/
structure AtomicParticipant where
  path : ObjectPath
  expected : ObservedHead
  write : Option VersionedWrite
deriving Repr

/-- What a repetition of the invocation is answered with. -/
structure CommandReceipt where
  programPathHash : BitVec 256
  commandId : String
  inputFingerprint : String
  outputs : OrdMap String Json

/-- The result of a preparation: all participants, written or only observed. -/
structure AtomicWriteBundle where
  participants : List AtomicParticipant
  receipt : CommandReceipt

def AtomicWriteBundle.writes
    (bundle : AtomicWriteBundle) : List (AtomicParticipant × VersionedWrite) :=
  bundle.participants.filterMap (fun participant =>
    participant.write.map (fun write => (participant, write)))

/-- A path that a program will touch, with its intent. -/
structure ExpandedProgramPath where
  path : ObjectPath
  intent : ProgramPathIntent
deriving DecidableEq, Repr

/-- What the engine measures and prints but does not compute, and its JSON library. -/
structure Host where
  json : JsonLibrary
  invocationBytes : ProgramInvocation → Except String Nat
  jsonBytes : Json → Except String Nat
  debugPath : ObjectPath → String
  debugReference : DocumentRef → String

/-- An engine holds a definition that passed validation. -/
structure AtomicProgramEngine where
  definition : ProgramDefinition
  valid : definition.validate = .ok ()
  reader : List ObjectPath → Except String ProgramSnapshot
  host : Host

/-- An engine is made only of a definition that validates. -/
def AtomicProgramEngine.new
    (definition : ProgramDefinition) (reader : List ObjectPath → Except String ProgramSnapshot)
    (host : Host) : Except EngineError AtomicProgramEngine :=
  match h : definition.validate with
  | .ok () => .ok ⟨definition, h, reader, host⟩
  | .error error => .error error

/-- A declared document with the path bound to it. -/
structure ResolvedDocument where
  reference : DocumentRef
  path : ObjectPath
  expectedHead : ExpectedHead
  initialJson : Option Json

/-- The documents of an invocation with the paths bound to them. -/
structure ResolvedInvocation where
  documents : List ResolvedDocument
  documentPaths : List ObjectPath
  byReference : OrdMap DocumentRef Nat
  allPaths : List ObjectPath

/-- The identity of an invocation is complete, and its fingerprint is a digest in hex. -/
def validateInvocationIdentity (invocation : ProgramInvocation) : Except EngineError Unit := do
  rejectIf (invocation.programPathHash = 0)
    (.invalidInvocation "program_path_hash must be non-zero")
  rejectIf (invocation.commandId = "" ∨ invocation.commandId.utf8ByteSize > 256 ∨
    ['\x00', '/', '{', '}'].any (fun c => c ∈ invocation.commandId.toList) = true)
    (.invalidInvocation "command_id must be a non-empty safe path segment of at most 256 bytes")
  rejectIf (invocation.inputFingerprint.utf8ByteSize ≠ 64 ∨
    ¬ invocation.inputFingerprint.toList.all (fun c =>
      c.isDigit || (decide ('a' ≤ c) && decide (c ≤ 'f'))) = true)
    (.invalidInvocation "input_fingerprint must be lowercase hex for a 32-byte digest")

def validateInvocationSize (host : Host) (definition : ProgramDefinition)
    (invocation : ProgramInvocation) : Except EngineError Unit := do
  let bytes ← (host.invocationBytes invocation).mapError
    (fun error => .invalidInvocation s!"cannot encode invocation: {error}")
  rejectIf (bytes > definition.caps.maxInputBytes) (.invalidInvocation
    s!"invocation is {bytes} bytes, exceeding max_input_bytes {definition.caps.maxInputBytes}")

def validateContext (context : InvocationContext) : Except EngineError Unit :=
  rejectIf (canonicalComponent context.tenant maxObjectTenantBytes = false) (.invalidInvocation
    s!"tenant must be one canonical component of at most {maxObjectTenantBytes} bytes")

/-- Every path of a program belongs to the tenant of the call. -/
def ensureTenant (context : InvocationContext) (path : ObjectPath) : Except EngineError Unit :=
  rejectIf (path.tenant ≠ context.tenant) (.invalidInvocation
    "expanded object tenant does not match authenticated request context")

def validateExpectedHead (expected : ExpectedHead) : Except EngineError Unit :=
  rejectIf (expected = .version "") (.invalidInvocation "expected head version must not be empty")

/-- The documents resolved so far. -/
structure Resolving where
  documents : List ResolvedDocument
  byReference : OrdMap DocumentRef Nat
  uniquePaths : OrdSet ObjectPath

/-- The template values of a binding, added to those of the invocation. -/
def bindingValues
    (invocation : ProgramInvocation) (spec : DocumentSpec) (pathFields : List String) :
    List (String × String) → OrdMap String String → Except EngineError (OrdMap String String)
  | [], values => .ok values
  | (name, value) :: rest, values => do
    rejectIf (name = "command_id" ∨ name = "tenant" ∨ invocation.arguments.contains name = true)
      (.invalidInvocation s!"binding value `{name}` collides with an invocation argument")
    rejectIf (name ∉ pathFields) (.invalidInvocation
      s!"binding value `{name}` is not used by slot `{spec.name}`")
    bindingValues invocation spec pathFields rest (values.insert name value)

/-- Check one binding and add its document. -/
def resolveBinding (host : Host) (context : InvocationContext) (invocation : ProgramInvocation)
    (templateValues : OrdMap String String) (spec : DocumentSpec) (pathFields : List String)
    (index : Nat) (binding : PathBinding)
    (resolving : Resolving) : Except EngineError Resolving := do
  let values ← bindingValues invocation spec pathFields binding.templateValues.entries
    templateValues
  let expanded ← (spec.path.expand values).mapError .invalidInvocation
  ensureTenant context expanded
  rejectIf (expanded ≠ binding.path) (.invalidInvocation
    s!"path for slot `{spec.name}` index {index} does not match its program template")
  rejectIf
    (binding.initialJson.isSome = true ∧ (spec.allowInitialJson = false ∨ spec.access ≠ .readWrite))
    (.invalidInvocation s!"slot `{spec.name}` does not permit an initial JSON value")
  validateExpectedHead binding.expectedHead
  rejectIf (resolving.uniquePaths.contains expanded = true) (.invalidInvocation
    s!"object path {host.debugPath expanded} is bound more than once")
  .ok
    { documents := resolving.documents ++
          [ { reference := ⟨spec.name, index⟩
              path := expanded
              expectedHead := binding.expectedHead
              initialJson := binding.initialJson } ]
      byReference := resolving.byReference.insert ⟨spec.name, index⟩ resolving.documents.length
      uniquePaths := resolving.uniquePaths.insert expanded () }

/-- The bindings of a slot, in their order. -/
def resolveBindings (host : Host) (context : InvocationContext) (invocation : ProgramInvocation)
    (templateValues : OrdMap String String) (spec : DocumentSpec) (pathFields : List String) :
    Nat → List PathBinding → Resolving → Except EngineError Resolving
  | _, [], resolving => .ok resolving
  | index, binding :: rest, resolving => do
    let resolving ← resolveBinding host context invocation templateValues spec pathFields
      index binding resolving
    resolveBindings host context invocation templateValues spec pathFields
      (index + 1) rest resolving

/-- The paths an invocation binds to a slot. -/
def ProgramInvocation.bound (invocation : ProgramInvocation) (slot : String) : List PathBinding :=
  (invocation.bindings.get? slot).getD []

/-- Check the number of bindings of a slot and resolve them. -/
def resolveSlot (host : Host) (context : InvocationContext) (invocation : ProgramInvocation)
    (templateValues : OrdMap String String) (resolving : Resolving)
    (spec : DocumentSpec) : Except EngineError Resolving := do
  let bindings := invocation.bound spec.name
  rejectIf (spec.cardinality.accepts bindings.length = false) (.invalidInvocation
    (s!"slot `{spec.name}` received {bindings.length} paths but has cardinality " ++
      s!"{spec.cardinality.debugText}"))
  let pathFields ← spec.path.placeholders.mapError .invalidInvocation
  resolveBindings host context invocation templateValues spec pathFields 0 bindings resolving

/-- The values every template of the invocation can use. -/
def requestValues (context : InvocationContext) (invocation : ProgramInvocation) :
    Except EngineError (OrdMap String String) := do
  rejectIf (invocation.arguments.contains "command_id" = true ∨
    invocation.arguments.contains "tenant" = true)
    (.invalidInvocation "`tenant` and `command_id` come from request context and are reserved")
  .ok ((invocation.arguments.insert "tenant" context.tenant).insert
    "command_id" invocation.commandId)

/-- Bindings name declared slots only. -/
def rejectUnknownSlots
    (definition : ProgramDefinition) (invocation : ProgramInvocation) : Except EngineError Unit :=
  invocation.bindings.keys.forM (fun slot =>
    rejectIf (∀ document ∈ definition.documents, document.name ≠ slot) (.invalidInvocation
      s!"binding supplied for unknown document slot `{slot}`"))

def sortPaths (paths : List ObjectPath) : List ObjectPath :=
  paths.insertionSort (· ≤ ·)

namespace AtomicProgramEngine

section

variable (engine : AtomicProgramEngine) (context : InvocationContext)
  (invocation : ProgramInvocation)

/-- Bind the declared documents to paths, each path once. -/
def resolve : Except EngineError ResolvedInvocation := do
  validateInvocationIdentity invocation
  validateInvocationSize engine.host engine.definition invocation
  validateContext context
  let templateValues ← requestValues context invocation
  rejectUnknownSlots engine.definition invocation
  let resolving ← engine.definition.documents.foldlM
    (resolveSlot engine.host context invocation templateValues)
    { documents := [], byReference := OrdMap.empty, uniquePaths := OrdMap.empty }
  rejectIf (resolving.uniquePaths.size > engine.definition.caps.maxPaths) (.invalidInvocation
    (s!"resolved {resolving.uniquePaths.size} paths, exceeding max_paths " ++
      s!"{engine.definition.caps.maxPaths}"))
  .ok
    { documents := resolving.documents
      documentPaths := sortPaths (resolving.documents.map ResolvedDocument.path)
      byReference := resolving.byReference
      allPaths := resolving.uniquePaths.keys }

/-- The complete path inventory for authorization; reads nothing. -/
def expandedPaths : Except EngineError (List ExpandedProgramPath) := do
  let resolved ← engine.resolve context invocation
  .ok ((resolved.documents.map (fun document =>
      { path := document.path
        intent := engine.definition.pathIntent document.reference :
          ExpandedProgramPath })).insertionSort
      (fun left right => left.path ≤ right.path))

end

end AtomicProgramEngine

/-- Replace each path by its canonical one; two documents may not meet. -/
def canonicalizeDocuments (host : Host) (canonicalPaths : OrdMap ObjectPath ObjectPath) :
    List ResolvedDocument → OrdSet ObjectPath →
      Except EngineError (List ResolvedDocument × OrdSet ObjectPath)
  | [], unique => .ok ([], unique)
  | document :: rest, unique => do
    let path := (canonicalPaths.get? document.path).getD document.path
    rejectIf (unique.contains path = true) (.invalidInvocation
      s!"object path {host.debugPath path} is bound more than once after canonical resolution")
    let documents ← canonicalizeDocuments host canonicalPaths rest (unique.insert path ())
    .ok ({ document with path := path } :: documents.1, documents.2)

/-- Replace aliases by the paths they stand for; no two may meet. -/
def canonicalizeResolvedPaths
    (host : Host) (resolved : ResolvedInvocation) (canonicalPaths : OrdMap ObjectPath ObjectPath) :
    Except EngineError ResolvedInvocation := do
  rejectIf (∃ logical ∈ canonicalPaths.keys, logical ∉ resolved.documentPaths)
    (.invalidInvocation "canonical path map names an unresolved logical object")
  let canonical ← canonicalizeDocuments host canonicalPaths resolved.documents OrdMap.empty
  .ok
    { documents := canonical.1
      documentPaths := canonical.2.keys
      byReference := resolved.byReference
      allPaths := canonical.2.keys }

section

/-- A document under evaluation: as read, and as written so far. -/
structure WorkingDocument where
  reference : DocumentRef
  path : ObjectPath
  observed : ObservedHead
  before : Option StoredValue
  current : Option StoredValue
  currentContentType : Option String
  dirty : Bool

/-- The head of a path in a snapshot. -/
def observedHead : Option VersionedDocument → ObservedHead
  | some document => .version document.version
  | none => .neverExisted

/-- What a document starts from when it has no live value. -/
def WorkingDocument.initial
    (resolved : ResolvedDocument) (observed : ObservedHead) : WorkingDocument :=
  match resolved.initialJson with
  | some value =>
    { reference := resolved.reference
      path := resolved.path
      observed := observed
      before := none
      current := some (.json value)
      currentContentType := some "application/json"
      dirty := true }
  | none =>
    { reference := resolved.reference
      path := resolved.path
      observed := observed
      before := none
      current := none
      currentContentType := none
      dirty := false }

def WorkingDocument.new
    (resolved : ResolvedDocument) (stored : Option VersionedDocument) : WorkingDocument :=
  match stored.bind VersionedDocument.value with
  | some value =>
    { reference := resolved.reference
      path := resolved.path
      observed := observedHead stored
      before := some value
      current := some value
      currentContentType := stored.bind VersionedDocument.contentType
      dirty := false }
  | none => WorkingDocument.initial resolved (observedHead stored)

/-- The reader returns documents of resolved paths only, each well formed. -/
def validateSnapshot (host : Host) (resolved : ResolvedInvocation)
    (snapshot : ProgramSnapshot) : Except EngineError Unit := do
  snapshot.documents.keys.forM (fun path =>
    rejectIf (path ∉ resolved.documentPaths) (.invalidSnapshot
      s!"unrequested document {host.debugPath path} was returned"))
  snapshot.documents.entries.forM (fun entry =>
    rejectIf (entry.2.version = "") (.invalidSnapshot
      s!"document {host.debugPath entry.1} has an empty version"))
  snapshot.documents.entries.forM (fun entry =>
    rejectIf (entry.2.value.isSome ≠ entry.2.contentType.isSome) (.invalidSnapshot
      (s!"document {host.debugPath entry.1} must pair a live value with content type or a " ++
        "tombstone with neither")))

/-- The head of a binding is as it expected. -/
def checkExpectedHead (path : ObjectPath) :
    ExpectedHead → Option VersionedDocument → Except EngineError Unit
  | .any, _ => .ok ()
  | .absent, none => .ok ()
  | .absent, some document =>
    rejectIf (document.value.isSome = true) (.headPrecondition path
      s!"expected absent, found version {document.version}")
  | .version version, none =>
    .error (.headPrecondition path s!"expected version {version}, found absent")
  | .version version, some document =>
    rejectIf (version ≠ document.version) (.headPrecondition path
      s!"expected version {version}, found version {document.version}")

variable (host : Host) (invocation : ProgramInvocation) (resolved : ResolvedInvocation)

/-- The place of a document among those resolved. -/
def workingIndex (reference : DocumentRef) : Except String Nat :=
  okOr (resolved.byReference.get? reference)
    s!"document reference {host.debugReference reference} was not bound"

def workingDocument
    (reference : DocumentRef) (working : List WorkingDocument) : Except String WorkingDocument := do
  let index ← workingIndex host resolved reference
  okOr working[index]? "index out of bounds"

/-- Apply an edit to the working copy of a document. -/
def editDocument (reference : DocumentRef) (edit : WorkingDocument → Except String WorkingDocument)
    (working : List WorkingDocument) : Except String (List WorkingDocument) := do
  let index ← workingIndex host resolved reference
  let document ← okOr working[index]? "index out of bounds"
  let edited ← edit document
  .ok (working.set index edited)

/-- A value inside a JSON document. -/
def jsonFromStored (value : Option StoredValue) (pointer : String) : Except String Json :=
  match value with
  | some (.json json) => select host.json json pointer
  | some (.opaqueBytes _) => .error "document contains opaque bytes, not JSON"
  | none => .error "document is absent"

/-- A value of a document, before or after the operations so far. -/
def documentJsonValue
    (source : DocumentValueRef) (working : List WorkingDocument) : Except String Json := do
  let document ← workingDocument host resolved source.value.document working
  jsonFromStored host (match source.view with
      | .before => document.before
      | .current => document.current)
    source.value.pointer

def inputValue : InputValue → Except String Json
  | .literal value => .ok value
  | .input name => okOr (invocation.inputs.get? name) s!"JSON input `{name}` is missing"

/-- The value that an operation writes. -/
def valueSource (working : List WorkingDocument) : ValueSource → Except String Json
  | .literal value => .ok value
  | .input name => okOr (invocation.inputs.get? name) s!"JSON input `{name}` is missing"
  | .document source => documentJsonValue host resolved source working

def exactI64 (value : Json) : Except String Int :=
  okOr (host.json.asI64 value) "value must be an exact JSON i64 integer"

def checkI64Bounds (value : Int) (min max : Option Int) : Except String Unit :=
  rejectIf ((∃ m ∈ min, value < m) ∨ (∃ m ∈ max, value > m))
    s!"i64 value {value} is outside configured bounds"

/-- An exact signed integer within its bounds. -/
def checkedI64 (value : Json) (min max : Option Int) : Except String Int := do
  let exact ← exactI64 host value
  checkI64Bounds exact min max
  .ok exact

def checkU64Bounds (value : Nat) (min max : Option Nat) : Except String Unit :=
  rejectIf ((∃ m ∈ min, value < m) ∨ (∃ m ∈ max, value > m))
    s!"u64 value {value} is outside configured bounds"

/-- An exact unsigned integer within its bounds. -/
def checkedU64 (value : Json) (min max : Option Nat) : Except String Nat := do
  let exact ← okOr (host.json.asU64 value) "value must be an exact JSON u64 integer"
  checkU64Bounds exact min max
  .ok exact

def checkedAddU64 (current delta : Nat) : Except String Nat :=
  okOr (if current + delta ≤ usizeMax then some (current + delta) else none)
    "u64 addition overflowed"

/-- Add a signed or unsigned delta without wrapping. -/
def addU64Delta (current : Nat) (delta : Json) : Except String Nat :=
  match host.json.asI64 delta with
  | some signed =>
    if signed < 0 then
      okOr (if signed.natAbs ≤ current then some (current - signed.natAbs)
          else none)
        "u64 subtraction underflowed"
    else
      checkedAddU64 current signed.toNat
  | none => do
    let unsigned ← okOr (host.json.asU64 delta) "u64 delta must be an exact JSON integer"
    checkedAddU64 current unsigned

def compare {α : Type} [LinearOrder α] (actual expected : α) : Comparison → Bool
  | .eq => decide (actual = expected)
  | .ne => decide (actual ≠ expected)
  | .lt => decide (actual < expected)
  | .le => decide (actual ≤ expected)
  | .gt => decide (actual > expected)
  | .ge => decide (actual ≥ expected)

/-- Compare two integers of the declared type. -/
def integerMatches
    (actual expected : Json) (comparison : Comparison) : IntegerType → Except String Bool
  | .i64 min max => do
    let a ← checkedI64 host actual min max
    let e ← checkedI64 host expected min max
    .ok (compare a e comparison)
  | .u64 min max => do
    let a ← checkedU64 host actual min max
    let e ← checkedU64 host expected min max
    .ok (compare a e comparison)

/-- Assertions see the documents as they were read. -/
def evaluateAssertion (working : List WorkingDocument) : Assertion → Except String Unit
  | .exists document => do
    let found ← workingDocument host resolved document working
    rejectIf (found.before.isSome = false) s!"document {host.debugReference document} is absent"
  | .absent document => do
    let found ← workingDocument host resolved document working
    rejectIf (found.before.isSome = true) s!"document {host.debugReference document} exists"
  | .jsonEqual actual expected => do
    let found ← workingDocument host resolved actual.document working
    let value ← jsonFromStored host found.before actual.pointer
    let wanted ← inputValue invocation expected
    rejectIf (host.json.equal value wanted = false) "JSON values are not equal"
  | .integerCompare actual comparison expected numericType => do
    let found ← workingDocument host resolved actual.document working
    let value ← jsonFromStored host found.before actual.pointer
    let wanted ← inputValue invocation expected
    let holds ← integerMatches host value wanted comparison numericType
    rejectIf (holds = false) s!"integer comparison {comparison.debugText} is false"

/-- Edit the current value of a document, which must be JSON. -/
def editJson (edit : Json → Except String Json)
    (document : WorkingDocument) : Except String WorkingDocument :=
  match document.current with
  | some (.json value) => do
      let edited ← edit value
      .ok { document with current := some (.json edited), dirty := true }
  | some (.opaqueBytes _) =>
    .error s!"document {host.debugReference document.reference} contains opaque bytes, not JSON"
  | none => .error s!"document {host.debugReference document.reference} is absent"

/-- Write a JSON value; at the root it replaces the document. -/
def setDocumentJson (target : JsonPointerRef) (replacement : Json)
    (working : List WorkingDocument) : Except String (List WorkingDocument) :=
  editDocument host resolved target.document (fun document =>
      if target.pointer = "" then
        .ok { document with
          current := some (.json replacement)
          currentContentType := some "application/json"
          dirty := true }
      else
        editJson host (fun value => set value target.pointer replacement) document)
    working

/-- Remove a JSON value; at the root it deletes the document. -/
def removeDocumentValue (target : JsonPointerRef)
    (working : List WorkingDocument) : Except String (List WorkingDocument) :=
  editDocument host resolved target.document (fun document =>
      if target.pointer = "" then
        .ok { document with current := none, currentContentType := none, dirty := true }
      else
        editJson host (fun value => remove value target.pointer) document)
    working

/-- Add to an integer of the declared type, within its bounds. -/
def addInteger (current delta : Json) : IntegerType → Except String Json
  | .i64 min max => do
    let value ← checkedI64 host current min max
    let change ← exactI64 host delta
    let result ← okOr (if i64Min ≤ value + change ∧ value + change ≤ i64Max then
        some (value + change) else none)
      "i64 addition overflowed"
    checkI64Bounds result min max
    .ok (.number (JsonNumber.ofInt result))
  | .u64 min max => do
    let value ← checkedU64 host current min max
    let result ← addU64Delta host value delta
    checkU64Bounds result min max
    .ok (.number (.posInt result))

/-- Operations see what earlier operations have written. -/
def evaluateOperation (working : List WorkingDocument) :
    Operation → Except String (List WorkingDocument)
  | .setValue target value => do
    let replacement ← valueSource host invocation resolved working value
    setDocumentJson host resolved target replacement working
  | .removeValue target => removeDocumentValue host resolved target working
  | .checkedIntegerAdd target delta numericType => do
    let change ← inputValue invocation delta
    editDocument host resolved target.document (editJson host (fun value => do
        let current ← select host.json value target.pointer
        let replacement ← addInteger host current change numericType
        set value target.pointer replacement))
      working
  | .copyValue source target => do
    let value ← documentJsonValue host resolved source working
    setDocumentJson host resolved target value working
  | .replaceOpaque document input contentType => do
    let value ← okOr (invocation.blobs.get? input) s!"opaque input `{input}` is missing"
    editDocument host resolved document (fun found =>
        .ok { found with
          current := some (.opaqueBytes value)
          currentContentType := some contentType
          dirty := true })
      working

def storedValueSize : StoredValue → Except EngineError Nat
  | .json value => (host.jsonBytes value).mapError .limitExceeded
  | .opaqueBytes value => .ok value.length

/-- Every document is within the size that the caps allow. -/
def checkDocumentLimits
    (caps : ProgramCaps) (working : List WorkingDocument) : Except EngineError Unit :=
  working.forM (fun document =>
    (document.before.toList ++ document.current.toList).forM (fun value => do
      let size ← storedValueSize host value
      rejectIf (size > caps.maxDocumentBytes) (.limitExceeded
        (s!"document {host.debugReference document.reference} is {size} bytes; " ++
          s!"max_document_bytes is {caps.maxDocumentBytes}"))))

/-- A document as the snapshot has it, with its expected head checked. -/
def loadWorking (snapshot : ProgramSnapshot)
    (document : ResolvedDocument) : Except EngineError WorkingDocument := do
  let stored := snapshot.documents.get? document.path
  checkExpectedHead document.path document.expectedHead stored
  .ok (WorkingDocument.new document stored)

def evaluateAssertions (working : List WorkingDocument) :
    Nat → List Assertion → Except EngineError Unit
  | _, [] => .ok ()
  | index, assertion :: rest => do
    (evaluateAssertion host invocation resolved working assertion).mapError (.assertion index)
    evaluateAssertions working (index + 1) rest

def evaluateOperations :
    Nat → List Operation → List WorkingDocument → Except EngineError (List WorkingDocument)
  | _, [], working => .ok working
  | index, operation :: rest, working => do
    let working ← (evaluateOperation host invocation resolved working operation).mapError
      (.operation index)
    evaluateOperations (index + 1) rest working

/-- The outputs of a program, by name. -/
def evaluateReturns (working : List WorkingDocument) (outputs : OrdMap String Json)
    (returned : ReturnDefinition) : Except EngineError (OrdMap String Json) := do
  let value ← (documentJsonValue host resolved returned.value working).mapError
    (.returned returned.name)
  .ok (outputs.insert returned.name value)

/-- Only a changed document is written. -/
def toParticipant (document : WorkingDocument) : AtomicParticipant :=
  { path := document.path
    expected := document.observed
    write :=
      if document.dirty = true then
        some
          { value := document.current, contentType := document.currentContentType }
      else
        none }

end

namespace AtomicProgramEngine

/-- Evaluate a program on a snapshot. -/
def evaluate
    (engine : AtomicProgramEngine) (invocation : ProgramInvocation) (resolved : ResolvedInvocation)
    (snapshot : ProgramSnapshot) : Except EngineError AtomicWriteBundle := do
  validateSnapshot engine.host resolved snapshot
  let loaded ← resolved.documents.mapM (loadWorking snapshot)
  checkDocumentLimits engine.host engine.definition.caps loaded
  evaluateAssertions engine.host invocation resolved loaded 0 engine.definition.assertions
  let working ← evaluateOperations engine.host invocation resolved 0
    engine.definition.operations loaded
  checkDocumentLimits engine.host engine.definition.caps working
  let writeCount := working.countP WorkingDocument.dirty
  rejectIf (writeCount > engine.definition.caps.maxWrites) (.invalidDefinition
    (s!"program produced {writeCount} writes, exceeding max_writes " ++
      s!"{engine.definition.caps.maxWrites}"))
  let outputs ← engine.definition.returns.foldlM
    (evaluateReturns engine.host resolved working) OrdMap.empty
  .ok
    { participants := (working.map toParticipant).insertionSort
          (fun left right => left.path ≤ right.path)
      receipt :=
        { programPathHash := invocation.programPathHash
          commandId := invocation.commandId
          inputFingerprint := invocation.inputFingerprint
          outputs := outputs } }

/-- Prepare an invocation, with aliases replaced by the given paths. -/
def prepareCanonicalized
    (engine : AtomicProgramEngine) (context : InvocationContext) (invocation : ProgramInvocation)
    (canonicalPaths : OrdMap ObjectPath ObjectPath) :
    Except EngineError AtomicWriteBundle := do
  let resolved ← engine.resolve context invocation
  let canonical ← canonicalizeResolvedPaths engine.host resolved canonicalPaths
  let snapshot ← (engine.reader canonical.documentPaths).mapError .read
  engine.evaluate invocation canonical snapshot

/-- Prepare an invocation without aliases. -/
def prepare (engine : AtomicProgramEngine) (context : InvocationContext)
    (invocation : ProgramInvocation) : Except EngineError AtomicWriteBundle :=
  engine.prepareCanonicalized context invocation OrdMap.empty

end AtomicProgramEngine

end Keldra.AtomicProgram
