import Keldra.AtomicProgram.Json
import Keldra.AtomicProgram.Template

/-!
# Program definitions

The bounded mutation language: document slots, assertions, operations and
returned values, with the validation of a definition and the authorization
intent it declares for each document position.
-/

namespace Keldra.AtomicProgram

open Foundation

def definitionSchemaVersion : Nat := 1

/-- Failures of the engine; none of them has written anything. -/
inductive EngineError where
  | invalidDefinition (reason : String)
  | invalidInvocation (reason : String)
  | read (reason : String)
  | headPrecondition (path : ObjectPath) (reason : String)
  | assertion (index : Nat) (reason : String)
  | operation (index : Nat) (reason : String)
  | returned (name reason : String)
  | invalidSnapshot (reason : String)
  | limitExceeded (reason : String)
deriving DecidableEq, Repr

structure ProgramCaps where
  maxPaths : Nat := 16
  maxWrites : Nat := 16
  maxOperations : Nat := 64
  maxInputBytes : Nat := 1024 * 1024
  maxDocumentBytes : Nat := 1024 * 1024
deriving DecidableEq, Repr

inductive Cardinality where
  | one
  | optional
  | repeated (max : Nat)
deriving DecidableEq, Repr

namespace Cardinality

def maximum : Cardinality → Nat
  | .one => 1
  | .optional => 1
  | .repeated max => max

def accepts : Cardinality → Nat → Bool
  | .one, count => decide (count = 1)
  | .optional, count => decide (count ≤ 1)
  | .repeated max, count => decide (count ≤ max)

def debugText : Cardinality → String
  | .one => "One"
  | .optional => "Optional"
  | .repeated max => s!"Repeated \x7b max: {max} \x7d"

end Cardinality

inductive DocumentAccess where
  | readOnly
  | readWrite
deriving DecidableEq, Repr

/-- Conservative authorization intent for one expanded path. -/
structure ProgramPathIntent where
  get : Bool
  put : Bool
  delete : Bool
deriving DecidableEq, Repr

/-- One named set of paths accepted by a program. -/
structure DocumentSpec where
  name : String
  path : PathTemplate
  cardinality : Cardinality
  access : DocumentAccess
  allowInitialJson : Bool
deriving DecidableEq, Repr

/-- A static document position in the bounded program. -/
structure DocumentRef where
  slot : String
  index : Nat
deriving DecidableEq, Repr

def DocumentRef.toKey (reference : DocumentRef) : String ×ₗ Nat :=
  toLex (reference.slot, reference.index)

instance : LinearOrder DocumentRef := LinearOrder.lift' DocumentRef.toKey (by
    rintro ⟨s, i⟩ ⟨s', i'⟩ h
    simpa [DocumentRef.toKey] using h)

structure JsonPointerRef where
  document : DocumentRef
  pointer : String
deriving DecidableEq, Repr

inductive DocumentView where
  | before
  | current
deriving DecidableEq, Repr

structure DocumentValueRef where
  value : JsonPointerRef
  view : DocumentView
deriving DecidableEq, Repr

inductive InputValue where
  | literal (value : Json)
  | input (name : String)
deriving Repr

inductive ValueSource where
  | literal (value : Json)
  | input (name : String)
  | document (source : DocumentValueRef)
deriving Repr

inductive Comparison where
  | eq
  | ne
  | lt
  | le
  | gt
  | ge
deriving DecidableEq, Repr

def Comparison.debugText : Comparison → String
  | .eq => "Eq"
  | .ne => "Ne"
  | .lt => "Lt"
  | .le => "Le"
  | .gt => "Gt"
  | .ge => "Ge"

inductive IntegerType where
  | i64 (min max : Option Int)
  | u64 (min max : Option Nat)
deriving DecidableEq, Repr

/-- Assertions read the stored preimage only. -/
inductive Assertion where
  | exists (document : DocumentRef)
  | absent (document : DocumentRef)
  | jsonEqual (actual : JsonPointerRef) (expected : InputValue)
  | integerCompare (actual : JsonPointerRef) (comparison : Comparison) (expected : InputValue)
      (numericType : IntegerType)
deriving Repr

inductive Operation where
  | setValue (target : JsonPointerRef) (value : ValueSource)
  /-- Removing the root deletes the document. -/
  | removeValue (target : JsonPointerRef)
  | checkedIntegerAdd (target : JsonPointerRef) (delta : InputValue) (numericType : IntegerType)
  | copyValue (source : DocumentValueRef) (target : JsonPointerRef)
  | replaceOpaque (document : DocumentRef) (input contentType : String)
deriving Repr

structure ReturnDefinition where
  name : String
  value : DocumentValueRef
deriving DecidableEq, Repr

structure ProgramDefinition where
  schemaVersion : Nat
  documents : List DocumentSpec
  assertions : List Assertion
  operations : List Operation
  returns : List ReturnDefinition
  caps : ProgramCaps
deriving Repr

def isAsciiAlphanumeric (c : Char) : Bool :=
  c.isAlphanum

def validateIdentifier (kind value : String) : Except EngineError Unit :=
  rejectIf (value = "" ∨ value.utf8ByteSize > 128 ∨ ¬ value.toList.all (fun c =>
      isAsciiAlphanumeric c || ['_', '-', '.', ':', '/'].contains c) = true)
    (.invalidDefinition s!"{kind} must be 1..=128 safe ASCII characters")

def validateInputName (value : String) : Except EngineError Unit :=
  rejectIf (value = "" ∨ value.utf8ByteSize > 128 ∨ ¬ value.toList.all (fun c =>
      isAsciiAlphanumeric c || ['_', '-', '.'].contains c) = true)
    (.invalidDefinition "input name must be 1..=128 safe ASCII characters")

def validateContentType (value : String) : Except EngineError Unit :=
  rejectIf (value = "" ∨ value.utf8ByteSize > 255 ∨ '\x00' ∈ value.toList)
    (.invalidDefinition "content type must be 1..=255 characters without NUL")

def validateIntegerType : IntegerType → Except EngineError Unit
  | .i64 (some min) (some max) =>
    rejectIf (min > max) (.invalidDefinition "i64 minimum exceeds maximum")
  | .u64 (some min) (some max) =>
    rejectIf (min > max) (.invalidDefinition "u64 minimum exceeds maximum")
  | _ => .ok ()

def validateInputValue : InputValue → Except EngineError Unit
  | .literal _ => .ok ()
  | .input name => validateInputName name

/-- A pointer that does not parse makes the definition invalid. -/
def validateDefinitionPointer (pointer : String) : Except EngineError Unit :=
  (validatePointer pointer).mapError .invalidDefinition

/-- The declared slots with the counts they can produce. -/
structure SlotTable where
  slots : OrdMap String DocumentSpec
  maximumPaths : Nat
  maximumWrites : Nat

def addMaximum
    (total : Nat) (cardinality : Cardinality) (reason : String) : Except EngineError Nat :=
  okOr (checkedAddUsize total cardinality.maximum) (.invalidDefinition reason)

def addWrites (table : SlotTable) (document : DocumentSpec) : Except EngineError Nat :=
  match document.access with
  | .readWrite => addMaximum table.maximumWrites document.cardinality "maximum write count overflow"
  | .readOnly => .ok table.maximumWrites

def addSlot (table : SlotTable) (document : DocumentSpec) : Except EngineError SlotTable := do
  validateIdentifier "document slot" document.name
  document.path.validate.mapError .invalidDefinition
  rejectIf (document.cardinality = .repeated 0) (.invalidDefinition
    s!"repeated slot `{document.name}` must permit at least one path")
  rejectIf (document.allowInitialJson = true ∧ document.access ≠ .readWrite) (.invalidDefinition
    s!"read-only slot `{document.name}` cannot permit an initial value")
  rejectIf (table.slots.contains document.name = true)
    (.invalidDefinition s!"duplicate document slot `{document.name}`")
  let maximumPaths ← addMaximum table.maximumPaths document.cardinality
    "maximum path count overflow"
  let maximumWrites ← addWrites table document
  .ok
    { slots := table.slots.insert document.name document
      maximumPaths := maximumPaths
      maximumWrites := maximumWrites }

def addSlots (documents : List DocumentSpec) (table : SlotTable) : Except EngineError SlotTable :=
  documents.foldlM addSlot table

section

variable (slots : OrdMap String DocumentSpec)

def checkReference (reference : DocumentRef) (writable : Bool) : Except EngineError Unit := do
  let spec ← okOr (slots.get? reference.slot) (.invalidDefinition
    s!"reference uses unknown document slot `{reference.slot}`")
  rejectIf (reference.index ≥ spec.cardinality.maximum) (.invalidDefinition
    s!"reference to `{reference.slot}` index {reference.index} exceeds its declared cardinality")
  rejectIf (writable = true ∧ spec.access ≠ .readWrite)
    (.invalidDefinition s!"operation writes read-only slot `{reference.slot}`")

/-- A JSON position of a declared document. -/
def checkPosition (position : JsonPointerRef) (writable : Bool) : Except EngineError Unit := do
  checkReference slots position.document writable
  validateDefinitionPointer position.pointer

def validateValueSource : ValueSource → Except EngineError Unit
  | .literal _ => .ok ()
  | .input name => validateInputName name
  | .document source => checkPosition slots source.value false

def validateAssertion : Assertion → Except EngineError Unit
  | .exists document => checkReference slots document false
  | .absent document => checkReference slots document false
  | .jsonEqual actual expected => do
    checkPosition slots actual false
    validateInputValue expected
  | .integerCompare actual _ expected numericType => do
    checkPosition slots actual false
    validateInputValue expected
    validateIntegerType numericType

def validateOperation : Operation → Except EngineError Unit
  | .setValue target value => do
    checkPosition slots target true
    validateValueSource slots value
  | .removeValue target => checkPosition slots target true
  | .checkedIntegerAdd target delta numericType => do
    checkPosition slots target true
    validateInputValue delta
    validateIntegerType numericType
  | .copyValue source target => do
    checkPosition slots source.value false
    checkPosition slots target true
  | .replaceOpaque document input contentType => do
    checkReference slots document true
    validateInputName input
    validateContentType contentType

def validateReturn (returned : ReturnDefinition)
    (names : OrdSet String) : Except EngineError (OrdSet String) := do
  validateIdentifier "return name" returned.name
  rejectIf (names.contains returned.name = true)
    (.invalidDefinition s!"duplicate return name `{returned.name}`")
  checkPosition slots returned.value.value false
  .ok (names.insert returned.name ())

end

namespace ProgramDefinition

def validateCaps (definition : ProgramDefinition) : Except EngineError Unit := do
  rejectIf (definition.schemaVersion ≠ definitionSchemaVersion) (.invalidDefinition
    (s!"schema version {definition.schemaVersion} is unsupported; " ++
      s!"expected {definitionSchemaVersion}"))
  rejectIf (definition.caps.maxPaths = 0 ∨ definition.caps.maxInputBytes = 0 ∨
    definition.caps.maxDocumentBytes = 0)
    (.invalidDefinition "max_paths, max_input_bytes, and max_document_bytes must be non-zero")
  let instructionCount ← okOr ((checkedAddUsize definition.assertions.length
    definition.operations.length).bind
      (fun count => checkedAddUsize count definition.returns.length))
      (.invalidDefinition "instruction count overflow")
  rejectIf (instructionCount > definition.caps.maxOperations) (.invalidDefinition
    (s!"{instructionCount} assertions/operations/returns exceed max_operations " ++
      s!"{definition.caps.maxOperations}"))

/-- The slot table of a definition whose documents are valid. -/
def slotTable (definition : ProgramDefinition) : Except EngineError SlotTable := do
  let table ← addSlots definition.documents
    { slots := OrdMap.empty, maximumPaths := 0, maximumWrites := 0 }
  rejectIf (table.maximumPaths > definition.caps.maxPaths) (.invalidDefinition
    (s!"declared cardinality can resolve {table.maximumPaths} paths, exceeding max_paths " ++
      s!"{definition.caps.maxPaths}"))
  rejectIf (table.maximumWrites > definition.caps.maxWrites) (.invalidDefinition
    (s!"read-write cardinality can produce {table.maximumWrites} writes, exceeding max_writes " ++
      s!"{definition.caps.maxWrites}"))
  .ok table

def validate (definition : ProgramDefinition) : Except EngineError Unit := do
  definition.validateCaps
  let table ← definition.slotTable
  definition.assertions.forM (validateAssertion table.slots)
  definition.operations.forM (validateOperation table.slots)
  let _ ← definition.returns.foldlM
    (fun names returned => validateReturn table.slots returned names)
    OrdMap.empty
  .ok ()

/-- The effect of one operation on the intent for a document position. -/
def operationIntent
    (reference : DocumentRef) (intent : ProgramPathIntent) : Operation → ProgramPathIntent
  | .setValue target _ =>
    if target.document = reference then { intent with put := true }
    else intent
  | .checkedIntegerAdd target _ _ =>
    if target.document = reference then { intent with put := true }
    else intent
  | .copyValue _ target =>
    if target.document = reference then { intent with put := true }
    else intent
  | .removeValue target =>
    if target.document = reference then
      -- Removing a pointer below the root publishes the edited document.
      if target.pointer = "" then { intent with delete := true }
      else { intent with put := true }
    else
      intent
  | .replaceOpaque document _ _ =>
    if document = reference then { intent with put := true } else intent

def pathIntent (definition : ProgramDefinition) (reference : DocumentRef) : ProgramPathIntent :=
  definition.operations.foldl (operationIntent reference)
    { get := true
      put :=
        match definition.documents.find?
          (fun document => decide (document.name = reference.slot)) with
        | some document => document.allowInitialJson
        | none => false
      delete := false }

end ProgramDefinition

end Keldra.AtomicProgram
