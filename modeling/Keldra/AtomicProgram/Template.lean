import Mathlib.Data.Prod.Lex
import Mathlib.Data.String.Basic
import Keldra.Foundation.OrdMap
import Keldra.Foundation.Text

/-!
# Object paths and path templates

A template is literal text with `{name}` fields.  A field is replaced by one
safe path segment, so an invocation value cannot introduce separators.
-/

namespace Keldra.AtomicProgram

open Foundation

def maxObjectTenantBytes : Nat := 256
def maxObjectBucketBytes : Nat := 256
def maxObjectPathBytes : Nat := 4096

/-- A canonical object address; its order is the local lock order. -/
structure ObjectPath where
  tenant : String
  bucket : String
  path : String
deriving DecidableEq, Repr

def ObjectPath.toKey (path : ObjectPath) : String ×ₗ String ×ₗ String :=
  toLex (path.tenant, toLex (path.bucket, path.path))

instance : LinearOrder ObjectPath := LinearOrder.lift' ObjectPath.toKey (by
    rintro ⟨t, b, p⟩ ⟨t', b', p'⟩ h
    simpa [ObjectPath.toKey] using h)

def canonicalComponent (value : String) (maximumBytes : Nat) : Bool :=
  decide (value ≠ "") && decide (value.utf8ByteSize ≤ maximumBytes) &&
    !value.toList.contains '/' && !value.toList.any isControl

def ObjectPath.new (tenant bucket path : String) : Except String ObjectPath := do
  rejectIf (canonicalComponent tenant maxObjectTenantBytes = false ∨
    canonicalComponent bucket maxObjectBucketBytes = false ∨
    path = "" ∨
    path.utf8ByteSize > maxObjectPathBytes ∨
    path.toList.head? = some '/' ∨
    path.toList.getLast? = some '/' ∨
    (∃ segment ∈ path.toList.splitOn '/', segment = [] ∨ segment = ['.'] ∨ segment = ['.', '.']) ∨
    path.toList.any isControl = true)
    "object address has an invalid tenant, bucket, or path"
  .ok ⟨tenant, bucket, path⟩

structure StringTemplate where
  text : String
deriving DecidableEq, Repr

inductive TemplatePart where
  | literal (text : List Char)
  | field (name : List Char)
deriving DecidableEq, Repr

def validateFieldName : List Char → Except String Unit
  | [] => .error "template field name must not be empty"
  | first :: rest =>
    rejectIf (¬ (first = '_' ∨ first.isAlpha = true) ∨
      ¬ rest.all (fun c => decide (c = '_') || c.isAlphanum) = true)
      s!"invalid template field name `{String.ofList (first :: rest)}`"

def validateSubstitution (name : List Char) (value : String) : Except String Unit :=
  rejectIf
    (value = "" ∨ '/' ∈ value.toList ∨ '{' ∈ value.toList ∨
      '}' ∈ value.toList ∨ '\x00' ∈ value.toList)
    s!"template value `{String.ofList name}` must be one non-empty safe path segment"

/-- What the scan of a template has read since the last completed part. -/
inductive TemplateMode where
  | inLiteral (text : List Char)
  | inField (name : List Char)

def pushLiteral (text : List Char) (parts : List TemplatePart) : List TemplatePart :=
  if text = [] then parts else .literal text :: parts

/-- The remaining parts; a field name runs to the first closing brace. -/
def scanParts : TemplateMode → List Char → Except String (List TemplatePart)
  | .inLiteral text, [] => .ok (pushLiteral text [])
  | .inField _, [] => .error "template contains an unclosed `\x7b`"
  | .inLiteral text, c :: rest =>
    if c = '{' then do
      let parts ← scanParts (.inField []) rest
      .ok (pushLiteral text parts)
    else if c = '}' then
      .error "template contains an unmatched `\x7d`"
    else if c = '\x00' then
      .error "template contains a NUL byte"
    else
      scanParts (.inLiteral (text ++ [c])) rest
  | .inField name, c :: rest =>
    if c = '}' then do
      validateFieldName name
      let parts ← scanParts (.inLiteral []) rest
      .ok (.field name :: parts)
    else
      scanParts (.inField (name ++ [c])) rest

namespace StringTemplate

def parts (template : StringTemplate) : Except String (List TemplatePart) := do
  rejectIf (template.text = "") "template must not be empty"
  scanParts (.inLiteral []) template.text.toList

def validate (template : StringTemplate) : Except String Unit := do
  let _ ← template.parts
  .ok ()

def fieldNames (parts : List TemplatePart) : List String :=
  parts.filterMap (fun part =>
    match part with
    | .literal _ => none
    | .field name => some (String.ofList name))

def placeholders (template : StringTemplate) : Except String (OrdSet String) := do
  let parts ← template.parts
  .ok (OrdSet.ofKeys (fieldNames parts))

def expandPart (values : OrdMap String String) : TemplatePart → Except String (List Char)
  | .literal text => .ok text
  | .field name => do
    let value ← okOr (values.get? (String.ofList name))
      s!"missing template value `{String.ofList name}`"
    validateSubstitution name value
    .ok value.toList

def expand (template : StringTemplate) (values : OrdMap String String) : Except String String := do
  let parts ← template.parts
  let texts ← parts.mapM (expandPart values)
  .ok (String.ofList texts.flatten)

end StringTemplate

structure PathTemplate where
  tenant : StringTemplate
  bucket : StringTemplate
  path : StringTemplate
deriving DecidableEq, Repr

namespace PathTemplate

def validate (template : PathTemplate) : Except String Unit := do
  template.tenant.validate
  template.bucket.validate
  template.path.validate
  rejectIf ('/' ∈ template.tenant.text.toList ∨ '/' ∈ template.bucket.text.toList)
    "tenant and bucket templates must not contain `/`"

def expand
    (template : PathTemplate) (values : OrdMap String String) : Except String ObjectPath := do
  let tenant ← template.tenant.expand values
  let bucket ← template.bucket.expand values
  let path ← template.path.expand values
  ObjectPath.new tenant bucket path

/-- The fields of the three templates. -/
def placeholders (template : PathTemplate) : Except String (List String) := do
  let tenant ← template.tenant.placeholders
  let bucket ← template.bucket.placeholders
  let path ← template.path.placeholders
  .ok (tenant.keys ++ bucket.keys ++ path.keys)

end PathTemplate

end Keldra.AtomicProgram
