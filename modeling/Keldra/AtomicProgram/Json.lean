import Mathlib.Data.String.Basic
import Keldra.Foundation.Machine
import Keldra.Foundation.OrdMap

/-!
# JSON values and pointers

JSON values with exact integers, and the pointer operations of the program
engine.  The members of an object are kept in ascending key order.

`select` goes through the pointer lookup of the JSON library, `set` and
`remove` through the engine's own parser and traversal.
-/

namespace Keldra.AtomicProgram

open Foundation

/-- A number is a `u64`, a negative `i64`, or the bits of a finite `f64`. -/
inductive JsonNumber where
  | posInt (value : Nat)
  | negInt (value : Int)
  | float (bits : BitVec 64)
deriving DecidableEq, Repr

namespace JsonNumber

def ofInt (value : Int) : JsonNumber :=
  if value < 0 then .negInt value else .posInt value.toNat

end JsonNumber

inductive Json where
  | null
  | bool (value : Bool)
  | number (value : JsonNumber)
  | string (value : String)
  | array (elements : List Json)
  | object (members : List (String × Json))
deriving Repr

/-- What the engine calls of the JSON library: the RFC 6901 lookup, value equality and the
exact integers of a value. -/
structure JsonLibrary where
  pointer : Json → String → Option Json
  equal : Json → Json → Bool
  asI64 : Json → Option Int
  asU64 : Json → Option Nat

/-- The value of a digit string in the pointer-sized range. -/
def parseUsize (token : List Char) : Option Nat :=
  if token ≠ [] ∧ token.all Char.isDigit = true then
    let value := token.foldl (fun n c => 10 * n + (c.toNat - 48)) 0
    if value ≤ usizeMax then some value else none
  else
    none

def decodeToken : List Char → Except String (List Char)
  | [] => .ok []
  | '~' :: '0' :: rest => do
    let decoded ← decodeToken rest
    .ok ('~' :: decoded)
  | '~' :: '1' :: rest => do
    let decoded ← decodeToken rest
    .ok ('/' :: decoded)
  | '~' :: _ => .error "JSON pointer contains an invalid `~` escape"
  | c :: rest => do
    let decoded ← decodeToken rest
    .ok (c :: decoded)

def parsePointer (pointer : String) : Except String (List (List Char)) :=
  match pointer.toList with
  | [] => .ok []
  | '/' :: rest => (rest.splitOn '/').mapM decodeToken
  | _ => .error s!"JSON pointer `{pointer}` must be empty or start with `/`"

def validatePointer (pointer : String) : Except String Unit := do
  let _ ← parsePointer pointer
  .ok ()

def parseArrayIndex (token : List Char) (pointer : String) : Except String Nat := do
  rejectIf (token = [] ∨ token = ['-'] ∨ (token.length > 1 ∧ token.head? = some '0') ∨
    ¬ token.all Char.isDigit = true)
    s!"JSON pointer `{pointer}` contains invalid array index `{String.ofList token}`"
  okOr (parseUsize token) s!"array index in JSON pointer `{pointer}` is too large"

def select (library : JsonLibrary) (value : Json) (pointer : String) : Except String Json := do
  validatePointer pointer
  okOr (library.pointer value pointer) s!"JSON pointer `{pointer}` does not exist"

/-- Apply an edit to the value the tokens lead to. -/
def editAt (pointer : String) (edit : Json → Except String Json) :
    List (List Char) → Json → Except String Json
  | [], value => edit value
  | token :: rest, .object members => do
    let child ← okOr (lookupEntry (String.ofList token) members)
      s!"JSON pointer `{pointer}` has a missing parent"
    let edited ← editAt pointer edit rest child
    .ok (.object (insertEntry (String.ofList token) edited members))
  | token :: rest, .array elements => do
    let index ← parseArrayIndex token pointer
    let child ← okOr elements[index]?
      s!"array index {index} in JSON pointer `{pointer}` is out of bounds"
    let edited ← editAt pointer edit rest child
    .ok (.array (elements.set index edited))
  | _ :: _, _ => .error s!"JSON pointer `{pointer}` traverses a scalar value"

def setMember (pointer : String) (last : List Char) (replacement : Json) : Json → Except String Json
  | .object members => .ok (.object (insertEntry (String.ofList last) replacement members))
  | .array elements => do
    let index ← parseArrayIndex last pointer
    rejectIf (elements.length ≤ index)
      s!"array index {index} in JSON pointer `{pointer}` is out of bounds"
    .ok (.array (elements.set index replacement))
  | _ => .error s!"parent of JSON pointer `{pointer}` is not an object or array"

def set (value : Json) (pointer : String) (replacement : Json) : Except String Json := do
  let tokens ← parsePointer pointer
  match tokens.getLast? with
  | none => .ok replacement
  | some last => editAt pointer (setMember pointer last replacement) tokens.dropLast value

def removeMember (pointer : String) (last : List Char) : Json → Except String Json
  | .object members => do
    let _ ← okOr (lookupEntry (String.ofList last) members)
      s!"JSON pointer `{pointer}` does not exist"
    .ok (.object (members.filter (fun e => decide (e.1 ≠ String.ofList last))))
  | .array elements => do
    let index ← parseArrayIndex last pointer
    rejectIf (elements.length ≤ index)
      s!"array index {index} in JSON pointer `{pointer}` is out of bounds"
    .ok (.array (elements.eraseIdx index))
  | _ => .error s!"parent of JSON pointer `{pointer}` is not an object or array"

def remove (value : Json) (pointer : String) : Except String Json := do
  let tokens ← parsePointer pointer
  match tokens.getLast? with
  | none => .error "root removal is handled as a document tombstone"
  | some last => editAt pointer (removeMember pointer last) tokens.dropLast value

end Keldra.AtomicProgram
