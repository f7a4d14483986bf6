import Keldra.Authz.Schema

/-!
# Authorization checks

An `Authorization` is an immutable view of one schema and its grant tuples.
A check searches the relation graph depth first.  The search gives up at a
userset of its current path, counts its steps, fails at the depth and step
limits, and remembers positive results when a batch of checks allows it.
-/

namespace Keldra.Authz

open Foundation

/-- The direct members of one userset. -/
structure DirectSubjects where
  objects : OrdSet ObjectRef
  usersets : OrdSet UsersetRef
deriving DecidableEq

structure Authorization where
  realmId : RealmId
  schema : CompiledSchema
  tuples : OrdMap UsersetRef DirectSubjects
  tupleCount : Nat
  limits : AuthorizationLimits

def selectorMatches (tuple : Tuple) : AllowedSubject → TupleSubject → Bool
  | .anyObject ns, .object s => decide (s.ns = ns) && !s.isPublic
  | .anyUserset ns relation, .userset u =>
    decide (u.object.ns = ns) && decide (u.relation = relation)
  | .exact subject, candidate => decide (subject = candidate)
  | .sameResourceId ns, .object s =>
    decide (s.ns = ns) && decide (s.id = tuple.object.id) && !s.isPublic
  | .publicSubject, .object s => s.isPublic
  | .anyObject _, .userset _ => false
  | .anyUserset _ _, .object _ => false
  | .sameResourceId _, .userset _ => false
  | .publicSubject, .userset _ => false

def validateGrantee (schema : CompiledSchema) : TupleSubject → Except String Unit
  | .object s => validateObject s
  | .userset u => do
    validateUserset u
    let _ ← (schema.requireRelation u.object.ns u.relation).mapError AuthorizationError.toText
    .ok ()

def validateTuple (schema : CompiledSchema) (tuple : Tuple) : Except String Unit := do
  validateObject tuple.object
  validateRelation tuple.relation
  let allowed ← (schema.directAllowed ⟨tuple.object, tuple.relation⟩).mapError
    AuthorizationError.toText
  validateGrantee schema tuple.subject
  rejectIf (¬ ∃ selector ∈ allowed.keys, selectorMatches tuple selector tuple.subject = true)
    s!"subject is not allowed on direct relation `{tuple.object.ns}#{tuple.relation}`"

namespace DirectSubjects

def empty : DirectSubjects := ⟨OrdMap.empty, OrdMap.empty⟩

def contains (members : DirectSubjects) : TupleSubject → Bool
  | .object s => members.objects.contains s
  | .userset u => members.usersets.contains u

def insert (members : DirectSubjects) : TupleSubject → DirectSubjects
  | .object s => { members with objects := members.objects.insert s () }
  | .userset u => { members with usersets := members.usersets.insert u () }

end DirectSubjects

/-- The members indexed under a userset so far. -/
def membersOf
    (indexed : OrdMap UsersetRef DirectSubjects) (userset : UsersetRef) : DirectSubjects :=
  (indexed.get? userset).getD DirectSubjects.empty

def indexTuples (schema : CompiledSchema) (limits : AuthorizationLimits) :
    Nat → List Tuple → OrdMap UsersetRef DirectSubjects → Result (OrdMap UsersetRef DirectSubjects)
  | _, [], indexed => .ok indexed
  | index, tuple :: rest, indexed => do
    rejectIf (index + 1 > limits.maxTuples) (.invalidSchema
      s!"tuple set has {index + 1} entries, exceeding {limits.maxTuples}")
    (validateTuple schema tuple).mapError (.invalidTuple index)
    let userset : UsersetRef := ⟨tuple.object, tuple.relation⟩
    let members := membersOf indexed userset
    rejectIf (members.contains tuple.subject = true) (.invalidTuple index "duplicate tuple")
    indexTuples schema limits (index + 1) rest
      (indexed.insert userset (members.insert tuple.subject))

def Authorization.new (realmId : RealmId) (schema : Schema) (tuples : List Tuple)
    (limits : AuthorizationLimits) : Result Authorization := do
  let compiled ← CompiledSchema.compile schema limits
  let indexed ← indexTuples compiled limits 0 tuples OrdMap.empty
  .ok
    { realmId := realmId
      schema := compiled
      tuples := indexed
      tupleCount := tuples.length
      limits := limits }

/-- The state of one search; `allowed` is shared by the checks of a batch. -/
structure Evaluator where
  visited : OrdSet UsersetRef
  allowed : OrdSet (ObjectRef ×ₗ UsersetRef)
  maxAllowed : Nat
  steps : Nat
deriving DecidableEq

/-- A search that answers or fails at a limit. -/
abbrev Search := Evaluator → Result (Bool × Evaluator)

namespace Evaluator

/-- `saturating_add(1)`. -/
def saturatingSucc (n : Nat) : Nat :=
  if n < usizeMax then n + 1 else n

def step (limits : AuthorizationLimits) (evaluator : Evaluator) : Result Evaluator := do
  rejectIf (saturatingSucc evaluator.steps > limits.maxSteps)
    (.evaluationLimit "step" limits.maxSteps)
  .ok { evaluator with steps := saturatingSucc evaluator.steps }

/-- The memo is consulted only when it may hold something. -/
def remembers (evaluator : Evaluator) (subject : ObjectRef) (userset : UsersetRef) : Bool :=
  decide (evaluator.maxAllowed ≠ 0) && evaluator.allowed.contains (toLex (subject, userset))

def enter (evaluator : Evaluator) (userset : UsersetRef) : Evaluator :=
  { evaluator with visited := evaluator.visited.insert userset () }

def leave (evaluator : Evaluator) (userset : UsersetRef) : Evaluator :=
  { evaluator with visited := evaluator.visited.erase userset }

def remember (evaluator : Evaluator) (subject : ObjectRef) (userset : UsersetRef)
    (result : Bool) : Evaluator :=
  if result = true ∧ evaluator.allowed.size < evaluator.maxAllowed ∧ evaluator.maxAllowed ≠ 0 then
    { evaluator with allowed := evaluator.allowed.insert (toLex (subject, userset)) () }
  else
    evaluator

end Evaluator

/-- Run the searches of the items in order, one step each, up to the first
hit. -/
def firstHit {α : Type} (limits : AuthorizationLimits) (search : α → Search) : List α → Search
  | [], evaluator => .ok (false, evaluator)
  | item :: rest, evaluator => do
    let evaluator ← evaluator.step limits
    let found ← search item evaluator
    if found.1 = true then .ok found else firstHit limits search rest found.2

section

variable (authorization : Authorization) (resolve : UsersetRef → Search)

def resolveDirect (subject : ObjectRef) (userset : UsersetRef) : Search :=
  match authorization.tuples.get? userset with
  | none => fun evaluator => .ok (false, evaluator)
  | some members =>
    if members.objects.contains subject = true then
      fun evaluator => .ok (true, evaluator)
    else
      firstHit authorization.limits resolve members.usersets.keys

/-- The objects a tuple-to-userset rule continues at. -/
def DirectSubjects.targets (members : DirectSubjects) : List ObjectRef :=
  members.objects.keys ++ members.usersets.keys.map UsersetRef.object

def resolveRule (userset : UsersetRef) : RewriteRule → Search
  | .inherit relation => resolve ⟨userset.object, relation⟩
  | .tupleToUserset tupleRelation targetRelation =>
    match authorization.tuples.get? ⟨userset.object, tupleRelation⟩ with
    | none => fun evaluator => .ok (false, evaluator)
    | some members =>
      firstHit authorization.limits resolve
        (members.targets.map (fun target => ⟨target, targetRelation⟩))

def resolveRules (userset : UsersetRef) : List RewriteRule → Search :=
  firstHit authorization.limits (resolveRule authorization resolve userset)

def resolveRelation (subject : ObjectRef) (userset : UsersetRef) : CompiledRelation → Search
  | .direct _ => resolveDirect authorization resolve subject userset
  | .permission rules => resolveRules authorization resolve userset rules

end

/-- The search at a userset with `remaining = max_depth - depth` levels left. -/
def resolve (authorization : Authorization) (subject : ObjectRef) : Nat → UsersetRef → Search
  | 0, _, _ => .error (.evaluationLimit "depth" authorization.limits.maxDepth)
  | remaining + 1, userset, evaluator => do
    let evaluator ← evaluator.step authorization.limits
    if evaluator.remembers subject userset = true then
      .ok (true, evaluator)
    else if evaluator.visited.contains userset = true then
      .ok (false, evaluator)
    else do
      let relation ← authorization.schema.requireRelation userset.object.ns userset.relation
      let found ← resolveRelation authorization
        (resolve authorization subject remaining) subject userset
        relation (evaluator.enter userset)
      .ok (found.1, (found.2.leave userset).remember subject userset found.1)

namespace AuthorizationCheck

/-- The userset whose membership is checked. -/
def userset (check : AuthorizationCheck) : UsersetRef :=
  ⟨check.object, check.relation⟩

end AuthorizationCheck

namespace Authorization

section

variable (authorization : Authorization)

/-- One check; returns the answer and the memo it leaves behind. -/
def checkWithMemo (check : AuthorizationCheck)
    (allowed : OrdSet (ObjectRef ×ₗ UsersetRef)) (maxAllowed : Nat) :
    Result (Bool × OrdSet (ObjectRef ×ₗ UsersetRef)) := do
  (validateObject check.subject).mapError .invalidCheck
  (validateObject check.object).mapError .invalidCheck
  (validateRelation check.relation).mapError .invalidCheck
  let _ ← authorization.schema.requireRelation check.object.ns check.relation
  let found ← resolve authorization check.subject authorization.limits.maxDepth check.userset
    { visited := OrdMap.empty, allowed := allowed, maxAllowed := maxAllowed, steps := 0 }
  .ok (found.1, found.2.allowed)

def check (check : AuthorizationCheck) : Result Bool := do
  let found ← authorization.checkWithMemo check OrdMap.empty 0
  .ok found.1

/-- The checks of a batch in order, each with the memo of the ones before. -/
def checkInOrder (authorization : Authorization) (maxAllowed : Nat) :
    List AuthorizationCheck → OrdSet (ObjectRef ×ₗ UsersetRef) → Result (List Bool)
  | [], _ => .ok []
  | check :: rest, allowed => do
    let found ← authorization.checkWithMemo check allowed maxAllowed
    let answers ← checkInOrder authorization maxAllowed rest found.2
    .ok (found.1 :: answers)

def checkMany (checks : List AuthorizationCheck) : Result (List Bool) :=
  authorization.checkInOrder (min (min (checks.length * authorization.limits.maxDepth) usizeMax)
    authorization.limits.maxSteps)
    checks OrdMap.empty

end

end Authorization

end Keldra.Authz
