import Keldra.Foundation.OrdMap
import Keldra.Authz.Model

/-!
# Schema compilation

A schema is compiled to maps from namespace and relation names to their
definitions.  Compilation rejects duplicate names, selectors and rules, so a
compiled lookup finds the one definition of the source schema
(`relation_eq_some_iff`, `hasRule_iff`).
-/

namespace Keldra.Authz

open Foundation

inductive CompiledRelation where
  | direct (allowedSubjects : OrdSet AllowedSubject)
  | permission (rules : List RewriteRule)
deriving DecidableEq

structure CompiledNamespace where
  relations : OrdMap String CompiledRelation
deriving DecidableEq

structure CompiledSchema where
  namespaces : OrdMap String CompiledNamespace
deriving DecidableEq

def validateItemCount (ns : String) (relation : RelationDefinition) (count : Nat)
    (limits : AuthorizationLimits) : Result Unit := do
  rejectIf (count = 0) (.invalidSchema s!"relation `{ns}#{relation.name}` must not be empty")
  rejectIf (count > limits.maxItemsPerRelation) (.invalidSchema
    s!"relation `{ns}#{relation.name}` has {count} items, exceeding {limits.maxItemsPerRelation}")

/-- Only the public selector may name the public subject. -/
def validateExactSubject : TupleSubject → Result Unit
  | .object o => do
    (validateTupleSubject (.object o)).mapError .invalidSchema
    rejectIf (o.isPublic = true) (.invalidSchema
      "the reserved public subject must use the public selector")
  | .userset u => do
    (validateTupleSubject (.userset u)).mapError .invalidSchema
    (validateUserset u).mapError .invalidSchema

def validateAllowedSubject : AllowedSubject → Result Unit
  | .anyObject ns => (validateNamespace ns).mapError .invalidSchema
  | .sameResourceId ns => (validateNamespace ns).mapError .invalidSchema
  | .anyUserset ns relation => do
    (validateNamespace ns).mapError .invalidSchema
    (validateRelation relation).mapError .invalidSchema
  | .exact subject => validateExactSubject subject
  | .publicSubject => .ok ()

def validateRule : RewriteRule → Result Unit
  | .inherit relation => (validateRelation relation).mapError .invalidSchema
  | .tupleToUserset tupleRelation targetRelation => do
    (validateRelation tupleRelation).mapError .invalidSchema
    (validateRelation targetRelation).mapError .invalidSchema

def compileKind (ns : String) (relation : RelationDefinition) (limits : AuthorizationLimits) :
    RelationKind → Result CompiledRelation
  | .direct allowedSubjects => do
    validateItemCount ns relation allowedSubjects.length limits
    let allowed ← collectUnique id validateAllowedSubject
      (fun _ => .invalidSchema s!"duplicate allowed subject on `{ns}#{relation.name}`")
      allowedSubjects OrdMap.empty
    .ok (.direct allowed)
  | .permission rules => do
    validateItemCount ns relation rules.length limits
    let canonical ← collectUnique id validateRule
      (fun _ => .invalidSchema s!"duplicate rewrite rule on `{ns}#{relation.name}`")
      rules OrdMap.empty
    .ok (.permission canonical.keys)

def compileRelation (ns : String) (limits : AuthorizationLimits)
    (relation : RelationDefinition) : Result CompiledRelation := do
  (validateRelation relation.name).mapError .invalidSchema
  compileKind ns relation limits relation.kind

def compileNamespace (limits : AuthorizationLimits)
    (definition : NamespaceDefinition) : Result CompiledNamespace := do
  (validateNamespace definition.name).mapError .invalidSchema
  rejectIf (definition.relations = []) (.invalidSchema
    s!"namespace `{definition.name}` must contain at least one relation")
  rejectIf (definition.relations.length > limits.maxRelationsPerNamespace) (.invalidSchema
    (s!"namespace `{definition.name}` has {definition.relations.length} relations, " ++
      s!"exceeding {limits.maxRelationsPerNamespace}"))
  let relations ← collectUnique RelationDefinition.name (compileRelation definition.name limits)
    (fun relation => .invalidSchema s!"duplicate relation `{definition.name}#{relation.name}`")
    definition.relations OrdMap.empty
  .ok ⟨relations⟩

/-- Where following a tuple of the selector leads: the namespace of the object,
and the relation a userset selector fixes. -/
def tupleTarget : AllowedSubject → Option (String × Option String)
  | .anyObject ns => some (ns, none)
  | .sameResourceId ns => some (ns, none)
  | .anyUserset ns relation => some (ns, some relation)
  | .exact (.object o) => some (o.ns, none)
  | .exact (.userset u) => some (u.object.ns, some u.relation)
  | .publicSubject => none

namespace CompiledSchema

section

variable (schema : CompiledSchema)

def relation (ns relation : String) : Option CompiledRelation :=
  match schema.namespaces.get? ns with
  | some compiled => compiled.relations.get? relation
  | none => none

def requireRelation (ns relation : String) : Result CompiledRelation :=
  okOr (schema.relation ns relation) (.invalidCheck s!"relation `{ns}#{relation}` is not declared")

def requireSchemaRelation (ns relation label : String) : Result CompiledRelation :=
  okOr (schema.relation ns relation) (.invalidSchema s!"{label} `{ns}#{relation}` is not declared")

def directAllowed (userset : UsersetRef) : Result (OrdSet AllowedSubject) :=
  match schema.relation userset.object.ns userset.relation with
  | some (.direct allowedSubjects) => .ok allowedSubjects
  | some (.permission _) =>
    .error (.invalidSchema
      s!"permission `{userset.object.ns}#{userset.relation}` cannot be written as a tuple")
  | none =>
    .error (.invalidSchema
      s!"tuple targets undeclared relation `{userset.object.ns}#{userset.relation}`")

def validateAllowedReference : AllowedSubject → Result Unit
  | .anyUserset ns relation => do
    let _ ← schema.requireSchemaRelation ns relation "allowed userset"
    .ok ()
  | .exact (.userset u) => do
    let _ ← schema.requireSchemaRelation u.object.ns u.relation "allowed userset"
    .ok ()
  | .anyObject _ => .ok ()
  | .exact (.object _) => .ok ()
  | .sameResourceId _ => .ok ()
  | .publicSubject => .ok ()

end

def validateConstrainedRelation (targetNamespace targetRelation : String) :
    Option String → Result Unit
  | some relation =>
    rejectIf (relation ≠ targetRelation) (.invalidSchema
      (s!"tuple-to-userset target `{targetNamespace}#{targetRelation}` conflicts with " ++
        s!"allowed userset relation `{relation}`"))
  | none => .ok ()

def validateTupleTarget (schema : CompiledSchema) (ns tupleRelation targetRelation : String)
    (allowed : AllowedSubject) : Result Unit := do
  let target ← okOr (tupleTarget allowed) (.invalidSchema
    s!"tuple-to-userset source `{ns}#{tupleRelation}` cannot allow the public subject")
  validateConstrainedRelation target.1 targetRelation target.2
  let _ ← schema.requireSchemaRelation target.1 targetRelation "tuple-to-userset target"
  .ok ()

def directSource (ns relation tupleRelation : String) :
    CompiledRelation → Result (OrdSet AllowedSubject)
  | .direct allowedSubjects => .ok allowedSubjects
  | .permission _ =>
    .error (.invalidSchema
      s!"tuple-to-userset source `{ns}#{tupleRelation}` for `{ns}#{relation}` is not direct")

def validateRuleReference
    (schema : CompiledSchema) (ns relation : String) : RewriteRule → Result Unit
  | .inherit inherited => do
    let _ ← schema.requireSchemaRelation ns inherited "inherited"
    .ok ()
  | .tupleToUserset tupleRelation targetRelation => do
    let source ← schema.requireSchemaRelation ns tupleRelation "tuple-to-userset source"
    let allowedSubjects ← directSource ns relation tupleRelation source
    allowedSubjects.keys.forM (schema.validateTupleTarget ns tupleRelation targetRelation)

def validateRelationReferences
    (schema : CompiledSchema) (ns relation : String) : CompiledRelation → Result Unit
  | .direct allowedSubjects => allowedSubjects.keys.forM schema.validateAllowedReference
  | .permission rules => rules.forM (schema.validateRuleReference ns relation)

def validateReferences (schema : CompiledSchema) : Result Unit :=
  schema.namespaces.entries.forM (fun compiled =>
    compiled.2.relations.entries.forM (fun relation =>
      schema.validateRelationReferences compiled.1 relation.1 relation.2))

def compile (schema : Schema) (limits : AuthorizationLimits) : Result CompiledSchema := do
  limits.validate
  rejectIf (schema.namespaces = []) (.invalidSchema "schema must contain at least one namespace")
  rejectIf (schema.namespaces.length > limits.maxNamespaces) (.invalidSchema
    s!"schema has {schema.namespaces.length} namespaces, exceeding {limits.maxNamespaces}")
  let namespaces ← collectUnique NamespaceDefinition.name (compileNamespace limits)
    (fun definition => .invalidSchema s!"duplicate namespace `{definition.name}`")
    schema.namespaces OrdMap.empty
  validateReferences ⟨namespaces⟩
  .ok ⟨namespaces⟩

end CompiledSchema

/-- The source schema declares the permission with the rule among its rules. -/
def Schema.HasRule (schema : Schema) (ns relation : String) (rule : RewriteRule) : Prop :=
  ∃ definition ∈ schema.namespaces, definition.name = ns ∧ ∃ declared ∈ definition.relations,
    declared.name = relation ∧ ∃ rules, declared.kind = .permission rules ∧ rule ∈ rules

section

variable {limits : AuthorizationLimits} {compiled : CompiledSchema} {schema : Schema}

theorem mem_keys_collectUnique {κ : Type} [LinearOrder κ] {check : κ → Result Unit}
    {duplicate : κ → AuthorizationError} {elements : List κ} {collected : OrdSet κ}
    (h : collectUnique id check duplicate elements OrdMap.empty = .ok collected) (a : κ) :
    a ∈ collected.keys ↔ a ∈ elements := by
  rw [OrdMap.mem_keys_iff]
  constructor
  · rintro ⟨⟨⟩, hget⟩
    obtain ⟨b, hb, hba, _⟩ := (get?_collectUnique_empty h a ()).mp hget
    exact hba ▸ hb
  intro ha
  obtain ⟨⟨⟩, hcheck⟩ := collectUnique_compiles h ha
  exact ⟨(), (get?_collectUnique_empty h a ()).mpr ⟨a, ha, rfl, hcheck⟩⟩

theorem compileRelation_eq_permission {ns : String} {relation : RelationDefinition}
    {rules : List RewriteRule}
    (h : compileRelation ns limits relation = .ok (.permission rules)) :
    ∃ declared, relation.kind = .permission declared ∧ ∀ rule, rule ∈ rules ↔ rule ∈ declared := by
  simp only [compileRelation, ok_rules] at h
  obtain ⟨_, h⟩ := h
  cases hkind : relation.kind with
  | direct => simp [hkind, compileKind] at h
  | permission declared =>
    simp only [hkind, compileKind, ok_rules] at h
    obtain ⟨_, _, hcanonical, hrules⟩ := h
    cases hrules
    exact ⟨declared, rfl, mem_keys_collectUnique hcanonical⟩

theorem compileRelation_eq_direct {ns : String} {relation : RelationDefinition}
    {allowedSubjects : OrdSet AllowedSubject}
    (h : compileRelation ns limits relation = .ok (.direct allowedSubjects)) :
    ∃ declared, relation.kind = .direct declared ∧
    ∀ allowed, allowed ∈ allowedSubjects.keys ↔ allowed ∈ declared := by
  simp only [compileRelation, ok_rules] at h
  obtain ⟨_, h⟩ := h
  cases hkind : relation.kind with
  | direct declared =>
    simp only [hkind, compileKind, ok_rules] at h
    obtain ⟨_, _, hcollected, hallowed⟩ := h
    cases hallowed
    exact ⟨declared, rfl, mem_keys_collectUnique hcollected⟩
  | permission => simp [hkind, compileKind] at h

theorem compileNamespace_eq_ok {definition : NamespaceDefinition}
    {compiled : CompiledNamespace} (h : compileNamespace limits definition = .ok compiled) :
    ∃ duplicate, collectUnique RelationDefinition.name
    (compileRelation definition.name limits) duplicate
    definition.relations OrdMap.empty = .ok compiled.relations := by
  simp only [compileNamespace, ok_rules] at h
  obtain ⟨_, _, _, _, hrelations, hcompiled⟩ := h
  cases hcompiled
  exact ⟨_, hrelations⟩

theorem compile_eq_ok (h : CompiledSchema.compile schema limits = .ok compiled) :
    (∃ duplicate, collectUnique NamespaceDefinition.name (compileNamespace limits)
    duplicate schema.namespaces OrdMap.empty = .ok compiled.namespaces) ∧
    compiled.validateReferences = .ok () := by
  simp only [CompiledSchema.compile, ok_rules] at h
  obtain ⟨_, _, _, _, hnamespaces, hreferences, hcompiled⟩ := h
  cases hcompiled
  exact ⟨⟨_, hnamespaces⟩, hreferences⟩

theorem relation_eq_some {ns name : String} {relation : CompiledRelation} :
    compiled.relation ns name = some relation ↔ ∃ space, compiled.namespaces.get? ns = some space ∧
    space.relations.get? name = some relation := by
  unfold CompiledSchema.relation
  cases compiled.namespaces.get? ns <;> simp

section

variable (h : CompiledSchema.compile schema limits = .ok compiled)

include h

/-- A compiled lookup finds exactly the compiled declarations of the schema. -/
theorem relation_eq_some_iff (ns name : String) (relation : CompiledRelation) :
    compiled.relation ns name = some relation ↔ ∃ definition ∈ schema.namespaces,
    definition.name = ns ∧ ∃ declared ∈ definition.relations, declared.name = name ∧
    compileRelation ns limits declared = .ok relation := by
  obtain ⟨⟨_, hnamespaces⟩, _⟩ := compile_eq_ok h
  rw [relation_eq_some]
  constructor
  · rintro ⟨space, hspace, hrelation⟩
    obtain ⟨definition, hmem, hname, hcompile⟩ :=
      (get?_collectUnique_empty hnamespaces ns space).mp hspace
    obtain ⟨_, hrelations⟩ := compileNamespace_eq_ok hcompile
    obtain ⟨declared, hdeclared, hdeclaredName, hkind⟩ :=
      (get?_collectUnique_empty hrelations name relation).mp hrelation
    exact ⟨definition, hmem, hname, declared, hdeclared, hdeclaredName, hname ▸ hkind⟩
  rintro ⟨definition, hmem, hname, declared, hdeclared, hdeclaredName, hkind⟩
  obtain ⟨space, hspace⟩ := collectUnique_compiles hnamespaces hmem
  obtain ⟨_, hrelations⟩ := compileNamespace_eq_ok hspace
  subst hname
  exact ⟨space, (get?_collectUnique_empty hnamespaces _ space).mpr ⟨definition, hmem, rfl,
    hspace⟩, (get?_collectUnique_empty hrelations name relation).mpr ⟨declared, hdeclared,
    hdeclaredName, hkind⟩⟩

theorem exists_relation_of_declared {definition : NamespaceDefinition}
    {declared : RelationDefinition}
    (hmem : definition ∈ schema.namespaces)
    (hdeclared : declared ∈ definition.relations) :
    ∃ relation, compileRelation definition.name limits declared = .ok relation ∧
    compiled.relation definition.name declared.name = some relation := by
  obtain ⟨⟨_, hnamespaces⟩, _⟩ := compile_eq_ok h
  obtain ⟨_, hspace⟩ := collectUnique_compiles hnamespaces hmem
  obtain ⟨_, hrelations⟩ := compileNamespace_eq_ok hspace
  obtain ⟨relation, hrelation⟩ := collectUnique_compiles hrelations hdeclared
  exact ⟨relation, hrelation, (relation_eq_some_iff h _ _ _).mpr
    ⟨definition, hmem, rfl, declared, hdeclared, rfl, hrelation⟩⟩

/-- The rules of the schema are the rules of its compiled permissions. -/
theorem hasRule_iff (ns name : String) (rule : RewriteRule) :
    schema.HasRule ns name rule ↔ ∃ rules, compiled.relation ns name = some (.permission rules) ∧
    rule ∈ rules := by
  constructor
  · rintro ⟨_, hmem, rfl, _, hdeclared, rfl, _, hkind, hrule⟩
    obtain ⟨relation, hcompile, hrelation⟩ := exists_relation_of_declared h hmem hdeclared
    cases relation with
    | direct =>
      obtain ⟨_, hdirect, _⟩ := compileRelation_eq_direct hcompile
      rw [hkind] at hdirect
      cases hdirect
    | permission compiledRules =>
      obtain ⟨_, hpermission, hrules⟩ := compileRelation_eq_permission hcompile
      rw [hkind] at hpermission
      cases hpermission
      exact ⟨compiledRules, hrelation, (hrules rule).mpr hrule⟩
  · rintro ⟨_, hrelation, hrule⟩
    obtain ⟨definition, hmem, hname, declared, hdeclared, hdeclaredName,
      hcompile⟩ := (relation_eq_some_iff h ns name _).mp hrelation
    obtain ⟨source, hkind, hrules⟩ := compileRelation_eq_permission hcompile
    exact ⟨definition, hmem, hname, declared, hdeclared, hdeclaredName, source,
      hkind, (hrules rule).mp hrule⟩

end

end

end Keldra.Authz
