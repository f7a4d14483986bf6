import Keldra.Foundation.PathSearch
import Keldra.Authz.Evaluator

/-!
# The relation graph

The meaning of a schema and its tuples.  The usersets a subject belongs to are
the least fixed point of one round of direct grants, nested usersets, inherited
relations and tuple-to-userset rules, stated over the source schema and the
tuples as they were given.

`reflects_new` connects the maps of a compiled `Authorization` to this graph.
-/

namespace Keldra.Authz

open Foundation DirectSubjects

/-- The object a tuple's subject names. -/
def TupleSubject.named : TupleSubject → ObjectRef
  | .object o => o
  | .userset u => u.object

section

variable (schema : Schema) (tuples : List Tuple)

/-- The edges along which membership is inherited. -/
inductive RelationEdge : UsersetRef → UsersetRef → Prop
  | nested {object : ObjectRef} {relation : String} {member : UsersetRef}
      (hgrant : ⟨object, relation, .userset member⟩ ∈ tuples) :
      RelationEdge ⟨object, relation⟩ member
  | inherit {object : ObjectRef} {relation inherited : String}
      (hrule : schema.HasRule object.ns relation (.inherit inherited)) :
      RelationEdge ⟨object, relation⟩ ⟨object, inherited⟩
  | tupleToUserset {object : ObjectRef} {relation tupleRelation targetRelation : String}
      {subject : TupleSubject}
      (hrule : schema.HasRule object.ns relation (.tupleToUserset tupleRelation targetRelation))
      (hgrant : ⟨object, tupleRelation, subject⟩ ∈ tuples) :
      RelationEdge ⟨object, relation⟩ ⟨subject.named, targetRelation⟩

/-- The graph searched for one subject; its goals are the direct grants. -/
def relationGraph (subject : ObjectRef) : SearchGraph UsersetRef where
  goal := fun userset => ⟨userset.object, userset.relation, .object subject⟩ ∈ tuples
  edge := RelationEdge schema tuples

/-- The usersets the subject belongs to. -/
def memberships (subject : ObjectRef) : Set UsersetRef :=
  (relationGraph schema tuples subject).reaching

end

theorem memberships_mono {tuples' : List Tuple} {subject : ObjectRef}
    (hmore : tuples ⊆ tuples') :
    memberships schema tuples subject ⊆ memberships schema tuples' subject := by
  refine SearchGraph.reaching_mono (fun _ hgoal => hmore hgoal) fun _ _ hedge => ?_
  cases hedge with
  | nested hgrant => exact .nested (hmore hgrant)
  | inherit hrule => exact .inherit hrule
  | tupleToUserset hrule hgrant => exact .tupleToUserset hrule (hmore hgrant)

/-- The tuple is in the compiled index. -/
def Authorization.Holds (authorization : Authorization) (tuple : Tuple) : Prop :=
  (membersOf authorization.tuples ⟨tuple.object, tuple.relation⟩).contains tuple.subject = true

/-- The compiled maps hold exactly the rules and tuples of their source. -/
structure Authorization.Reflects
    (authorization : Authorization) (schema : Schema) (tuples : List Tuple) : Prop where
  hasRule : ∀ ns relation rule, schema.HasRule ns relation rule ↔ ∃ rules,
    authorization.schema.relation ns relation = some (.permission rules) ∧ rule ∈ rules
  holds : ∀ tuple, tuple ∈ tuples ↔ authorization.Holds tuple
  /-- Tuples are written on direct relations only. -/
  direct : ∀ tuple ∈ tuples, ∃ allowedSubjects,
    authorization.schema.relation tuple.object.ns tuple.relation = some (.direct allowedSubjects)

variable {limits : AuthorizationLimits}

theorem DirectSubjects.contains_insert (members : DirectSubjects) (subject added : TupleSubject) :
    (members.insert added).contains subject = true ↔
    subject = added ∨ members.contains subject = true := by
  cases added with
  | object | userset =>
    cases subject with
    | object | userset => simp [insert, contains, OrdMap.contains_insert]

theorem membersOf_insert (indexed : OrdMap UsersetRef DirectSubjects) (userset other : UsersetRef)
    (members : DirectSubjects) : membersOf (indexed.insert userset members) other =
    if other = userset then members else membersOf indexed other := by
  unfold membersOf
  rw [OrdMap.get?_insert]
  by_cases h : other = userset
  · simp [h]
  · simp [h]

theorem not_contains_membersOf_empty (userset : UsersetRef) (subject : TupleSubject) :
    (membersOf OrdMap.empty userset).contains subject = false := by
  cases subject <;> rfl

/-- Indexing one tuple adds that tuple and nothing else. -/
theorem contains_index_tuple (indexed : OrdMap UsersetRef DirectSubjects) (tuple added : Tuple) :
    (membersOf (indexed.insert ⟨added.object, added.relation⟩
    ((membersOf indexed ⟨added.object, added.relation⟩).insert added.subject))
    ⟨tuple.object, tuple.relation⟩).contains tuple.subject = true ↔
    tuple = added ∨ (membersOf indexed ⟨tuple.object, tuple.relation⟩).contains
    tuple.subject = true := by
  obtain ⟨object, relation, subject⟩ := tuple
  obtain ⟨object', relation', subject'⟩ := added
  rw [membersOf_insert]
  by_cases h : (⟨object, relation⟩ : UsersetRef) = ⟨object', relation'⟩
  · obtain ⟨rfl, rfl⟩ := h
    simp [contains_insert]
  have hne : ¬ (object = object' ∧ relation = relation') := by simpa using h
  have hne' : ¬ (object = object' ∧ relation = relation' ∧
      subject = subject') := fun hall => hne ⟨hall.1, hall.2.1⟩
  simp [hne, hne']

theorem indexTuples_spec {index : Nat} {indexed indexed' : OrdMap UsersetRef DirectSubjects}
    (h : indexTuples schema limits index tuples indexed = .ok indexed') :
    (∀ tuple : Tuple, (membersOf indexed' ⟨tuple.object, tuple.relation⟩).contains
    tuple.subject = true ↔
    tuple ∈ tuples ∨ (membersOf indexed ⟨tuple.object, tuple.relation⟩).contains
    tuple.subject = true) ∧ ∀ tuple ∈ tuples, validateTuple schema tuple = .ok () := by
  induction tuples generalizing index indexed with
  | nil =>
    cases h
    simp
  | cons _ _ ih =>
    simp only [indexTuples, ok_rules, mapError_eq_ok] at h
    obtain ⟨_, hvalid, _, hrest⟩ := h
    obtain ⟨hcontains, hrestValid⟩ := ih hrest
    constructor
    · intro tuple
      rw [hcontains tuple, contains_index_tuple, List.mem_cons]
      tauto
    intro tuple htuple
    rcases List.mem_cons.mp htuple with rfl | htuple
    · exact hvalid
    · exact hrestValid tuple htuple

/-- A tuple is accepted on a direct relation only. -/
theorem relation_of_validateTuple {tuple : Tuple}
    (h : validateTuple schema tuple = .ok ()) :
    ∃ allowedSubjects, schema.relation tuple.object.ns tuple.relation =
    some (.direct allowedSubjects) := by
  simp only [validateTuple, ok_rules, mapError_eq_ok] at h
  obtain ⟨_, _, _, hallowed, _⟩ := h
  unfold CompiledSchema.directAllowed at hallowed
  split at hallowed
  · exact ⟨_, ‹_›⟩
  · cases hallowed
  · cases hallowed

variable {authorization : Authorization}

theorem Authorization.reflects_new {realmId : RealmId} {schema : Schema} {tuples : List Tuple}
    (h : Authorization.new realmId schema tuples limits = .ok authorization) :
    authorization.Reflects schema tuples := by
  simp only [Authorization.new, bind_eq_ok] at h
  obtain ⟨_, hcompile, _, hindex, hauthorization⟩ := h
  cases hauthorization
  obtain ⟨hcontains, hvalid⟩ := indexTuples_spec hindex
  constructor
  · exact hasRule_iff hcompile
  · intro tuple
    rw [Authorization.Holds, hcontains tuple, not_contains_membersOf_empty]
    simp
  intro tuple htuple
  exact relation_of_validateTuple (hvalid tuple htuple)

section

theorem mem_targets (members : DirectSubjects) (target : ObjectRef) : target ∈ members.targets ↔
    ∃ subject, members.contains subject = true ∧ subject.named = target := by
  simp only [targets, List.mem_append, List.mem_map]
  constructor
  · rintro (hobject | ⟨userset, huserset, rfl⟩)
    · exact ⟨.object target, (OrdSet.contains_iff_mem_keys _ _).mpr hobject, rfl⟩
    · exact ⟨.userset userset, (OrdSet.contains_iff_mem_keys _ _).mpr huserset, rfl⟩
  rintro ⟨subject, hcontains, rfl⟩
  cases subject with
  | object o => exact Or.inl ((OrdSet.contains_iff_mem_keys _ _).mp hcontains)
  | userset u => exact Or.inr ⟨u, (OrdSet.contains_iff_mem_keys _ _).mp hcontains, rfl⟩

/-- Where one rule of a permission leads. -/
def ruleTargets
    (authorization : Authorization) (userset : UsersetRef) : RewriteRule → List UsersetRef
  | .inherit relation => [⟨userset.object, relation⟩]
  | .tupleToUserset tupleRelation targetRelation =>
    (membersOf authorization.tuples ⟨userset.object, tupleRelation⟩).targets.map
      (fun target => ⟨target, targetRelation⟩)

variable {schema : Schema} {tuples : List Tuple}

namespace Authorization.Reflects

variable {userset : UsersetRef} {rules : List RewriteRule}

section

variable (hreflects : authorization.Reflects schema tuples)

include hreflects

/-- A direct relation is searched through its tuples. -/
theorem edge_of_direct {allowedSubjects : OrdSet AllowedSubject}
    (hdirect : authorization.schema.relation userset.object.ns
    userset.relation = some (.direct allowedSubjects)) (next : UsersetRef) :
    RelationEdge schema tuples userset next ↔
    (membersOf authorization.tuples userset).usersets.contains next = true := by
  have hnorule : ∀ rule, ¬ schema.HasRule userset.object.ns userset.relation rule := by
    intro _ hrule
    obtain ⟨_, hrules, _⟩ := (hreflects.hasRule _ _ _).mp hrule
    rw [hdirect] at hrules
    cases hrules
  constructor
  · intro hedge
    cases hedge with
    | nested hgrant => exact (hreflects.holds _).mp hgrant
    | inherit hrule => exact absurd hrule (hnorule _)
    | tupleToUserset hrule => exact absurd hrule (hnorule _)
  intro hcontains
  exact RelationEdge.nested ((hreflects.holds _).mpr hcontains)

variable
  (hpermission : authorization.schema.relation userset.object.ns userset.relation =
    some (.permission rules))

include hpermission

/-- A permission has no tuples of its own. -/
theorem no_tuple_of_permission (subject : TupleSubject) :
    ⟨userset.object, userset.relation, subject⟩ ∉ tuples := by
  intro hmem
  obtain ⟨_, hdirect⟩ := hreflects.direct _ hmem
  have hboth := hdirect.symm.trans hpermission
  cases hboth

/-- A permission is searched through the targets of its rules. -/
theorem edge_of_permission (next : UsersetRef) : RelationEdge schema tuples userset next ↔
    ∃ rule ∈ rules, next ∈ ruleTargets authorization userset rule := by
  have hrules : ∀ rule, schema.HasRule userset.object.ns userset.relation rule ↔ rule ∈ rules := by
    intro _
    rw [hreflects.hasRule, hpermission]
    simp
  constructor
  · intro hedge
    cases hedge with
    | nested hgrant => exact absurd hgrant (hreflects.no_tuple_of_permission hpermission _)
    | inherit hrule => exact ⟨_, (hrules _).mp hrule, by simp [ruleTargets]⟩
    | tupleToUserset hrule hgrant =>
      refine ⟨_, (hrules _).mp hrule, ?_⟩
      simp only [ruleTargets, List.mem_map]
      exact ⟨_, (mem_targets _ _).mpr ⟨_, (hreflects.holds _).mp hgrant, rfl⟩, rfl⟩
  rintro ⟨rule, hrule, hnext⟩
  cases rule with
  | inherit relation =>
    obtain rfl : next = ⟨userset.object, relation⟩ := by
      simpa [ruleTargets] using hnext
    exact RelationEdge.inherit ((hrules _).mpr hrule)
  | tupleToUserset tupleRelation =>
    simp only [ruleTargets, List.mem_map] at hnext
    obtain ⟨_, htarget, rfl⟩ := hnext
    obtain ⟨subject, hsubject, rfl⟩ := (mem_targets _ _).mp htarget
    have hgrant : ⟨userset.object, tupleRelation, subject⟩ ∈ tuples :=
      (hreflects.holds _).mpr hsubject
    exact RelationEdge.tupleToUserset ((hrules _).mpr hrule) hgrant

end

end Authorization.Reflects

end

end Keldra.Authz
