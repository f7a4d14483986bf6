import Keldra.Foundation.Refusals
import Keldra.Authz.Search

/-!
# Closure of a compiled schema under evaluation

Compilation checks every reference of the schema and every tuple matches a
checked selector.  So each edge of the relation graph ends at a declared
relation, and a search from a declared relation can fail at a limit only.
-/

namespace Keldra.Authz

open Foundation

variable {authorization : Authorization} {schema : Schema} {tuples : List Tuple} {realmId : RealmId}
  {limits : AuthorizationLimits} {userset next : UsersetRef}

/-- The relation of the userset is declared. -/
def Authorization.Declares (authorization : Authorization) (userset : UsersetRef) : Prop :=
  ∃ relation, authorization.schema.relation userset.object.ns userset.relation = some relation

open Authorization

section

variable {compiled : CompiledSchema}

theorem validateReferences_at {ns name : String} {relation : CompiledRelation}
    (h : compiled.validateReferences = .ok ())
    (hrelation : compiled.relation ns name = some relation) :
    compiled.validateRelationReferences ns name relation = .ok () := by
  obtain ⟨space, hspace, hname⟩ := relation_eq_some.mp hrelation
  have hspaces := forM_eq_ok.mp h (ns, space) ((OrdMap.get?_eq_some_iff _ _ _).mp hspace)
  exact forM_eq_ok.mp hspaces (name, relation) ((OrdMap.get?_eq_some_iff _ _ _).mp hname)

/-- A subject lies in the namespace its selector leads to. -/
theorem namespace_of_selector {tuple : Tuple} {allowed : AllowedSubject}
    {target : String × Option String}
    (hmatch : selectorMatches tuple allowed tuple.subject = true)
    (htarget : tupleTarget allowed = some target) : tuple.subject.named.ns = target.1 := by
  rcases hsubject : tuple.subject with o | u <;> rw [hsubject] at hmatch <;>
    cases allowed <;> simp_all [selectorMatches, tupleTarget, TupleSubject.named]
  all_goals rw [← htarget]

theorem declares_of_edge (hnew : new realmId schema tuples limits = .ok authorization)
    (hedge : RelationEdge schema tuples userset next) : authorization.Declares next := by
  have hreflects := reflects_new hnew
  simp only [new, bind_eq_ok] at hnew
  obtain ⟨compiled, hcompile, indexed, hindex, hauthorization⟩ := hnew
  cases hauthorization
  obtain ⟨_, hreferences⟩ := compile_eq_ok hcompile
  have hvalid := (indexTuples_spec hindex).2
  cases hedge with
  | nested hgrant =>
    have htuple := hvalid _ hgrant
    simp only [validateTuple, ok_rules, mapError_eq_ok, validateGrantee] at htuple
    obtain ⟨_, _, _, _, ⟨_, relation, hrelation, _⟩, _⟩ := htuple
    exact ⟨relation, okOr_eq_ok.mp hrelation⟩
  | inherit hrule =>
    obtain ⟨rules, hrules, hmem⟩ := (hreflects.hasRule _ _ _).mp hrule
    have hchecked := forM_eq_ok.mp (validateReferences_at hreferences hrules) _ hmem
    simp only [CompiledSchema.validateRuleReference, bind_eq_ok] at hchecked
    obtain ⟨relation, hrelation, _⟩ := hchecked
    exact ⟨relation, okOr_eq_ok.mp hrelation⟩
  | tupleToUserset hrule hgrant =>
    obtain ⟨rules, hrules, hmem⟩ := (hreflects.hasRule _ _ _).mp hrule
    have hchecked := forM_eq_ok.mp (validateReferences_at hreferences hrules) _ hmem
    simp only [CompiledSchema.validateRuleReference, bind_eq_ok] at hchecked
    obtain ⟨source, hsource, allowedSubjects, hallowed, hchecked⟩ := hchecked
    -- the tuple was accepted on the same direct relation, by one of its selectors
    have htuple := hvalid _ hgrant
    simp only [validateTuple, ok_rules, mapError_eq_ok, not_not] at htuple
    obtain ⟨_, _, accepted, haccepted, _, selector, hselector, hmatch⟩ := htuple
    rw [CompiledSchema.directAllowed, okOr_eq_ok.mp hsource] at haccepted
    have hsame : allowedSubjects = accepted := by
      cases source with
      | direct =>
        cases hallowed
        exact Except.ok.inj haccepted
      | permission => cases hallowed
    subst hsame
    have htarget := forM_eq_ok.mp hchecked selector hselector
    simp only [CompiledSchema.validateTupleTarget, ok_rules] at htarget
    obtain ⟨target, hto, _, relation, hrelation, _⟩ := htarget
    refine ⟨relation, ?_⟩
    rw [namespace_of_selector hmatch hto]
    exact okOr_eq_ok.mp hrelation

end

section

variable {error : AuthorizationError}
  (herror : ∀ limit maximum, AuthorizationError.evaluationLimit limit maximum ≠ error)

include herror

theorem avoids_firstHit {α : Type} {search : α → Search} {items : List α}
    (hsearch : ∀ item ∈ items, ∀ evaluator, Avoids error (search item evaluator))
    (evaluator : Evaluator) : Avoids error (firstHit limits search items evaluator) := by
  induction items generalizing evaluator with
  | nil => exact avoids_ok
  | cons item _ ih =>
    have hstep : Avoids error (evaluator.step limits) :=
      (avoids_rejectIf (herror _ _)).bind fun _ _ => avoids_ok
    refine hstep.bind fun stepped _ => ?_
    refine (hsearch item (by simp) stepped).bind fun found _ => ?_
    split
    · exact avoids_ok
    · exact ih (fun other hother => hsearch other (by simp [hother])) found.2

/-- A search that starts at a declared relation fails at a limit only. -/
theorem avoids_resolve (hnew : new realmId schema tuples limits = .ok authorization)
    (subject : ObjectRef) (remaining : Nat) (hdeclares : authorization.Declares userset)
    (evaluator : Evaluator) :
    Avoids error (resolve authorization subject remaining userset evaluator) := by
  have hreflects := reflects_new hnew
  induction remaining generalizing userset evaluator with
  | zero => exact avoids_error.mpr (herror _ _)
  | succ remaining ih =>
    have hnext : ∀ next, RelationEdge schema tuples userset next → ∀ evaluator,
        Avoids error (resolve authorization subject remaining next evaluator) :=
      fun next hedge => ih (declares_of_edge hnew hedge)
    obtain ⟨relation, hrelation⟩ := hdeclares
    have hstep : Avoids error (evaluator.step authorization.limits) :=
      (avoids_rejectIf (herror _ _)).bind fun _ _ => avoids_ok
    refine hstep.bind fun stepped _ => ?_
    split
    · exact avoids_ok
    split
    · exact avoids_ok
    refine (avoids_of_eq_ok (okOr_eq_ok.mpr hrelation)).bind fun found hfound => ?_
    obtain rfl : relation = found :=
      Option.some.inj (hrelation.symm.trans (okOr_eq_ok.mp hfound))
    refine Avoids.bind ?_ fun _ _ => avoids_ok
    cases relation with
    | direct =>
      unfold resolveRelation resolveDirect
      split
      · exact avoids_ok
      rename_i members hmembers
      split
      · exact avoids_ok
      refine avoids_firstHit herror (fun next hmem => hnext next ?_) _
      rw [hreflects.edge_of_direct hrelation, membersOf_of_some hmembers]
      exact (OrdSet.contains_iff_mem_keys _ _).mpr hmem
    | permission =>
      refine avoids_firstHit herror (fun rule hrule => ?_) _
      have htargets : ∀ next ∈ ruleTargets authorization userset rule, ∀ evaluator,
          Avoids error (resolve authorization subject remaining next evaluator) :=
        fun next hmem =>
          hnext next ((hreflects.edge_of_permission hrelation next).mpr ⟨rule, hrule, hmem⟩)
      cases rule with
      | inherit => exact htargets _ (by simp [ruleTargets])
      | tupleToUserset tupleRelation =>
        simp only [resolveRule]
        cases hmembers : authorization.tuples.get? ⟨userset.object, tupleRelation⟩ with
        | none => exact fun _ => avoids_ok
        | some =>
          rw [ruleTargets, membersOf_of_some hmembers] at htargets
          exact avoids_firstHit herror htargets

end

/--
Evaluation never leaves the declared relations: everything reached from a
declared userset is declared, and its check can fail at a limit only.
-/
theorem check_fails_at_limits_only
    (hnew : Authorization.new realmId schema tuples limits = .ok authorization)
    (check : AuthorizationCheck) (hsubject : validateObject check.subject = .ok ())
    (hobject : validateObject check.object = .ok ())
    (hrelation : validateRelation check.relation = .ok ())
    (hdeclares : authorization.Declares check.userset) :
    (∀ reached, Relation.ReflTransGen (RelationEdge schema tuples) check.userset reached →
    authorization.Declares reached) ∧ ∀ error, authorization.check check = .error error →
    ∃ limit maximum, error = .evaluationLimit limit maximum := by
  constructor
  · intro reached hreached
    cases hreached with
    | refl => exact hdeclares
    | tail _ hedge => exact declares_of_edge hnew hedge
  intro error hcheck
  by_contra hnone
  have herror : ∀ limit maximum, AuthorizationError.evaluationLimit limit maximum ≠ error :=
    fun limit maximum heq => hnone ⟨limit, maximum, heq.symm⟩
  refine absurd hcheck (Avoids.bind ?_ fun _ _ => avoids_ok)
  obtain ⟨relation, hfound⟩ := hdeclares
  unfold Authorization.checkWithMemo
  rw [hsubject, hobject, hrelation]
  refine avoids_ok.bind fun _ _ => avoids_ok.bind fun _ _ => avoids_ok.bind fun _ _ => ?_
  refine (avoids_of_eq_ok (okOr_eq_ok.mpr hfound)).bind fun _ _ => ?_
  exact (avoids_resolve herror hnew _ _ ⟨relation, hfound⟩ _).bind fun _ _ => avoids_ok

theorem check_fails_at_limits_only_nestedGroups :
    ∃ authorization, Authorization.new RealmId.defaultRealm nestedGroups nestedGrants {} =
    .ok authorization ∧ ∀ error, authorization.check (readCheck "ann") = .error error →
    ∃ limit maximum, error = .evaluationLimit limit maximum := by
  obtain ⟨authorization, hnew, hann, _⟩ := nestedGroups_checks
  simp only [Authorization.check, Authorization.checkWithMemo, ok_rules, mapError_eq_ok] at hann
  obtain ⟨_, ⟨hsubject, hobject, hrelation, relation, hdeclared, _⟩, _⟩ := hann
  exact ⟨authorization, hnew, (check_fails_at_limits_only hnew (readCheck "ann") hsubject hobject
    hrelation ⟨relation, okOr_eq_ok.mp hdeclared⟩).2⟩

end Keldra.Authz
