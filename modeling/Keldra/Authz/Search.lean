import Keldra.Authz.RelationGraph

/-!
# Correctness of authorization checks

A search answers `true` only for a userset the subject belongs to, and `false`
only when no path that avoids the current search path leads to a grant.  At the
top level the search path is empty, so the answer is the membership itself.

A batch shares the positive results of its checks.  A remembered result can
only end a search earlier: the batch answers whenever the single checks do, and
with the same values.
-/

namespace Keldra.Authz

open Foundation Evaluator OrdMap Authorization DirectSubjects SearchGraph

variable {before after : Evaluator} {limits : AuthorizationLimits} {result : Bool}
  {authorization : Authorization} {subject : ObjectRef} {userset : UsersetRef}

theorem Evaluator.step_eq_ok :
    before.step limits = .ok after ↔ saturatingSucc before.steps ≤ limits.maxSteps ∧
    after = { before with steps := saturatingSucc before.steps } := by
  simp only [step, ok_rules, not_lt, Except.ok.injEq]
  exact and_congr_right (fun _ => eq_comm)

theorem Evaluator.le_saturatingSucc (n : Nat) : n ≤ saturatingSucc n := by
  unfold saturatingSucc
  split <;> omega

theorem Evaluator.saturatingSucc_mono {m n : Nat}
    (h : m ≤ n) :
    saturatingSucc m ≤ saturatingSucc n := by
  unfold saturatingSucc
  split <;> split <;> omega

theorem firstHit_cons_eq_ok {α : Type} {search : α → Search} {item : α} {rest : List α} :
    firstHit limits search (item :: rest) before = .ok (result, after) ↔ ∃ stepped hit middle,
    before.step limits = .ok stepped ∧ search item stepped = .ok (hit, middle) ∧
    (hit = true ∧ result = true ∧ after = middle ∨ hit = false ∧
    firstHit limits search rest middle = .ok (result, after)) := by
  simp only [firstHit, bind_eq_ok, Prod.exists]
  constructor
  · rintro ⟨stepped, hstep, hit, middle, hsearch, hrest⟩
    refine ⟨stepped, hit, middle, hstep, hsearch, ?_⟩
    cases hit with
    | true =>
      cases hrest
      exact .inl ⟨rfl, rfl, rfl⟩
    | false => exact .inr ⟨rfl, by simpa using hrest⟩
  rintro ⟨stepped, hit, middle, hstep, hsearch, hrest⟩
  refine ⟨stepped, hstep, hit, middle, hsearch, ?_⟩
  rcases hrest with ⟨rfl, rfl, rfl⟩ | ⟨rfl, hrest⟩
  · simp
  · simpa using hrest

/-- The ways a search at a userset can answer. -/
theorem resolve_succ_eq_ok {remaining : Nat} :
    resolve authorization subject (remaining + 1) userset before = .ok (result, after) ↔ ∃ stepped,
    before.step authorization.limits = .ok stepped ∧ (stepped.remembers subject userset = true ∧
    result = true ∧ after = stepped ∨
    stepped.remembers subject userset = false ∧ (stepped.visited.contains userset = true ∧
    result = false ∧ after = stepped ∨ stepped.visited.contains userset = false ∧ ∃ relation middle,
    authorization.schema.relation userset.object.ns userset.relation = some relation ∧
    resolveRelation authorization (resolve authorization subject remaining) subject userset relation
    (stepped.enter userset) = .ok (result, middle) ∧
    after = (middle.leave userset).remember subject userset result)) := by
  simp only [resolve, bind_eq_ok]
  apply exists_congr
  intro stepped
  apply and_congr_right
  intro _
  cases hmemo : stepped.remembers subject userset with
  | true =>
    simp only [if_true, Except.ok.injEq, Prod.mk.injEq, true_and,
      Bool.true_eq_false, false_and, or_false]
    exact and_congr eq_comm eq_comm
  | false =>
    cases hvisited : stepped.visited.contains userset with
    | true =>
      simp only [Bool.false_eq_true, if_false, if_true, Except.ok.injEq, Prod.mk.injEq, false_and,
        false_or, true_and, Bool.true_eq_false, or_false]
      exact and_congr eq_comm eq_comm
    | false =>
      simp only [Bool.false_eq_true, if_false, ok_rules, CompiledSchema.requireRelation,
        Except.ok.injEq, false_and, false_or, true_and, Prod.exists]
      constructor
      · rintro ⟨relation, hrelation, _, middle, hfound, rfl, rfl⟩
        exact ⟨relation, middle, hrelation, hfound, rfl⟩
      rintro ⟨relation, middle, hrelation, hfound, rfl⟩
      exact ⟨relation, hrelation, result, middle, hfound, rfl, rfl⟩

section

variable {search : UsersetRef → Search}

/-- A search gives its path back and never takes back steps. -/
structure Steady (before after : Evaluator) : Prop where
  visited : after.visited = before.visited
  maxAllowed : after.maxAllowed = before.maxAllowed
  steps : before.steps ≤ after.steps

def Search.IsSteady (search : Search) : Prop :=
  ∀ before result after, search before = .ok (result, after) → Steady before after

theorem Steady.refl (evaluator : Evaluator) : Steady evaluator evaluator :=
  ⟨rfl, rfl, le_rfl⟩

theorem Steady.trans {a b c : Evaluator}
    (hab : Steady a b) (hbc : Steady b c) : Steady a c :=
  ⟨hbc.visited.trans hab.visited, hbc.maxAllowed.trans hab.maxAllowed, hab.steps.trans hbc.steps⟩

theorem Evaluator.steady_step (h : before.step limits = .ok after) : Steady before after := by
  obtain ⟨_, rfl⟩ := step_eq_ok.mp h
  exact ⟨rfl, rfl, le_saturatingSucc _⟩

theorem Evaluator.steady_remember
    (evaluator : Evaluator) (subject : ObjectRef) (userset : UsersetRef) (result : Bool) :
    Steady evaluator (evaluator.remember subject userset result) := by
  unfold remember
  split
  · exact ⟨rfl, rfl, le_rfl⟩
  · exact Steady.refl _

/-- Entering a userset, a steady search and leaving again is steady. -/
theorem Steady.leave {middle : Evaluator}
    (hfresh : before.visited.contains userset = false)
    (h : Steady (before.enter userset) middle) : Steady before (middle.leave userset) := by
  have hnone : before.visited.get? userset = none := by simpa [OrdMap.contains] using hfresh
  refine ⟨?_, h.maxAllowed, h.steps⟩
  change middle.visited.erase userset = before.visited
  rw [h.visited]
  exact OrdMap.erase_insert hnone

theorem isSteady_answer (result : Bool) :
    Search.IsSteady (fun evaluator => .ok (result, evaluator)) := by
  intro _ _ _ h
  cases h
  exact Steady.refl _

theorem isSteady_firstHit
    {α : Type} {search : α → Search} (hsearch : ∀ item, (search item).IsSteady) (items : List α) :
    (firstHit limits search items).IsSteady := by
  induction items with
  | nil => exact isSteady_answer false
  | cons item _ ih =>
    intro before _ _ h
    obtain ⟨_, _, middle, hstep, hitem, hrest⟩ := firstHit_cons_eq_ok.mp h
    have hmiddle : Steady before middle := (steady_step hstep).trans (hsearch item _ _ _ hitem)
    rcases hrest with ⟨_, _, rfl⟩ | ⟨_, hrest⟩
    · exact hmiddle
    · exact hmiddle.trans (ih _ _ _ hrest)

theorem isSteady_resolveRule
    (hsteady : ∀ userset, (search userset).IsSteady) (userset : UsersetRef) (rule : RewriteRule) :
    (resolveRule authorization search userset rule).IsSteady := by
  cases rule with
  | inherit => exact hsteady _
  | tupleToUserset =>
    simp only [resolveRule]
    split
    · exact isSteady_answer false
    · exact isSteady_firstHit hsteady _

theorem isSteady_resolveRelation (hsteady : ∀ userset, (search userset).IsSteady)
    (subject : ObjectRef) (userset : UsersetRef) (relation : CompiledRelation) :
    (resolveRelation authorization search subject userset relation).IsSteady := by
  cases relation with
  | direct =>
    simp only [resolveRelation, resolveDirect]
    split
    · exact isSteady_answer false
    split
    · exact isSteady_answer true
    · exact isSteady_firstHit hsteady _
  | permission => exact isSteady_firstHit (isSteady_resolveRule hsteady userset) _

theorem steady_after_step {remaining : Nat} {stepped : Evaluator}
    (hsteady : ∀ userset, (resolve authorization subject remaining userset).IsSteady)
    (hstep : before.step authorization.limits = .ok stepped)
    (h : resolve authorization subject (remaining + 1) userset before = .ok (result, after)) :
    Steady stepped after := by
  obtain ⟨stepped', hstep', hcases⟩ := resolve_succ_eq_ok.mp h
  obtain rfl : stepped = stepped' := Except.ok.inj (hstep.symm.trans hstep')
  rcases hcases with ⟨_, _, rfl⟩ | ⟨_, ⟨_, _, rfl⟩ | hsearch⟩
  · exact Steady.refl _
  · exact Steady.refl _
  obtain ⟨hfresh, relation, _, _, hmiddle, rfl⟩ := hsearch
  have hinner := isSteady_resolveRelation hsteady subject userset relation _ _ _ hmiddle
  exact (hinner.leave hfresh).trans (steady_remember _ _ _ _)

theorem isSteady_resolve (subject : ObjectRef) (remaining : Nat) (userset : UsersetRef) :
    (resolve authorization subject remaining userset).IsSteady := by
  induction remaining generalizing userset with
  | zero =>
    intro _ _ _ h
    cases h
  | succ _ ih =>
    intro _ _ _ h
    obtain ⟨_, hstep, _⟩ := resolve_succ_eq_ok.mp h
    exact (steady_step hstep).trans (steady_after_step ih hstep h)

end

variable {schema : Schema} {tuples : List Tuple} {check : AuthorizationCheck}
  {evaluator : Evaluator} {allowed : OrdSet (ObjectRef ×ₗ UsersetRef)} {maxAllowed : Nat}

section

variable {indexed : OrdMap UsersetRef DirectSubjects} {search : UsersetRef → Search}

/-- Remembered results are memberships. -/
def MemoSound
    (schema : Schema) (tuples : List Tuple) (allowed : OrdSet (ObjectRef ×ₗ UsersetRef)) : Prop :=
  ∀ subject userset, allowed.contains (toLex (subject, userset)) = true →
    userset ∈ memberships schema tuples subject

/-- The usersets of the current search path. -/
def Evaluator.path (evaluator : Evaluator) : Set UsersetRef :=
  {userset | evaluator.visited.contains userset = true}

/-- What a search says about the usersets it tries: a hit is a membership of
one of them, a miss rules out every path that avoids the search path. -/
def Search.Answers (search : Search) (schema : Schema) (tuples : List Tuple) (subject : ObjectRef)
    (tried : UsersetRef → Prop) : Prop :=
  ∀ before result after, MemoSound schema tuples before.allowed →
    search before = .ok (result, after) → MemoSound schema tuples after.allowed ∧ (result = true →
      ∃ userset, tried userset ∧ userset ∈ memberships schema tuples subject) ∧
      (result = false → ∀ userset, tried userset →
      ¬ (relationGraph schema tuples subject).ReachesAvoiding before.path userset)

theorem Evaluator.path_of_steady (h : Steady before after) : after.path = before.path := by
  unfold path
  rw [h.visited]

theorem Evaluator.path_enter (evaluator : Evaluator) (userset : UsersetRef) :
    (evaluator.enter userset).path = insert userset evaluator.path := by
  ext other
  exact contains_insert _ _ _ _

theorem Evaluator.allowed_step (h : before.step limits = .ok after) :
    after.allowed = before.allowed := by
  obtain ⟨_, rfl⟩ := step_eq_ok.mp h
  rfl

theorem MemoSound.remember (hmemo : MemoSound schema tuples evaluator.allowed)
    (hresult : result = true → userset ∈ memberships schema tuples subject) :
    MemoSound schema tuples (evaluator.remember subject userset result).allowed := by
  unfold Evaluator.remember
  split
  · rename_i hstore
    intro subject' userset' hcontains
    rcases (OrdMap.contains_insert _ _ _ _).mp hcontains with heq | hold
    · obtain ⟨rfl, rfl⟩ : subject' = subject ∧ userset' = userset := by
        simpa using heq
      exact hresult hstore.1
    · exact hmemo _ _ hold
  · exact hmemo

/-- A loop tries what its searches try. -/
theorem answers_firstHit {α : Type} {search : α → Search} {tried : α → UsersetRef → Prop}
    (hsteady : ∀ item, (search item).IsSteady)
    (hsearch : ∀ item, (search item).Answers schema tuples subject (tried item)) (items : List α) :
    (firstHit limits search items).Answers schema tuples subject
    (fun userset => ∃ item ∈ items, tried item userset) := by
  induction items with
  | nil =>
    intro _ _ _ hmemo h
    cases h
    exact ⟨hmemo, by simp, by simp⟩
  | cons item _ ih =>
    intro before _ _ hmemo h
    obtain ⟨stepped, _, middle, hstep, hitem, hrest⟩ := firstHit_cons_eq_ok.mp h
    have hsteppedMemo : MemoSound schema tuples stepped.allowed := by
      rw [allowed_step hstep]
      exact hmemo
    obtain ⟨hmiddleMemo, hhit, hmiss⟩ := hsearch item _ _ _ hsteppedMemo hitem
    have hsteppedPath : stepped.path = before.path := path_of_steady (steady_step hstep)
    rcases hrest with ⟨rfl, rfl, rfl⟩ | ⟨rfl, hrest⟩
    · refine ⟨hmiddleMemo, ?_, by simp⟩
      intro _
      obtain ⟨userset, htried, hmember⟩ := hhit rfl
      exact ⟨userset, ⟨item, by simp, htried⟩, hmember⟩
    obtain ⟨hafterMemo, hrestHit, hrestMiss⟩ := ih _ _ _ hmiddleMemo hrest
    have hmiddlePath : middle.path = before.path :=
      (path_of_steady (hsteady item _ _ _ hitem)).trans hsteppedPath
    refine ⟨hafterMemo, ?_, ?_⟩
    · intro hresult
      obtain ⟨userset, ⟨other, hother, htried⟩, hmember⟩ := hrestHit hresult
      exact ⟨userset, ⟨other, List.mem_cons_of_mem _ hother, htried⟩, hmember⟩
    rintro hresult userset ⟨other, hother, htried⟩
    rcases List.mem_cons.mp hother with rfl | hother
    · rw [← hsteppedPath]
      exact hmiss rfl userset htried
    rw [← hmiddlePath]
    exact hrestMiss hresult userset ⟨other, hother, htried⟩

theorem membersOf_of_some {members : DirectSubjects}
    (h : indexed.get? userset = some members) :
    membersOf indexed userset = members := by
  simp [membersOf, h]

theorem membersOf_of_none (h : indexed.get? userset = none) :
    membersOf indexed userset = empty := by
  simp [membersOf, h]

theorem answers_resolveRule (hsteady : ∀ userset, (search userset).IsSteady)
    (hsearch : ∀ userset, (search userset).Answers schema tuples subject (· = userset))
    (userset : UsersetRef) (rule : RewriteRule) :
    (resolveRule authorization search userset rule).Answers schema tuples
    subject (fun next => next ∈ ruleTargets authorization userset rule) := by
  cases rule with
  | inherit => simpa [resolveRule, ruleTargets] using hsearch _
  | tupleToUserset _ targetRelation =>
    simp only [resolveRule, ruleTargets]
    split
    · rename_i hnone
      rw [membersOf_of_none hnone]
      intro _ _ _ hmemo h
      cases h
      exact ⟨hmemo, by simp, by simp [DirectSubjects.targets,
        DirectSubjects.empty, OrdMap.keys, OrdMap.empty]⟩
    rename_i members hsome
    rw [membersOf_of_some hsome]
    have hloop : (firstHit authorization.limits search (members.targets.map (fun target =>
      ⟨target, targetRelation⟩))).Answers schema tuples subject _ :=
      answers_firstHit hsteady hsearch _
    simpa using hloop

section

variable (hreflects : authorization.Reflects schema tuples)

include hreflects

/-- A search below a userset decides its membership by its edges. -/
theorem answers_resolveRelation {relation : CompiledRelation}
    (hsteady : ∀ userset, (search userset).IsSteady)
    (hsearch : ∀ userset, (search userset).Answers schema tuples subject (· = userset))
    (hrelation : authorization.schema.relation userset.object.ns
    userset.relation = some relation) (hmemo : MemoSound schema tuples before.allowed)
    (h : resolveRelation authorization search subject userset relation
    before = .ok (result, after)) : MemoSound schema tuples after.allowed ∧
    (result = true → userset ∈ memberships schema tuples subject) ∧ (result = false →
    ¬ (relationGraph schema tuples subject).goal userset ∧
    ∀ next, RelationEdge schema tuples userset next →
    ¬ (relationGraph schema tuples subject).ReachesAvoiding before.path next) := by
  cases relation with
  | direct =>
    have hedge := hreflects.edge_of_direct hrelation
    have hgoal : (relationGraph schema tuples subject).goal userset ↔
        (membersOf authorization.tuples userset).objects.contains subject = true :=
      hreflects.holds _
    simp only [resolveRelation, resolveDirect] at h
    cases hmembers : authorization.tuples.get? userset with
    | none =>
      simp only [hmembers] at h
      cases h
      rw [hgoal, membersOf_of_none hmembers]
      refine ⟨hmemo, by simp, ?_⟩
      intro _
      refine ⟨by simp [DirectSubjects.empty, OrdMap.contains], ?_⟩
      intro _ hnext
      rw [hedge, membersOf_of_none hmembers] at hnext
      simp [DirectSubjects.empty, OrdMap.contains] at hnext
    | some members =>
      rw [membersOf_of_some hmembers] at hgoal
      simp only [membersOf_of_some hmembers] at hedge
      simp only [hmembers] at h
      by_cases hcontains : members.objects.contains subject = true
      · simp only [hcontains, if_true] at h
        cases h
        refine ⟨hmemo, ?_, by simp⟩
        intro _
        exact SearchGraph.goal_mem_reaching (hgoal.mpr hcontains)
      simp only [hcontains] at h
      obtain ⟨hafter, hhit, hmiss⟩ := answers_firstHit hsteady hsearch _ _ _ _ hmemo h
      refine ⟨hafter, ?_, ?_⟩
      · intro hresult
        obtain ⟨_, ⟨_, hnext, rfl⟩, hmember⟩ := hhit hresult
        have hcontainsNext := (OrdSet.contains_iff_mem_keys _ _).mpr hnext
        exact SearchGraph.edge_mem_reaching ((hedge _).mpr hcontainsNext) hmember
      intro hresult
      refine ⟨fun hg => hcontains (hgoal.mp hg), ?_⟩
      intro next hnext
      have hkey := (OrdSet.contains_iff_mem_keys _ _).mp ((hedge next).mp hnext)
      exact hmiss hresult next ⟨next, hkey, rfl⟩
  | permission rules =>
    have hedge := hreflects.edge_of_permission hrelation
    obtain ⟨hafter, hhit, hmiss⟩ := answers_firstHit (isSteady_resolveRule hsteady userset)
        (answers_resolveRule hsteady hsearch userset) rules _ _ _ hmemo h
    refine ⟨hafter, ?_, ?_⟩
    · intro hresult
      obtain ⟨next, hnext, hmember⟩ := hhit hresult
      exact SearchGraph.edge_mem_reaching ((hedge next).mpr hnext) hmember
    intro hresult
    refine ⟨hreflects.no_tuple_of_permission hrelation _, ?_⟩
    intro next hnext
    exact hmiss hresult next ((hedge next).mp hnext)

theorem answers_resolve (subject : ObjectRef) (remaining : Nat) (userset : UsersetRef) :
    (resolve authorization subject remaining userset).Answers schema tuples
    subject (· = userset) := by
  induction remaining generalizing userset with
  | zero =>
    intro _ _ _ _ h
    cases h
  | succ remaining ih =>
    intro before _ _ hmemo h
    obtain ⟨stepped, hstep, hcases⟩ := resolve_succ_eq_ok.mp h
    have hsteppedMemo : MemoSound schema tuples stepped.allowed := by
      rw [allowed_step hstep]
      exact hmemo
    have hpath : stepped.path = before.path := path_of_steady (steady_step hstep)
    rcases hcases with ⟨hremembers, rfl, rfl⟩ |
      ⟨_, ⟨hvisited, rfl, rfl⟩ | ⟨_, hsearch⟩⟩
    · refine ⟨hsteppedMemo, ?_, by simp⟩
      intro _
      simp only [remembers, Bool.and_eq_true] at hremembers
      exact ⟨userset, rfl, hsteppedMemo _ _ hremembers.2⟩
    · refine ⟨hsteppedMemo, by simp, ?_⟩
      rintro _ _ rfl hreach
      rw [← hpath] at hreach
      exact (reachesAvoiding_iff.mp hreach).1 hvisited
    obtain ⟨_, _, hrelation, hmiddle, rfl⟩ := hsearch
    have henterMemo : MemoSound schema tuples (stepped.enter userset).allowed := hsteppedMemo
    obtain ⟨hmiddleMemo, hhit, hmiss⟩ := answers_resolveRelation hreflects (isSteady_resolve
      subject remaining) ih hrelation henterMemo hmiddle
    refine ⟨?_, fun hresult => ⟨userset, rfl, hhit hresult⟩, ?_⟩
    · exact MemoSound.remember hmiddleMemo hhit
    rintro hresult _ rfl hreach
    obtain ⟨hnogoal, hnoedge⟩ := hmiss hresult
    rw [path_enter, hpath] at hnoedge
    rcases (reachesAvoiding_iff.mp hreach).2 with
      hgoal | ⟨next, hedge, hnext⟩
    · exact hnogoal hgoal
    · exact hnoedge next hedge hnext

/-- A check with any sound memo answers the membership and leaves a sound
memo. -/
theorem checkWithMemo_answers {allowed' : OrdSet (Lex (ObjectRef × UsersetRef))}
    (hmemo : MemoSound schema tuples allowed)
    (h : authorization.checkWithMemo check allowed maxAllowed = .ok (result, allowed')) :
    MemoSound schema tuples allowed' ∧ (result = true ↔
    check.userset ∈ memberships schema tuples check.subject) := by
  simp only [Authorization.checkWithMemo, ok_rules, Prod.exists, Except.ok.injEq] at h
  obtain ⟨_, _, _, _, _, _, _, hresolve, rfl, rfl⟩ := h
  obtain ⟨hafter, hhit, hmiss⟩ := answers_resolve hreflects _ _ _ _ _ _ hmemo hresolve
  refine ⟨hafter, ?_, ?_⟩
  · intro hresult
    obtain ⟨_, rfl, hmember⟩ := hhit hresult
    exact hmember
  intro hmember
  by_contra hfalse
  have hpath : (Evaluator.mk OrdMap.empty allowed maxAllowed 0).path = ∅ := by
    ext userset
    simp [path, OrdMap.contains]
  have hnone := hmiss (by simpa using hfalse) check.userset rfl
  rw [hpath] at hnone
  exact hnone (SearchGraph.mem_reaching_iff_reachesAvoiding.mp hmember)

end

theorem memoSound_empty : MemoSound schema tuples OrdMap.empty := by
  intro _ _ hcontains
  simp [OrdMap.contains] at hcontains

theorem check_eq_ok : authorization.check check = .ok result ↔
    ∃ allowed, authorization.checkWithMemo check OrdMap.empty 0 = .ok (result, allowed) := by
  simp only [Authorization.check, bind_eq_ok, Prod.exists, Except.ok.injEq]
  constructor
  · rintro ⟨_, allowed, hfound, rfl⟩
    exact ⟨allowed, hfound⟩
  rintro ⟨allowed, hfound⟩
  exact ⟨result, allowed, hfound, rfl⟩

end

section

variable {alone shared alone' : Evaluator} {checks : List AuthorizationCheck} {answers : List Bool}

/-- The batch run stands at the same path as the single run and has not used
more steps. -/
structure Ahead (single batch : Evaluator) : Prop where
  forgetful : single.maxAllowed = 0
  visited : batch.visited = single.visited
  steps : batch.steps ≤ single.steps

/-- Where the first search answers, the second does too, with no more steps;
it answers `true` whenever the first does. -/
def Search.OutpacedBy (single batch : Search) : Prop :=
  ∀ alone shared result alone', Ahead alone shared → single alone = .ok (result, alone') →
    ∃ result' shared', batch shared = .ok (result', shared') ∧
      Ahead alone' shared' ∧ (result = true → result' = true)

theorem outpacedBy_answer (result : Bool) :
    Search.OutpacedBy (fun evaluator => .ok (result, evaluator))
    (fun evaluator => .ok (result, evaluator)) := by
  intro _ shared _ _ hahead h
  cases h
  exact ⟨result, shared, rfl, hahead, id⟩

theorem Ahead.step (hahead : Ahead alone shared) (h : alone.step limits = .ok alone') :
    ∃ shared', shared.step limits = .ok shared' ∧ Ahead alone' shared' := by
  obtain ⟨hlimit, rfl⟩ := step_eq_ok.mp h
  have hsteps := saturatingSucc_mono hahead.steps
  refine ⟨_, step_eq_ok.mpr ⟨hsteps.trans hlimit, rfl⟩, ?_⟩
  exact ⟨hahead.forgetful, hahead.visited, hsteps⟩

/-- Waiting for the single run to finish keeps the batch run ahead. -/
theorem Ahead.wait (hahead : Ahead alone shared) (hsteady : Steady alone alone') :
    Ahead alone' shared :=
  ⟨hsteady.maxAllowed.trans hahead.forgetful, hahead.visited.trans hsteady.visited.symm,
    hahead.steps.trans hsteady.steps⟩

theorem outpacedBy_firstHit
    {α : Type} {search : α → Search} (hsteady : ∀ item, (search item).IsSteady)
    (hsearch : ∀ item, (search item).OutpacedBy (search item)) (items : List α) :
    (firstHit limits search items).OutpacedBy (firstHit limits search items) := by
  induction items with
  | nil => exact outpacedBy_answer false
  | cons item rest ih =>
    intro _ _ _ _ hahead h
    obtain ⟨_, _, _, hstep, hitem, hrest⟩ := firstHit_cons_eq_ok.mp h
    obtain ⟨_, hsharedStep, hsteppedAhead⟩ := hahead.step hstep
    obtain ⟨hit', sharedMiddle, hsharedItem, hmiddleAhead, hle⟩ :=
      hsearch item _ _ _ _ hsteppedAhead hitem
    cases hit' with
    | true =>
      -- The batch run stops here; the single run may still go on.
      refine ⟨true, sharedMiddle, ?_, ?_, fun _ => rfl⟩
      · exact firstHit_cons_eq_ok.mpr ⟨_, true, _, hsharedStep, hsharedItem, .inl ⟨rfl, rfl, rfl⟩⟩
      rcases hrest with ⟨_, _, rfl⟩ | ⟨_, hrest⟩
      · exact hmiddleAhead
      · exact hmiddleAhead.wait (isSteady_firstHit hsteady rest _ _ _ hrest)
    | false =>
      rcases hrest with ⟨rfl, _⟩ | ⟨_, hrest⟩
      · cases hle rfl
      obtain ⟨result', shared', hshared, hafter, hresult⟩ := ih _ _ _ _ hmiddleAhead hrest
      exact ⟨result', shared', firstHit_cons_eq_ok.mpr ⟨_, false, _, hsharedStep, hsharedItem,
        Or.inr ⟨rfl, hshared⟩⟩, hafter, hresult⟩

theorem outpacedBy_resolveRelation
    {search : UsersetRef → Search} (hsteady : ∀ userset, (search userset).IsSteady)
    (hsearch : ∀ userset, (search userset).OutpacedBy (search userset))
    (subject : ObjectRef) (userset : UsersetRef) (relation : CompiledRelation) :
    (resolveRelation authorization search subject userset relation).OutpacedBy
    (resolveRelation authorization search subject userset relation) := by
  cases relation with
  | direct =>
    simp only [resolveRelation, resolveDirect]
    split
    · exact outpacedBy_answer false
    split
    · exact outpacedBy_answer true
    · exact outpacedBy_firstHit hsteady hsearch _
  | permission =>
    apply outpacedBy_firstHit (isSteady_resolveRule hsteady userset)
    intro rule
    cases rule with
    | inherit => exact hsearch _
    | tupleToUserset =>
      simp only [resolveRule]
      split
      · exact outpacedBy_answer false
      · exact outpacedBy_firstHit hsteady hsearch _

theorem Evaluator.remember_of_forgetful (h : evaluator.maxAllowed = 0) (subject : ObjectRef)
    (userset : UsersetRef) (result : Bool) :
    evaluator.remember subject userset result = evaluator := by
  simp [remember, h]

theorem Evaluator.steps_remember
    (evaluator : Evaluator) (subject : ObjectRef) (userset : UsersetRef) (result : Bool) :
    (evaluator.remember subject userset result).steps = evaluator.steps := by
  unfold remember
  split <;> rfl

theorem outpacedBy_resolve (subject : ObjectRef) (remaining : Nat) (userset : UsersetRef) :
    (resolve authorization subject remaining userset).OutpacedBy
    (resolve authorization subject remaining userset) := by
  induction remaining generalizing userset with
  | zero =>
    intro _ _ _ _ _ h
    cases h
  | succ remaining ih =>
    intro _ _ _ alone' hahead h
    obtain ⟨stepped, hstep, hcases⟩ := resolve_succ_eq_ok.mp h
    obtain ⟨sharedStepped, hsharedStep, hsteppedAhead⟩ := hahead.step hstep
    have hforgets : stepped.remembers subject userset = false := by
      simp [remembers, hsteppedAhead.forgetful]
    cases hmemo : sharedStepped.remembers subject userset with
    | true =>
      have hlate : Ahead alone' sharedStepped := hsteppedAhead.wait
          (steady_after_step (isSteady_resolve subject remaining) hstep h)
      exact ⟨true, sharedStepped, resolve_succ_eq_ok.mpr ⟨_, hsharedStep, .inl ⟨hmemo, rfl, rfl⟩⟩,
        hlate, fun _ => rfl⟩
    | false =>
      rcases hcases with ⟨hremembers, _⟩ |
        ⟨_, ⟨hvisited, rfl, rfl⟩ | ⟨hfresh, hsearch⟩⟩
      · rw [hforgets] at hremembers
        cases hremembers
      · rw [← hsteppedAhead.visited] at hvisited
        exact ⟨false, sharedStepped, resolve_succ_eq_ok.mpr ⟨_, hsharedStep, .inr ⟨hmemo, .inl
          ⟨hvisited, rfl, rfl⟩⟩⟩, hsteppedAhead, id⟩
      obtain ⟨relation, middle, hrelation, hmiddle, rfl⟩ := hsearch
      have henter : Ahead (stepped.enter userset) (sharedStepped.enter userset) :=
        ⟨hsteppedAhead.forgetful, congrArg (·.insert userset ()) hsteppedAhead.visited,
          hsteppedAhead.steps⟩
      obtain ⟨result', sharedMiddle, hshared, hmiddleAhead, hle⟩ :=
        outpacedBy_resolveRelation (isSteady_resolve subject remaining)
          ih subject userset relation _ _ _ _ henter hmiddle
      rw [← hsteppedAhead.visited] at hfresh
      refine ⟨result', _, resolve_succ_eq_ok.mpr ⟨_, hsharedStep, .inr ⟨hmemo, .inr ⟨hfresh,
        relation, sharedMiddle, hrelation, hshared, rfl⟩⟩⟩, ?_, hle⟩
      have hforgetful : (middle.leave userset).maxAllowed = 0 := hmiddleAhead.forgetful
      rw [remember_of_forgetful hforgetful]
      have hremember := steady_remember (sharedMiddle.leave userset) subject userset result'
      refine ⟨hforgetful, ?_, ?_⟩
      · rw [hremember.visited]
        exact congrArg (·.erase userset) hmiddleAhead.visited
      rw [steps_remember]
      exact hmiddleAhead.steps

/-- A check that answers alone answers with every memo. -/
theorem checkWithMemo_of_check (h : authorization.check check = .ok result)
    (allowed : OrdSet (ObjectRef ×ₗ UsersetRef)) (maxAllowed : Nat) :
    ∃ result' allowed', authorization.checkWithMemo check allowed maxAllowed =
    .ok (result', allowed') := by
  obtain ⟨_, h⟩ := check_eq_ok.mp h
  simp only [checkWithMemo, ok_rules, Prod.exists, Except.ok.injEq] at h ⊢
  obtain ⟨hsubject, hobject, hname, relation, hrelation, _, _, hresolve, _⟩ := h
  have hahead : Ahead ⟨empty, empty, 0, 0⟩ ⟨empty, allowed, maxAllowed, 0⟩ :=
    ⟨rfl, rfl, le_rfl⟩
  obtain ⟨result', shared, hshared, _⟩ :=
    outpacedBy_resolve check.subject authorization.limits.maxDepth
      check.userset _ _ _ _ hahead hresolve
  exact ⟨result', shared.allowed, hsubject, hobject, hname, relation,
    hrelation, result', shared, hshared, rfl, rfl⟩

/-- A batch answers the membership of each check, from any sound memo. -/
theorem checkInOrder_answers
    (hreflects : authorization.Reflects schema tuples) (hmemo : MemoSound schema tuples allowed)
    (h : authorization.checkInOrder maxAllowed checks allowed = .ok answers) : List.Forall₂
    (fun check answer => answer = true ↔ check.userset ∈ memberships schema tuples check.subject)
    checks answers := by
  induction checks generalizing allowed answers with
  | nil =>
    cases h
    exact List.Forall₂.nil
  | cons _ _ ih =>
    simp only [checkInOrder, bind_eq_ok, Prod.exists, Except.ok.injEq] at h
    obtain ⟨_, _, hcheck, _, hrest, rfl⟩ := h
    obtain ⟨hmemo', hanswer⟩ := checkWithMemo_answers hreflects hmemo hcheck
    exact List.Forall₂.cons hanswer (ih hmemo' hrest)

/-- A batch of checks that answer alone answers them all the same. -/
theorem checkInOrder_of_checks
    (hreflects : authorization.Reflects schema tuples) (hmemo : MemoSound schema tuples allowed)
    (h : List.Forall₂ (fun check answer => authorization.check check = .ok answer) checks answers) :
    authorization.checkInOrder maxAllowed checks allowed = .ok answers := by
  induction h generalizing allowed with
  | nil => rfl
  | @cons check answer rest answers hcheck _ ih =>
    obtain ⟨answer', allowed', hshared⟩ := checkWithMemo_of_check hcheck allowed maxAllowed
    obtain ⟨hmemo', hmember'⟩ := checkWithMemo_answers hreflects hmemo hshared
    obtain ⟨_, halone⟩ := check_eq_ok.mp hcheck
    obtain ⟨_, hmember⟩ := checkWithMemo_answers hreflects memoSound_empty halone
    obtain rfl : answer' = answer := Bool.eq_iff_iff.mpr (hmember'.trans hmember.symm)
    simp only [checkInOrder, bind_eq_ok, Prod.exists, Except.ok.injEq]
    exact ⟨answer', allowed', hshared, answers, ih hmemo', rfl⟩

end

variable {realmId : RealmId}

/-- **Checks are sound and complete.**  A check that answers says exactly
whether the subject belongs to the userset, whatever cycles the graph has. -/
theorem check_answers_membership {realmId : RealmId} {schema : Schema} {tuples : List Tuple}
    {limits : AuthorizationLimits} {authorization : Authorization}
    (hnew : Authorization.new realmId schema tuples limits = .ok authorization)
    {check : AuthorizationCheck} {result : Bool} (hcheck : authorization.check check = .ok result) :
    result = true ↔ check.userset ∈ memberships schema tuples check.subject := by
  obtain ⟨_, hmemo⟩ := check_eq_ok.mp hcheck
  have hreflects := Authorization.reflects_new hnew
  obtain ⟨_, hanswer⟩ := checkWithMemo_answers hreflects memoSound_empty hmemo
  exact hanswer

/-- Two groups that contain each other. -/
def nestedGroups : Schema :=
  { namespaces :=
      [ { name := "group"
          relations :=
            [ { name := "member"
                kind := .direct [.anyObject "user", .anyUserset "group" "member"] } ] },
        { name := "doc"
          relations := [ { name := "parent", kind := .direct [.anyObject "doc"] },
            { name := "viewer", kind := .direct [.anyUserset "group" "member"] },
            { name := "read"
              kind := .permission [.inherit "viewer", .tupleToUserset "parent" "read"] } ] } ] }

def sampleObject (ns id : String) : ObjectRef :=
  ⟨ns, .opaqueId id⟩

/-- The groups `a` and `b` contain each other, and so do the parents of the
documents `x` and `y`; only `b` names a user. -/
def nestedGrants : List Tuple := [ ⟨sampleObject "group" "a", "member",
      .userset ⟨sampleObject "group" "b", "member"⟩⟩,
    ⟨sampleObject "group" "b", "member", .userset ⟨sampleObject "group" "a", "member"⟩⟩,
    ⟨sampleObject "group" "b", "member", .object (sampleObject "user" "ann")⟩,
    ⟨sampleObject "doc" "x", "viewer", .userset ⟨sampleObject "group" "a", "member"⟩⟩,
    ⟨sampleObject "doc" "x", "parent", .object (sampleObject "doc" "y")⟩,
    ⟨sampleObject "doc" "y", "parent", .object (sampleObject "doc" "x")⟩ ]

def readCheck (user : String) : AuthorizationCheck :=
  ⟨sampleObject "user" user, sampleObject "doc" "y", "read"⟩

theorem nestedGroups_answer :
    (new RealmId.defaultRealm nestedGroups nestedGrants {} >>= fun authorization => do
      let ann ← authorization.check (readCheck "ann")
      let bob ← authorization.check (readCheck "bob")
      .ok (ann, bob)) = .ok (true, false) := by
  decide +kernel

theorem nestedGroups_checks :
    ∃ authorization, new RealmId.defaultRealm nestedGroups nestedGrants {} =
    .ok authorization ∧ authorization.check (readCheck "ann") = .ok true ∧
    authorization.check (readCheck "bob") = .ok false := by
  have hanswer := nestedGroups_answer
  simp only [bind_eq_ok, Except.ok.injEq, Prod.mk.injEq] at hanswer
  obtain ⟨authorization, hnew, _, hann, _, hbob, rfl, rfl⟩ := hanswer
  exact ⟨authorization, hnew, hann, hbob⟩

theorem check_answers_membership_nestedGroups :
    (readCheck "ann").userset ∈ memberships nestedGroups nestedGrants (readCheck "ann").subject ∧
    (readCheck "bob").userset ∉
    memberships nestedGroups nestedGrants (readCheck "bob").subject := by
  obtain ⟨_, hnew, hann, hbob⟩ := nestedGroups_checks
  constructor
  · exact (check_answers_membership hnew hann).mp rfl
  intro hmember
  cases (check_answers_membership hnew hbob).mpr hmember

/-- **Batches agree with single checks.**  Checks that answer alone answer the
same in a batch, and a batch that answers gives the membership of each of its
checks, in whatever order they stand. -/
theorem checkMany_agrees {realmId : RealmId} {schema : Schema} {tuples : List Tuple}
    {limits : AuthorizationLimits} {authorization : Authorization}
    (hnew : Authorization.new realmId schema tuples limits = .ok authorization)
    (checks : List AuthorizationCheck) (answers : List Bool) :
    (List.Forall₂ (fun check answer => authorization.check check = .ok answer) checks answers →
    authorization.checkMany checks = .ok answers) ∧
    (authorization.checkMany checks = .ok answers → List.Forall₂
    (fun check answer => answer = true ↔ check.userset ∈ memberships schema tuples check.subject)
    checks answers) := by
  have hreflects := Authorization.reflects_new hnew
  constructor
  · intro halone
    exact checkInOrder_of_checks hreflects memoSound_empty halone
  intro hbatch
  exact checkInOrder_answers hreflects memoSound_empty hbatch

theorem checkMany_agrees_nestedGroups :
    ∃ authorization, Authorization.new RealmId.defaultRealm nestedGroups nestedGrants {} =
    .ok authorization ∧
    authorization.checkMany [readCheck "ann", readCheck "bob", readCheck "ann"] =
    .ok [true, false, true] := by
  obtain ⟨authorization, hnew, hann, hbob⟩ := nestedGroups_checks
  have hagrees := checkMany_agrees hnew
    [readCheck "ann", readCheck "bob", readCheck "ann"] [true, false, true]
  have halone : List.Forall₂ (fun check answer => authorization.check check = .ok answer) [readCheck
    "ann", readCheck "bob", readCheck "ann"] [true, false, true] := by
    exact .cons hann (.cons hbob (.cons hann .nil))
  exact ⟨authorization, hnew, hagrees.1 halone⟩

/-- **Grants are monotone.**  What some tuples permit is permitted by all tuples that
include them, in whatever order they are compiled and under whatever limits. -/
theorem more_tuples_permit_more {realmId realmId' : RealmId} {schema : Schema}
    {tuples tuples' : List Tuple} {limits limits' : AuthorizationLimits}
    {authorization authorization' : Authorization} (hmore : tuples ⊆ tuples')
    (hnew : Authorization.new realmId schema tuples limits = .ok authorization)
    (hnew' : Authorization.new realmId' schema tuples' limits' = .ok authorization')
    {check : AuthorizationCheck} {result : Bool} (hcheck : authorization.check check = .ok true)
    (hcheck' : authorization'.check check = .ok result) : result = true := by
  obtain ⟨_, hmemo⟩ := check_eq_ok.mp hcheck
  obtain ⟨_, hmemo'⟩ := check_eq_ok.mp hcheck'
  obtain ⟨_, hanswer⟩ := checkWithMemo_answers (reflects_new hnew) memoSound_empty hmemo
  obtain ⟨_, hanswer'⟩ := checkWithMemo_answers (reflects_new hnew') memoSound_empty hmemo'
  exact hanswer'.mpr (memberships_mono hmore (hanswer.mp rfl))

/-- The grants in the reverse order, with `bob` in the group `a` before them. -/
def moreGrants : List Tuple :=
  ⟨sampleObject "group" "a", "member", .object (sampleObject "user" "bob")⟩ :: nestedGrants.reverse

def tightLimits : AuthorizationLimits := { maxTuples := 7, maxDepth := 9, maxSteps := 60 }

theorem moreGrants_checks :
    ∃ authorization result,
      new RealmId.system nestedGroups moreGrants tightLimits = .ok authorization ∧
      authorization.check (readCheck "ann") = .ok result := by
  have hanswers : ((new RealmId.system nestedGroups moreGrants tightLimits >>= fun authorization =>
        authorization.check (readCheck "ann")).isOk) := by
    decide +kernel
  cases hresult : new RealmId.system nestedGroups moreGrants tightLimits >>= fun authorization =>
        authorization.check (readCheck "ann") with
  | error => simp [hresult, Except.isOk, Except.toBool] at hanswers
  | ok result =>
    obtain ⟨authorization, hnew, hcheck⟩ := bind_eq_ok.mp hresult
    exact ⟨authorization, result, hnew, hcheck⟩

theorem more_tuples_permit_more_nestedGroups :
    ∃ authorization, new RealmId.system nestedGroups moreGrants tightLimits = .ok authorization ∧
      authorization.check (readCheck "ann") = .ok true := by
  obtain ⟨_, hnew, hann, -⟩ := nestedGroups_checks
  obtain ⟨authorization, result, hnew', hcheck⟩ := moreGrants_checks
  have hmore : nestedGrants ⊆ moreGrants := by decide
  obtain rfl := more_tuples_permit_more hmore hnew hnew' hann hcheck
  exact ⟨authorization, hnew', hcheck⟩

end Keldra.Authz
