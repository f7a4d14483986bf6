import Keldra.AtomicProgram.Engine

/-!
# Declared intent, valid definitions and resolution

What the static parts of an execution establish: which operations the intent of
a document position accounts for, what validation guarantees about the slots of
a definition, and what the resolved documents of an invocation are.
-/

namespace Keldra.AtomicProgram

open Foundation List

variable {definition : ProgramDefinition} {reference : DocumentRef} {operation : Operation}

section

variable (reference : DocumentRef)

/-- The operation publishes a value at the position. -/
def Operation.Puts : Operation → Prop
  | .setValue target _ => target.document = reference
  | .checkedIntegerAdd target _ _ => target.document = reference
  | .copyValue _ target => target.document = reference
  | .removeValue target => target.document = reference ∧ target.pointer ≠ ""
  | .replaceOpaque document _ _ => document = reference

/-- The operation deletes the document at the position. -/
def Operation.Deletes : Operation → Prop
  | .removeValue target => target.document = reference ∧ target.pointer = ""
  | _ => False

theorem operationIntent_iff (intent : ProgramPathIntent) (operation : Operation) :
    ((ProgramDefinition.operationIntent reference intent operation).put = true ↔
    intent.put = true ∨ operation.Puts reference) ∧
    ((ProgramDefinition.operationIntent reference intent operation).delete = true ↔
    intent.delete = true ∨ operation.Deletes reference) := by
  unfold Operation.Puts Operation.Deletes
  cases operation with
  | setValue target | checkedIntegerAdd target | copyValue _ target =>
    by_cases h : target.document = reference <;> simp [ProgramDefinition.operationIntent, h]
  | removeValue target =>
    by_cases h : target.document = reference
    · by_cases hp : target.pointer = "" <;> simp [ProgramDefinition.operationIntent, h, hp]
    · simp [ProgramDefinition.operationIntent, h]
  | replaceOpaque document =>
    by_cases h : document = reference <;> simp [ProgramDefinition.operationIntent, h]

/-- Scanning operations only ever adds to an intent. -/
theorem foldl_operationIntent (operations : List Operation) (intent : ProgramPathIntent) :
    ((operations.foldl (ProgramDefinition.operationIntent reference) intent).put = true ↔
    intent.put = true ∨ ∃ o ∈ operations, o.Puts reference) ∧
    ((operations.foldl (ProgramDefinition.operationIntent reference) intent).delete = true ↔
    intent.delete = true ∨ ∃ o ∈ operations, o.Deletes reference) := by
  induction operations generalizing intent with
  | nil => simp
  | cons operation _ ih =>
    obtain ⟨hput, hdelete⟩ := ih (ProgramDefinition.operationIntent reference intent operation)
    rw [(operationIntent_iff reference intent operation).1] at hput
    rw [(operationIntent_iff reference intent operation).2] at hdelete
    simp only [foldl_cons, hput, hdelete, exists_mem_cons_iff, or_assoc, and_self]

end

theorem pathIntent_put_of_operation
    (hmem : operation ∈ definition.operations) (hputs : operation.Puts reference) :
    (definition.pathIntent reference).put = true :=
  (foldl_operationIntent reference definition.operations _).1.mpr (.inr ⟨operation, hmem, hputs⟩)

theorem pathIntent_delete_of_operation
    (hmem : operation ∈ definition.operations) (hdeletes : operation.Deletes reference) :
    (definition.pathIntent reference).delete = true :=
  (foldl_operationIntent reference definition.operations _).2.mpr (.inr ⟨operation, hmem, hdeletes⟩)

variable {spec : DocumentSpec}

section

variable {slots : OrdMap String DocumentSpec}

/-- Every slot of the table is a declared document, and the declared documents
are found under their names. -/
theorem addSlots_spec {documents : List DocumentSpec} {table table' : SlotTable}
    (h : addSlots documents table = .ok table') (name : String) (spec : DocumentSpec) :
    table'.slots.get? name = some spec ↔ table.slots.get? name = some spec ∨
    (spec ∈ documents ∧ spec.name = name) := by
  induction documents generalizing table with
  | nil =>
    cases h
    simp
  | cons document _ ih =>
    rw [addSlots, foldlM_cons, bind_eq_ok] at h
    obtain ⟨_, hadd, hrest⟩ := h
    simp only [addSlot, ok_rules, Except.ok.injEq] at hadd
    obtain ⟨_, _, _, _, hfree, _, _, _, _, rfl⟩ := hadd
    have hnone : table.slots.get? document.name = none := by simpa [OrdMap.contains] using hfree
    rw [ih hrest, OrdMap.get?_insert]
    by_cases hname : name = document.name
    · subst hname
      simp only [if_true, Option.some.injEq, hnone, mem_cons]
      constructor
      · rintro (rfl | ⟨hmem, hspec⟩)
        · exact .inr ⟨.inl rfl, rfl⟩
        · exact .inr ⟨.inr hmem, hspec⟩
      rintro (hnever | ⟨rfl | hmem, hspec⟩)
      · cases hnever
      · exact .inl rfl
      · exact .inr ⟨hmem, hspec⟩
    have hother : ∀ spec : DocumentSpec, spec.name = name → spec ≠ document := by
      rintro _ rfl rfl
      exact hname rfl
    simp only [if_neg hname, mem_cons]
    constructor
    · rintro (hold | ⟨hmem, hspec⟩)
      · exact .inl hold
      · exact .inr ⟨.inr hmem, hspec⟩
    rintro (hold | ⟨rfl | hmem, hspec⟩)
    · exact .inl hold
    · exact absurd rfl (hother _ hspec)
    · exact .inr ⟨hmem, hspec⟩

/-- A slot of the definition that operations may write. -/
def ProgramDefinition.Writable (definition : ProgramDefinition) (slot : String) : Prop :=
  ∃ spec ∈ definition.documents, spec.name = slot ∧ spec.access = .readWrite

/-- What validation establishes for execution. -/
structure ProgramDefinition.Valid (definition : ProgramDefinition) : Prop where
  /-- The first document of a name is the only one. -/
  unique : ∀ spec ∈ definition.documents, definition.documents.find?
    (fun document => decide (document.name = spec.name)) = some spec
  puts : ∀ operation ∈ definition.operations, ∀ reference,
    operation.Puts reference → definition.Writable reference.slot
  deletes : ∀ operation ∈ definition.operations, ∀ reference,
    operation.Deletes reference → definition.Writable reference.slot

theorem writable_of_checkReference (hslots : ∀ name spec, slots.get? name = some spec ↔
    spec ∈ definition.documents ∧ spec.name = name)
    (h : checkReference slots reference true = .ok ()) : definition.Writable reference.slot := by
  simp only [checkReference, ok_rules, true_and, not_not] at h
  obtain ⟨spec, hspec, _, haccess⟩ := h
  obtain ⟨hmem, hname⟩ := (hslots _ _).mp hspec
  exact ⟨spec, hmem, hname, haccess⟩

theorem checkReference_of_checkPosition {position : JsonPointerRef} {writable : Bool}
    (h : checkPosition slots position writable = .ok ()) :
    checkReference slots position.document writable = .ok () := by
  simp only [checkPosition, ok_rules] at h
  exact h.1

/-- The position an operation edits is checked as a writable one. -/
theorem checkReference_of_validateOperation (h : validateOperation slots operation = .ok ())
    (hedits : operation.Puts reference ∨ operation.Deletes reference) :
    checkReference slots reference true = .ok () := by
  cases operation with
  | setValue | checkedIntegerAdd | copyValue | replaceOpaque =>
    simp only [validateOperation, ok_rules] at h
    rcases hedits with rfl | hnever
    · first
        | exact h.1
        | exact checkReference_of_checkPosition h.1
        | exact checkReference_of_checkPosition h.2
    · cases hnever
  | removeValue =>
    have hcheck := checkReference_of_checkPosition h
    rcases hedits with ⟨rfl, _⟩ | ⟨rfl, _⟩ <;> exact hcheck

theorem valid_of_validate (h : definition.validate = .ok ()) : definition.Valid := by
  simp only [ProgramDefinition.validate, ok_rules, ProgramDefinition.slotTable,
    Except.ok.injEq] at h
  obtain ⟨_, _, ⟨table, htable, _, _, rfl⟩, _, hoperations, _⟩ := h
  have hslots : ∀ name spec, table.slots.get? name = some spec ↔
      spec ∈ definition.documents ∧ spec.name = name := by
    intro _ _
    rw [addSlots_spec htable]
    simp
  have hchecked := forM_eq_ok.mp hoperations
  refine ⟨?_, ?_, ?_⟩
  · intro spec hspec
    cases hfind : definition.documents.find?
      (fun document => decide (document.name = spec.name)) with
    | none =>
      have hnone := find?_eq_none.mp hfind spec hspec
      simp at hnone
    | some found =>
      have hname : found.name = spec.name := by simpa using find?_some hfind
      have hfound := (hslots spec.name found).mpr ⟨mem_of_find?_eq_some hfind, hname⟩
      have hself := (hslots spec.name spec).mpr ⟨hspec, rfl⟩
      rw [hfound] at hself
      exact hself
  · intro operation hmem _ hputs
    exact writable_of_checkReference hslots
      (checkReference_of_validateOperation (hchecked operation hmem) (.inl hputs))
  · intro operation hmem _ hdeletes
    exact writable_of_checkReference hslots
      (checkReference_of_validateOperation (hchecked operation hmem) (.inr hdeletes))

/-- A slot that permits an initial value declares a put. -/
theorem pathIntent_put_of_initial (hvalid : definition.Valid) (hmem : spec ∈ definition.documents)
    (hallow : spec.allowInitialJson = true) (hslot : spec.name = reference.slot) :
    (definition.pathIntent reference).put = true := by
  refine (foldl_operationIntent reference definition.operations _).1.mpr (.inl ?_)
  have hfind := hvalid.unique spec hmem
  rw [hslot] at hfind
  simp only [hfind, hallow]

end

section

variable {resolving resolving' : Resolving} {index : Nat}

/-- The document is one the definition declares and the invocation binds. -/
def ResolvedDocument.Declared
    (definition : ProgramDefinition) (context : InvocationContext) (invocation : ProgramInvocation)
    (document : ResolvedDocument) : Prop :=
  document.path.tenant = context.tenant ∧ ∃ spec ∈ definition.documents,
    spec.name = document.reference.slot ∧ (∃ binding ∈ invocation.bound spec.name,
      binding.path = document.path) ∧
      (document.initialJson.isSome = true → spec.allowInitialJson = true ∧ spec.access = .readWrite)

/-- The reference table points at documents of that reference. -/
def Indexes (byReference : OrdMap DocumentRef Nat) (documents : List ResolvedDocument) : Prop :=
  ∀ reference index, byReference.get? reference = some index →
    ∃ document, documents[index]? = some document ∧ document.reference = reference

structure Resolving.Ok
    (definition : ProgramDefinition) (context : InvocationContext) (invocation : ProgramInvocation)
    (resolving : Resolving) : Prop where
  nodup : (resolving.documents.map ResolvedDocument.path).Nodup
  unique : ∀ path, resolving.uniquePaths.contains path = true ↔
    path ∈ resolving.documents.map ResolvedDocument.path
  indexes : Indexes resolving.byReference resolving.documents
  declared : ∀ document ∈ resolving.documents, document.Declared definition context invocation

variable {context : InvocationContext} {invocation : ProgramInvocation}

theorem Resolving.Ok.add {document : ResolvedDocument}
    (hok : resolving.Ok definition context invocation)
    (hfresh : resolving.uniquePaths.contains document.path ≠ true)
    (hdeclared : document.Declared definition context invocation) :
    Resolving.Ok definition context invocation
      { documents := resolving.documents ++ [document]
        byReference := resolving.byReference.insert document.reference resolving.documents.length
        uniquePaths := resolving.uniquePaths.insert document.path () } := by
  refine ⟨?_, ?_, ?_, ?_⟩
  · have hnew : document.path ∉ resolving.documents.map ResolvedDocument.path :=
      fun hmem => hfresh ((hok.unique _).mpr hmem)
    rw [map_append, map_singleton, nodup_append]
    refine ⟨hok.nodup, by simp, ?_⟩
    rintro _ hpath _ hsingle rfl
    rw [mem_singleton] at hsingle
    exact hnew (hsingle ▸ hpath)
  · intro _
    rw [OrdMap.contains_insert, hok.unique]
    simp only [map_append, map_singleton, mem_append, mem_singleton]
    exact or_comm
  · intro _ _ hindex
    rw [OrdMap.get?_insert] at hindex
    split at hindex
    · rename_i href
      cases hindex
      exact ⟨document, by simp, href.symm⟩
    obtain ⟨found, hfound, href⟩ := hok.indexes _ _ hindex
    obtain ⟨hlt, _⟩ := List.getElem?_eq_some_iff.mp hfound
    exact ⟨found, by rw [getElem?_append_left hlt]; exact hfound, href⟩
  · intro other hother
    rcases mem_append.mp hother with hold | hnew
    · exact hok.declared other hold
    rw [mem_singleton.mp hnew]
    exact hdeclared

theorem Resolving.Ok.resolveBinding {binding : PathBinding} {host : Host}
    {templateValues : OrdMap String String} {pathFields : List String}
    (hspec : spec ∈ definition.documents)
    (hbinding : binding ∈ invocation.bound spec.name)
    (hok : resolving.Ok definition context invocation)
    (h : AtomicProgram.resolveBinding host context invocation templateValues
    spec pathFields index binding resolving = .ok resolving') :
    resolving'.Ok definition context invocation := by
  simp only [AtomicProgram.resolveBinding, ok_rules, ensureTenant, not_not, Except.ok.injEq] at h
  obtain ⟨_, _, expanded, _, htenant, hpath, hinitial, _, hfresh, rfl⟩ := h
  have hdeclared : ResolvedDocument.Declared definition context invocation
        { reference := ⟨spec.name, index⟩
          path := expanded
          expectedHead := binding.expectedHead
          initialJson := binding.initialJson } := by
    refine ⟨htenant, spec, hspec, rfl, ⟨binding, hbinding, hpath.symm⟩, ?_⟩
    intro hsome
    simpa [hsome] using hinitial
  exact hok.add hfresh hdeclared

theorem Resolving.Ok.resolveBindings {bindings : List PathBinding} {host : Host}
    {templateValues : OrdMap String String} {pathFields : List String}
    (hspec : spec ∈ definition.documents)
    (hbindings : ∀ binding ∈ bindings, binding ∈ invocation.bound spec.name)
    (hok : resolving.Ok definition context invocation)
    (h : AtomicProgram.resolveBindings host context invocation templateValues
    spec pathFields index bindings resolving = .ok resolving') :
    resolving'.Ok definition context invocation := by
  induction bindings generalizing index resolving with
  | nil =>
    cases h
    exact hok
  | cons binding _ ih =>
    simp only [AtomicProgram.resolveBindings, bind_eq_ok] at h
    obtain ⟨middle, hmiddle, hrest⟩ := h
    have hmiddleOk : middle.Ok definition context invocation :=
      hok.resolveBinding hspec (hbindings binding (by simp)) hmiddle
    refine ih ?_ hmiddleOk hrest
    intro other hother
    exact hbindings other (mem_cons_of_mem _ hother)

/-- What resolution establishes before anything is read. -/
structure ResolvedInvocation.Ok
    (definition : ProgramDefinition) (context : InvocationContext) (invocation : ProgramInvocation)
    (resolved : ResolvedInvocation) : Prop where
  nodup : (resolved.documents.map ResolvedDocument.path).Nodup
  indexes : Indexes resolved.byReference resolved.documents
  declared : ∀ document ∈ resolved.documents, document.Declared definition context invocation

theorem resolve_ok {resolved : ResolvedInvocation} {engine : AtomicProgramEngine}
    (h : engine.resolve context invocation = .ok resolved) :
    resolved.Ok engine.definition context invocation := by
  simp only [AtomicProgramEngine.resolve, ok_rules, Except.ok.injEq] at h
  obtain ⟨_, _, _, _, _, _, resolving, hfold, _, rfl⟩ := h
  have hok : resolving.Ok engine.definition context invocation := by
    refine foldlM_preserves ?_ ?_ hfold
    · intro _ _ hspec _ hbefore hstep
      simp only [resolveSlot, ok_rules] at hstep
      obtain ⟨_, _, _, hbindings⟩ := hstep
      exact hbefore.resolveBindings hspec (fun _ hmem => hmem) hbindings
    refine ⟨by simp, ?_, ?_, by simp⟩
    · simp [OrdMap.contains]
    intro _ _ hindex
    simp at hindex
  exact ⟨hok.nodup, hok.indexes, hok.declared⟩

/-- Without canonical paths the documents stay as they are. -/
theorem canonicalizeDocuments_empty {host : Host} {documents : List ResolvedDocument}
    {unique : OrdSet ObjectPath} {documents' : List ResolvedDocument}
    {unique' : OrdSet ObjectPath}
    (h : canonicalizeDocuments host OrdMap.empty documents unique = .ok (documents', unique')) :
    documents' = documents ∧ ∀ path, unique'.contains path = true ↔ unique.contains path = true ∨
    path ∈ documents.map ResolvedDocument.path := by
  induction documents generalizing unique documents' with
  | nil =>
    cases h
    simp
  | cons _ _ ih =>
    simp only [canonicalizeDocuments, ok_rules, Prod.exists, Except.ok.injEq,
      OrdMap.get?_empty, Option.getD_none] at h
    obtain ⟨_, _, _, hrest, rfl, rfl⟩ := h
    obtain ⟨rfl, hunique⟩ := ih hrest
    refine ⟨rfl, ?_⟩
    intro _
    rw [hunique, OrdMap.contains_insert, map_cons, mem_cons]
    tauto

end

end Keldra.AtomicProgram
