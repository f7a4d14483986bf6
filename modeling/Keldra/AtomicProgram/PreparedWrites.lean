import Keldra.AtomicProgram.Intent

/-!
# Writes stay inside the declared intent

The intent of a path is computed from the definition before anything is read.
Whatever the snapshot holds, a prepared bundle writes only what the intent of
the path allows: the working copies start inside the intent, and every
operation keeps them there.
-/

namespace Keldra.AtomicProgram

open Foundation List AtomicProgramEngine Operation

variable {definition : ProgramDefinition} {invocation : ProgramInvocation}
  {resolved : ResolvedInvocation} {snapshot : ProgramSnapshot} {working : List WorkingDocument}
  {context : InvocationContext} {document : ResolvedDocument}

section

variable {host : Host} {index : Nat} {working' : List WorkingDocument}

/-- The working copy is inside the intent of its position. -/
structure WorkingDocument.Within
    (definition : ProgramDefinition) (document : WorkingDocument) : Prop where
  writable : document.dirty = true → definition.Writable document.reference.slot
  put : document.dirty = true → document.current.isSome = true →
    (definition.pathIntent document.reference).put = true
  delete : document.dirty = true → document.current.isSome = false →
    (definition.pathIntent document.reference).delete = true
  paired : document.current.isSome = document.currentContentType.isSome

/-- A working copy of a resolved document, inside its intent. -/
structure Tracks
    (definition : ProgramDefinition) (snapshot : ProgramSnapshot) (document : ResolvedDocument)
    (working : WorkingDocument) : Prop where
  reference : working.reference = document.reference
  path : working.path = document.path
  observed : working.observed = observedHead (snapshot.documents.get? document.path)
  within : working.Within definition

/-- An edit keeps the identity and the observed head of a working copy. -/
structure SameDocument (before after : WorkingDocument) : Prop where
  reference : after.reference = before.reference
  path : after.path = before.path
  observed : after.observed = before.observed

theorem forall₂_set {α β : Type} {R : α → β → Prop} {as : List α} {bs : List β}
    (h : List.Forall₂ R as bs) {a : α} {b : β} (ha : as[index]? = some a) (hab : R a b) :
    List.Forall₂ R as (bs.set index b) := by
  induction h generalizing index with
  | nil => simp at ha
  | cons hhead htail ih =>
    cases index with
    | zero =>
      cases ha
      exact Forall₂.cons hab htail
    | succ => exact Forall₂.cons hhead (ih ha)

/-- Publishing a value needs a put at a writable slot. -/
theorem within_of_put {document : WorkingDocument} {value : StoredValue} {contentType : String}
    (hwritable : definition.Writable document.reference.slot)
    (hput : (definition.pathIntent document.reference).put = true) :
    WorkingDocument.Within definition
      { document with
        current := some value
        currentContentType := some contentType
        dirty := true } := by
  refine ⟨fun _ => hwritable, fun _ _ => hput, ?_, rfl⟩
  intro _ hnone
  cases hnone

theorem editJson_within {edit : Json → Except String Json} {before after : WorkingDocument}
    (hwithin : before.Within definition) (hwritable : definition.Writable before.reference.slot)
    (hput : (definition.pathIntent before.reference).put = true)
    (h : editJson host edit before = .ok after) :
    SameDocument before after ∧ after.Within definition := by
  unfold editJson at h
  split at h
  · rename_i value hvalue
    simp only [bind_eq_ok, Except.ok.injEq] at h
    obtain ⟨_, _, rfl⟩ := h
    refine ⟨⟨rfl, rfl, rfl⟩, fun _ => hwritable, fun _ _ => hput, ?_, ?_⟩
    · intro _ hnone
      cases hnone
    have hpaired := hwithin.paired
    rw [hvalue] at hpaired
    exact hpaired
  · cases h
  · cases h

section

variable (hindexes : Indexes resolved.byReference resolved.documents)
  (htracks : List.Forall₂ (Tracks definition snapshot) resolved.documents working)

include hindexes htracks

/-- An edit that stays within the intent of its position keeps the working
copies tracked. -/
theorem editDocument_tracks
    {reference : DocumentRef} {edit : WorkingDocument → Except String WorkingDocument}
    (hedit : ∀ before after, before.reference = reference → before.Within definition →
    edit before = .ok after → SameDocument before after ∧ after.Within definition)
    (h : editDocument host resolved reference edit working = .ok working') :
    List.Forall₂ (Tracks definition snapshot) resolved.documents working' := by
  simp only [editDocument, workingIndex, ok_rules, Except.ok.injEq] at h
  obtain ⟨_, hindex, before, hbefore, after, hafter, rfl⟩ := h
  obtain ⟨document, hdocument, href⟩ := hindexes _ _ hindex
  have htrack : Tracks definition snapshot document before := by
    obtain ⟨hindex, rfl⟩ := List.getElem?_eq_some_iff.mp hdocument
    obtain ⟨hindex', rfl⟩ := List.getElem?_eq_some_iff.mp hbefore
    exact htracks.get hindex hindex'
  obtain ⟨hsame, hwithin⟩ := hedit before after (htrack.reference.trans href) htrack.within hafter
  refine forall₂_set htracks hdocument ⟨?_, ?_, ?_, hwithin⟩
  · exact hsame.reference.trans htrack.reference
  · exact hsame.path.trans htrack.path
  · exact hsame.observed.trans htrack.observed

theorem setDocumentJson_tracks {target : JsonPointerRef} {replacement : Json}
    (hwritable : definition.Writable target.document.slot)
    (hput : (definition.pathIntent target.document).put = true)
    (h : setDocumentJson host resolved target replacement working = .ok working') :
    List.Forall₂ (Tracks definition snapshot) resolved.documents working' := by
  refine editDocument_tracks hindexes htracks ?_ h
  rintro _ _ href hwithin hedit
  rw [← href] at hwritable hput
  split at hedit
  · cases hedit
    exact ⟨⟨rfl, rfl, rfl⟩, within_of_put hwritable hput⟩
  · exact editJson_within hwithin hwritable hput hedit

/-- Every operation of a valid definition stays within the intent. -/
theorem evaluateOperation_tracks
    (hvalid : definition.Valid) {operation : Operation} (hmem : operation ∈ definition.operations)
    (h : evaluateOperation host invocation resolved working operation = .ok working') :
    List.Forall₂ (Tracks definition snapshot) resolved.documents working' := by
  cases operation with
  | setValue target | copyValue _ target =>
    simp only [evaluateOperation, bind_eq_ok] at h
    obtain ⟨_, _, hset⟩ := h
    exact setDocumentJson_tracks hindexes htracks (hvalid.puts _ hmem target.document rfl)
      (pathIntent_put_of_operation hmem rfl) hset
  | removeValue target =>
    refine editDocument_tracks hindexes htracks ?_ h
    rintro before _ href hwithin hedit
    split at hedit
    · rename_i hroot
      cases hedit
      have hdeletes : (removeValue target).Deletes before.reference := ⟨href.symm, hroot⟩
      refine ⟨⟨rfl, rfl, rfl⟩, ?_, ?_, ?_, rfl⟩
      · exact fun _ => hvalid.deletes _ hmem _ hdeletes
      · intro _ hsome
        cases hsome
      · exact fun _ _ => pathIntent_delete_of_operation hmem hdeletes
    rename_i hbelow
    have hputs : (removeValue target).Puts before.reference := ⟨href.symm, hbelow⟩
    exact editJson_within hwithin (hvalid.puts _ hmem _ hputs)
      (pathIntent_put_of_operation hmem hputs) hedit
  | checkedIntegerAdd target delta numericType =>
    simp only [evaluateOperation, bind_eq_ok] at h
    obtain ⟨_, _, hedited⟩ := h
    refine editDocument_tracks hindexes htracks ?_ hedited
    rintro before _ href hwithin hedit
    have hputs : (checkedIntegerAdd target delta numericType).Puts before.reference :=
      href.symm
    exact editJson_within hwithin (hvalid.puts _ hmem _ hputs)
      (pathIntent_put_of_operation hmem hputs) hedit
  | replaceOpaque document input contentType =>
    simp only [evaluateOperation, bind_eq_ok] at h
    obtain ⟨_, _, hedited⟩ := h
    refine editDocument_tracks hindexes htracks ?_ hedited
    rintro before _ href _ hedit
    cases hedit
    have hputs : (replaceOpaque document input contentType).Puts before.reference :=
      href.symm
    exact ⟨⟨rfl, rfl, rfl⟩, within_of_put (hvalid.puts _ hmem _ hputs)
      (pathIntent_put_of_operation hmem hputs)⟩

theorem evaluateOperations_tracks {operations : List Operation}
    (hvalid : definition.Valid)
    (hmem : ∀ operation ∈ operations, operation ∈ definition.operations)
    (h : evaluateOperations host invocation resolved index operations working = .ok working') :
    List.Forall₂ (Tracks definition snapshot) resolved.documents working' := by
  induction operations generalizing index working with
  | nil =>
    cases h
    exact htracks
  | cons operation _ ih =>
    simp only [evaluateOperations, bind_eq_ok, mapError_eq_ok] at h
    obtain ⟨_, hmiddle, hrest⟩ := h
    refine ih ?_ ?_ hrest
    · exact evaluateOperation_tracks hindexes htracks hvalid (hmem operation (by simp)) hmiddle
    · intro other hother
      exact hmem other (mem_cons_of_mem _ hother)

end

/-- A live head of an accepted snapshot has a content type. -/
theorem paired_of_validateSnapshot {path : ObjectPath}
    (h : validateSnapshot host resolved snapshot = .ok ())
    {document : VersionedDocument} (hdocument : snapshot.documents.get? path = some document) :
    document.value.isSome = document.contentType.isSome := by
  simp only [validateSnapshot, ok_rules] at h
  have hpaired := forM_eq_ok.mp h.2.2 (path, document)
    ((OrdMap.get?_eq_some_iff _ _ _).mp hdocument)
  simpa using hpaired

/-- The working copies start inside the intent. -/
theorem new_tracks (hvalid : definition.Valid)
    (hdeclared : document.Declared definition context invocation)
    (hpaired : ∀ found, snapshot.documents.get? document.path = some found →
    found.value.isSome = found.contentType.isSome) :
    Tracks definition snapshot document (WorkingDocument.new document
    (snapshot.documents.get? document.path)) := by
  unfold WorkingDocument.new
  split
  · rename_i value hvalue
    obtain ⟨found, hfound, hstored⟩ := Option.bind_eq_some_iff.mp hvalue
    refine ⟨rfl, rfl, rfl, ?_, ?_, ?_, ?_⟩
    · intro hdirty
      cases hdirty
    · intro hdirty
      cases hdirty
    · intro hdirty
      cases hdirty
    have hpair := hpaired found hfound
    rw [hstored] at hpair
    simpa [hfound] using hpair
  unfold WorkingDocument.initial
  split
  · rename_i value hvalue
    obtain ⟨_, spec, hspec, hslot, _, hinitial⟩ := hdeclared
    obtain ⟨hallow, haccess⟩ := hinitial (by rw [hvalue]; rfl)
    have hput := pathIntent_put_of_initial hvalid hspec hallow hslot
    refine ⟨rfl, rfl, rfl, ?_, ?_, ?_, rfl⟩
    · exact fun _ => ⟨spec, hspec, hslot, haccess⟩
    · exact fun _ _ => hput
    intro _ hnone
    cases hnone
  · refine ⟨rfl, rfl, rfl, ?_, ?_, ?_, rfl⟩
    · intro hdirty
      cases hdirty
    · intro hdirty
      cases hdirty
    intro hdirty
    cases hdirty

theorem loaded_tracks {loaded : List WorkingDocument}
    (hvalid : definition.Valid) (hok : resolved.Ok definition context invocation)
    (hsnapshot : validateSnapshot host resolved snapshot = .ok ())
    (h : resolved.documents.mapM (loadWorking snapshot) = .ok loaded) :
    List.Forall₂ (Tracks definition snapshot) resolved.documents loaded := by
  have hloaded := mapM_eq_ok.mp h
  refine forall₂_iff_zip.mpr ⟨hloaded.length_eq, ?_⟩
  intro document _ hpair
  have hload := (forall₂_iff_zip.mp hloaded).2 hpair
  simp only [loadWorking, ok_rules, Except.ok.injEq] at hload
  obtain ⟨_, rfl⟩ := hload
  refine new_tracks hvalid (hok.declared document (of_mem_zip hpair).1) ?_
  intro _ hfound
  exact paired_of_validateSnapshot hsnapshot hfound

end

variable {bundle : AtomicWriteBundle} {engine : AtomicProgramEngine}

/-- The participant is the document at the expanded path, and what it writes
is inside the intent of that path. -/
structure ParticipantWithin
    (definition : ProgramDefinition) (context : InvocationContext) (invocation : ProgramInvocation)
    (snapshot : ProgramSnapshot) (participant : AtomicParticipant)
    (expanded : ExpandedProgramPath) : Prop where
  path : participant.path = expanded.path
  tenant : expanded.path.tenant = context.tenant
  expected : participant.expected = observedHead (snapshot.documents.get? expanded.path)
  put : ∀ write, participant.write = some write →
    write.value.isSome = true → expanded.intent.put = true
  delete : ∀ write, participant.write = some write →
    write.value.isSome = false → expanded.intent.delete = true
  paired : ∀ write, participant.write = some write → write.value.isSome = write.contentType.isSome
  /-- The path is bound to a slot the program may write. -/
  readWrite : participant.write.isSome = true →
    ∃ spec ∈ definition.documents, spec.access = .readWrite ∧
      ∃ binding ∈ invocation.bound spec.name, binding.path = expanded.path

theorem participantWithin_of_tracks {working : WorkingDocument}
    (hdeclared : document.Declared definition context invocation)
    (htracks : Tracks definition snapshot document working) :
    ParticipantWithin definition context invocation snapshot (toParticipant working)
    { path := document.path, intent := definition.pathIntent document.reference } := by
  have hwrite : ∀ write, (toParticipant working).write = some write → working.dirty = true ∧
    write.value = working.current ∧ write.contentType = working.currentContentType := by
    intro _ hsome
    simp only [toParticipant] at hsome
    split at hsome
    · rename_i hdirty
      cases hsome
      exact ⟨hdirty, rfl, rfl⟩
    · cases hsome
  obtain ⟨htenant, _, _, hslot, ⟨binding, hbinding, hpath⟩, _⟩ := hdeclared
  refine ⟨htracks.path, htenant, htracks.observed, ?_, ?_, ?_, ?_⟩
  · intro write hsome hvalue
    obtain ⟨hdirty, hcurrent, _⟩ := hwrite write hsome
    rw [hcurrent] at hvalue
    rw [← htracks.reference]
    exact htracks.within.put hdirty hvalue
  · intro write hsome hvalue
    obtain ⟨hdirty, hcurrent, _⟩ := hwrite write hsome
    rw [hcurrent] at hvalue
    rw [← htracks.reference]
    exact htracks.within.delete hdirty hvalue
  · intro write hsome
    obtain ⟨_, hcurrent, hcontent⟩ := hwrite write hsome
    rw [hcurrent, hcontent]
    exact htracks.within.paired
  intro hsome
  obtain ⟨write, hwritten⟩ := Option.isSome_iff_exists.mp hsome
  obtain ⟨hdirty, _⟩ := hwrite write hwritten
  obtain ⟨writable, hmem, hname, haccess⟩ := htracks.within.writable hdirty
  rw [htracks.reference, ← hslot] at hname
  exact ⟨writable, hmem, haccess, binding, hname ▸ hbinding, hpath⟩

/-- Sorting two tracked lists by path keeps them aligned. -/
theorem forall₂_insertionSort {α β γ : Type} {R : β → γ → Prop} {f : α → β} {g : α → γ}
    (keyLeft : β → ObjectPath) (keyRight : γ → ObjectPath) {pairs : List α}
    (hkeys : ∀ a ∈ pairs, keyLeft (f a) = keyRight (g a)) (h : ∀ a ∈ pairs, R (f a) (g a)) :
    List.Forall₂ R ((pairs.map f).insertionSort (fun a b => keyLeft a ≤ keyLeft b))
    ((pairs.map g).insertionSort (fun a b => keyRight a ≤ keyRight b)) := by
  have hleft : (pairs.map f).insertionSort (fun a b => keyLeft a ≤ keyLeft b) = (pairs.insertionSort
        (fun a b => keyLeft (f a) ≤ keyLeft (f b))).map f :=
    (map_insertionSort _ _ f pairs (by simp)).symm
  have hright : (pairs.map g).insertionSort (fun a b => keyRight a ≤ keyRight b) =
    (pairs.insertionSort (fun a b => keyLeft (f a) ≤ keyLeft (f b))).map g := by
    refine (map_insertionSort _ _ g pairs ?_).symm
    intro a ha b hb
    rw [hkeys a ha, hkeys b hb]
  rw [hleft, hright, forall₂_map_left_iff, forall₂_map_right_iff, forall₂_same]
  intro a ha
  exact h a ((mem_insertionSort _).mp ha)

theorem map_insertionSort_key {α : Type} (key : α → ObjectPath) (elements : List α) :
    (elements.insertionSort (fun a b => key a ≤ key b)).map key = sortPaths (elements.map key) :=
  map_insertionSort _ _ key elements (by simp)

/-- Sorting distinct paths gives them in strictly ascending order. -/
theorem pairwise_lt_sortPaths {paths : List ObjectPath} (hnodup : paths.Nodup) :
    (sortPaths paths).Pairwise (· < ·) := by
  have hsorted : (sortPaths paths).Pairwise (· ≤ ·) := pairwise_insertionSort (· ≤ ·) paths
  have hdistinct : (sortPaths paths).Nodup :=
    ((perm_insertionSort (· ≤ ·) paths).nodup_iff).mpr hnodup
  exact (hsorted.and hdistinct).imp (fun hpair => lt_of_le_of_ne hpair.1 hpair.2)

/-- Only dirty working copies become writes. -/
theorem length_writes (h : bundle.participants.Perm (working.map toParticipant)) :
    bundle.writes.length = working.countP WorkingDocument.dirty := by
  have hdirty : ∀ document : WorkingDocument,
      (toParticipant document).write.isSome = document.dirty := by
    intro document
    cases h : document.dirty <;> simp [toParticipant, h]
  rw [AtomicWriteBundle.writes, length_filterMap_eq_countP, h.countP_eq, countP_map]
  refine countP_congr ?_
  simp [hdirty]

/-- An evaluation sorts tracked working copies into participants. -/
theorem evaluate_tracks (hok : resolved.Ok engine.definition context invocation)
    (h : engine.evaluate invocation resolved snapshot = .ok bundle) :
    ∃ working, List.Forall₂ (Tracks engine.definition snapshot) resolved.documents working ∧
    working.countP WorkingDocument.dirty ≤ engine.definition.caps.maxWrites ∧
    bundle.participants = (working.map toParticipant).insertionSort
    (fun left right => left.path ≤ right.path) := by
  have hvalid := valid_of_validate engine.valid
  simp only [evaluate, ok_rules, not_lt, Except.ok.injEq] at h
  obtain ⟨hsnapshot, _, hload, _, _, working, hoperations, _, hcount, _, _, rfl⟩ := h
  have hloaded := loaded_tracks hvalid hok hsnapshot hload
  have htracks := evaluateOperations_tracks hok.indexes hloaded hvalid
    (fun _ hmem => hmem) hoperations
  exact ⟨working, htracks, hcount, rfl⟩

/-- Preparation reads one snapshot of the sorted paths and evaluates it. -/
theorem prepare_eq_ok (h : engine.prepare context invocation = .ok bundle) :
    ∃ resolved canonical snapshot, engine.resolve context invocation = .ok resolved ∧
    canonical.documents = resolved.documents ∧ canonical.Ok engine.definition context invocation ∧
    engine.reader (sortPaths (resolved.documents.map ResolvedDocument.path)) = .ok snapshot ∧
    engine.evaluate invocation canonical snapshot = .ok bundle := by
  simp only [prepare, prepareCanonicalized,
    canonicalizeResolvedPaths, ok_rules, Prod.exists, mapError_eq_ok, Except.ok.injEq] at h
  obtain ⟨resolved, hresolve, _, ⟨_, _, unique, hcanonical, rfl⟩, snapshot, hread, hevaluate⟩ := h
  have hok := resolve_ok hresolve
  obtain ⟨rfl, hunique⟩ := canonicalizeDocuments_empty hcanonical
  have hpaths : unique.keys = sortPaths (resolved.documents.map ResolvedDocument.path) := by
    have hkeys : unique.keys.Pairwise (· < ·) := pairwise_map.mpr unique.ascending
    refine hkeys.eq_of_mem_iff (pairwise_lt_sortPaths hok.nodup) fun _ => ?_
    rw [← OrdSet.contains_iff_mem_keys, hunique, sortPaths, mem_insertionSort]
    simp [OrdMap.contains]
  rw [hpaths] at hread
  refine ⟨resolved, _, snapshot, hresolve, ?_, ?_, hread, hevaluate⟩
  · rfl
  · exact ⟨hok.nodup, hok.indexes, hok.declared⟩

/-- **Writes stay inside the authorized intent.**  The participants of a
prepared bundle are the expanded paths of the same invocation, each once and in
ascending order, with the heads of the one snapshot read for them; every write
is within the intent of its path and on a slot the program may write. -/
theorem prepare_within_intent
    {engine : AtomicProgramEngine} {context : InvocationContext} {invocation : ProgramInvocation}
    {bundle : AtomicWriteBundle} (h : engine.prepare context invocation = .ok bundle) :
    ∃ expanded snapshot, engine.expandedPaths context invocation = .ok expanded ∧
    engine.reader (expanded.map ExpandedProgramPath.path) = .ok snapshot ∧
    (expanded.map ExpandedProgramPath.path).Pairwise (· < ·) ∧
    List.Forall₂ (ParticipantWithin engine.definition context invocation snapshot)
    bundle.participants expanded ∧ bundle.writes.length ≤ engine.definition.caps.maxWrites := by
  obtain ⟨resolved, _, snapshot, hresolve, hdocuments, hok, hread, hevaluate⟩ := prepare_eq_ok h
  obtain ⟨working, htracks, hcount, hparticipants⟩ := evaluate_tracks hok hevaluate
  rw [hdocuments] at htracks
  have hnodup := hok.nodup
  have hdeclared := hok.declared
  rw [hdocuments] at hnodup hdeclared
  obtain ⟨_, hzip⟩ := forall₂_iff_zip.mp htracks
  -- Both sorted lists are images of the documents paired with their copies.
  have hleft : working.map toParticipant =
      (resolved.documents.zip working).map (fun p => toParticipant p.2) := by
    conv_lhs => rw [← map_snd_zip (by omega : working.length ≤ resolved.documents.length)]
    rw [map_map]
    rfl
  let toExpanded : ResolvedDocument → ExpandedProgramPath := fun document =>
    { path := document.path, intent := engine.definition.pathIntent document.reference }
  have hright : resolved.documents.map toExpanded =
      (resolved.documents.zip working).map (fun p => toExpanded p.1) := by
    conv_lhs => rw [← map_fst_zip (by omega :
      resolved.documents.length ≤ working.length)]
    rw [map_map]
    rfl
  refine ⟨(resolved.documents.map toExpanded).insertionSort
    (fun left right => left.path ≤ right.path), snapshot, ?_, ?_, ?_, ?_, ?_⟩
  · simp only [AtomicProgramEngine.expandedPaths, hresolve]
    rfl
  · rw [map_insertionSort_key, map_map]
    exact hread
  · rw [map_insertionSort_key, map_map]
    exact pairwise_lt_sortPaths hnodup
  · rw [hparticipants, hleft, hright]
    refine forall₂_insertionSort AtomicParticipant.path ExpandedProgramPath.path ?_ ?_
    · rintro ⟨_, _⟩ hpair
      exact (hzip hpair).path
    rintro ⟨document, _⟩ hpair
    exact participantWithin_of_tracks (hdeclared document (of_mem_zip hpair).1) (hzip hpair)
  have hperm : bundle.participants.Perm (working.map toParticipant) := by
    rw [hparticipants]
    exact perm_insertionSort _ _
  rw [length_writes hperm]
  exact hcount

/-- Move a balance: one document is replaced, the other one deleted. -/
def transferDefinition : ProgramDefinition :=
  { schemaVersion := 1
    documents :=
      [ { name := "account"
          path := ⟨⟨"\x7btenant\x7d"⟩, ⟨"ledger"⟩, ⟨"accounts/\x7bid\x7d"⟩⟩
          cardinality := .repeated 2
          access := .readWrite
          allowInitialJson := true } ]
    assertions := [.exists ⟨"account", 1⟩]
    operations := [ .copyValue ⟨⟨⟨"account", 1⟩, ""⟩, .before⟩ ⟨⟨"account", 0⟩, ""⟩,
      .removeValue ⟨⟨"account", 1⟩, ""⟩ ]
    returns := []
    caps := {} }

def accountPath (id : String) : ObjectPath :=
  ⟨"acme", "ledger", "accounts/" ++ id⟩

def transferEngine : AtomicProgramEngine :=
  { definition := transferDefinition
    valid := by decide +kernel
    reader := fun _ =>
      .ok ⟨OrdMap.empty.insert (accountPath "a")
        ⟨"v1", some (.json (.number (.posInt 7))), some "application/json"⟩⟩
    host :=
      { json := ⟨fun value pointer => if pointer = "" then some value else none,
          fun _ _ => false, fun _ => none, fun _ => none⟩
        invocationBytes := fun _ => .ok 1
        jsonBytes := fun _ => .ok 1
        debugPath := ObjectPath.path
        debugReference := DocumentRef.slot } }

def bindAccount (id : String) : PathBinding :=
  { path := accountPath id
    templateValues := OrdMap.empty.insert "id" id
    expectedHead := .any
    initialJson := none }

def transferInvocation : ProgramInvocation :=
  { programPathHash := 1
    commandId := "c1"
    inputFingerprint := String.ofList (List.replicate 64 '0')
    arguments := OrdMap.empty
    inputs := OrdMap.empty
    blobs := OrdMap.empty
    bindings := OrdMap.empty.insert "account" [bindAccount "b", bindAccount "a"] }

theorem transferEngine_prepares :
    ∃ bundle, transferEngine.prepare ⟨"acme"⟩ transferInvocation = .ok bundle := by
  have hok : (transferEngine.prepare ⟨"acme"⟩ transferInvocation).toOption.isSome = true := by
    decide +kernel
  cases h : transferEngine.prepare ⟨"acme"⟩ transferInvocation with
  | error e =>
    rw [h] at hok
    cases hok
  | ok bundle => exact ⟨bundle, rfl⟩

theorem prepare_within_intent_transfer :
    ∃ bundle, transferEngine.prepare ⟨"acme"⟩ transferInvocation = .ok bundle ∧ ∃ expanded snapshot,
    transferEngine.expandedPaths ⟨"acme"⟩ transferInvocation = .ok expanded ∧ List.Forall₂
    (ParticipantWithin transferDefinition ⟨"acme"⟩ transferInvocation snapshot)
    bundle.participants expanded ∧ bundle.writes.length ≤ 16 := by
  obtain ⟨bundle, hbundle⟩ := transferEngine_prepares
  obtain ⟨expanded, snapshot, hexpanded, _, _, hwithin, hwrites⟩ := prepare_within_intent hbundle
  exact ⟨bundle, hbundle, expanded, snapshot, hexpanded, hwithin, hwrites⟩

end Keldra.AtomicProgram
