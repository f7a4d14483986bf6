import Keldra.Store.SourceStore

/-!
# Seals, releases and collection of payload artifacts

The operations on a node's lifecycle records other than the delivery of
reference effects: sealing reserves an artifact, releasing gives an unused
reservation back, and collection removes what nobody refers to.

What all of them keep is the number of references an artifact holds beyond its
reservation.  Only `applyReferenceDeltas` changes it, by the sum of the effects
it applies.
-/

namespace Keldra.Store

open Foundation List

section

/-- The reservations a seal stages, each from the stored state. -/
def reserveArtifacts
    (blobs : BlobTables) (now : Nat) (artifacts : List DestinationReferenceArtifact) :
    Except MutationError PendingBlobReferences :=
  artifacts.mapM fun artifact => do
    let state ← prepareSealedArtifactReservation blobs artifact now
    pure (artifact, state)

/-- Return the reservation of a sealed artifact that was never published. -/
def prepareAwaitingBlobRelease
    (blobs : BlobTables) (artifact : DestinationReferenceArtifact) (now : Nat) :
    Except MutationError (Option BlobReferenceState) := do
  let stored ← readBlobReferenceState blobs artifact
  let state ← okOr stored (.storage "prepared bundle references missing blob lifecycle metadata")
  if ¬ state.awaitingPublish then
    pure none
  else do
    rejectIf (state.refCount ≠ 1)
      (.storage "awaiting-publish blob must have exactly one reservation")
    pure (some
      { state with refCount := 0, awaitingPublish := false, updatedAt := max state.updatedAt now })

/-- Delete an artifact's bytes, its manifest and its lifecycle record. -/
def BlobTables.remove (blobs : BlobTables) (artifact : DestinationReferenceArtifact) : BlobTables :=
  { blobs with
    references := Function.update blobs.references artifact none
    manifests := Function.update blobs.manifests artifact none
    installs := Function.update blobs.installs artifact none }

variable (codec : LocalChangeCodec) (config : StoreConfig)

/-- Seal artifacts.  `place` is what the seal does to the byte plane: their
manifests, installations and uploads. -/
def SourceStore.sealArtifacts
    (store : SourceStore) (artifacts : List DestinationReferenceArtifact) (now : Nat)
    (admission : SourceJournalAdmission) (place : BlobTables → BlobTables) :
    Except MutationError SourceStore := do
  let states ← reserveArtifacts store.blobs now artifacts
  SourceStore.append codec config store
    (states.map fun entry => lifecycleInvalidation entry.1 entry.2.updatedAt)
    .noReferenceEffects admission
    (fun tables =>
      (tables.1,
        { place tables.2 with
          references := (stageBlobReferenceUpdates tables.2 states).references }))

/-- Release a reservation in a batch with other changes. -/
def SourceStore.releaseAwaiting
    (store : SourceStore) (artifact : DestinationReferenceArtifact) (now : Nat)
    (changes : List PendingLocalChange) (effects : LocalReferenceEffects)
    (admission : SourceJournalAdmission) : Except MutationError SourceStore := do
  let released ← prepareAwaitingBlobRelease store.blobs artifact now
  SourceStore.append codec config store changes effects admission (fun tables =>
      (tables.1,
        match released with
        | some state => tables.2.putReference artifact state
        | none => tables.2))

/-- Collect the artifact of one due record, if it is still the due one and has
been garbage for long enough.  The flag says whether it was removed. -/
def SourceStore.collectDueArtifact (store : SourceStore) (awaitingPublishTtl : Nat)
    (artifact : DestinationReferenceArtifact) (dueUpdatedAt now : Nat) :
    Except MutationError (SourceStore × Bool) := do
  match ← readBlobReferenceState store.blobs artifact with
  | none => pure (store, false)
  | some current =>
    if current.updatedAt ≠ dueUpdatedAt ∨ ¬ blobReferenceNeedsDue current then
      pure (store, false)
    else if ¬ blobReferenceIsGarbage current now awaitingPublishTtl then
      pure (store, false)
    else do
      let _ ← okOr ((store.blobs.manifests artifact).or (store.blobs.installs artifact)) (.storage
        "payload lifecycle has neither a sealed manifest nor an installation record")
      let collected ← SourceStore.append codec config store
        [lifecycleInvalidation artifact now] .noReferenceEffects .bounded
        (fun tables => (tables.1, tables.2.remove artifact))
      pure (collected, true)

end

variable {blobs : BlobTables} {artifact : DestinationReferenceArtifact} {state : BlobReferenceState}

section

/-- References a lifecycle record counts beyond its reservation. -/
def BlobReferenceState.held (state : BlobReferenceState) : Int :=
  (state.refCount : Int) - if state.awaitingPublish then 1 else 0

/-- References an artifact holds; one without a record holds none. -/
def BlobTables.held (blobs : BlobTables) (artifact : DestinationReferenceArtifact) : Int :=
  (blobs.references artifact).elim 0 BlobReferenceState.held

section

variable (artifact : DestinationReferenceArtifact)

/-- What effects add to the references of an artifact. -/
def changeOf (deltas : List DestinationReferenceDelta) : Int :=
  (deltas.map fun delta => if delta.artifact = artifact then delta.change else 0).sum

@[simp] theorem changeOf_nil :
    changeOf artifact [] = 0 := rfl

@[simp] theorem changeOf_cons (delta : DestinationReferenceDelta)
    (rest : List DestinationReferenceDelta) : changeOf artifact (delta :: rest) =
    (if delta.artifact = artifact then delta.change else 0) + changeOf artifact rest := by
  simp [changeOf]

@[simp] theorem changeOf_append (first second : List DestinationReferenceDelta) :
    changeOf artifact (first ++ second) = changeOf artifact first + changeOf artifact second := by
  simp [changeOf]

end

variable {next : BlobReferenceState}

theorem validateBlobReferenceState_eq_ok : validateBlobReferenceState state = .ok () ↔
    state.createdAt ≤ state.updatedAt ∧ (state.awaitingPublish → state.refCount = 1) := by
  simp [validateBlobReferenceState]

theorem readBlobReferenceState_eq_ok {stored : Option BlobReferenceState}
    (h : readBlobReferenceState blobs artifact = .ok stored) :
    blobs.references artifact = stored ∧
    ∀ state, stored = some state → validateBlobReferenceState state = .ok () := by
  unfold readBlobReferenceState at h
  split at h
  · rename_i hnone
    cases h
    exact ⟨hnone, by simp⟩
  rename_i state hsome
  simp only [ok_rules] at h
  obtain ⟨hvalid, rfl⟩ := h
  refine ⟨hsome, ?_⟩
  intro _ hstate'
  cases hstate'
  exact hvalid

theorem held_of_references (h : blobs.references artifact = some state) :
    blobs.held artifact = state.held := by
  rw [BlobTables.held, h, Option.elim_some]

theorem held_of_missing (h : blobs.references artifact = none) : blobs.held artifact = 0 := by
  rw [BlobTables.held, h, Option.elim_none]

/-- An effect adds its change to a record, which stays valid. -/
theorem applyReferenceChange_eq_ok {change : Int} {now : Nat}
    (h : applyReferenceChange state change now = .ok next) :
    next.held = state.held + change ∧ validateBlobReferenceState next = .ok () ∧
    state.refCount ≤ next.refCount + (-change).toNat ∧ state.updatedAt ≤ next.updatedAt := by
  simp only [applyReferenceChange, ok_rules, mapError_eq_ok, validateBlobReferenceState_eq_ok] at h
  obtain ⟨⟨_, hreserved⟩, h⟩ := h
  rw [validateBlobReferenceState_eq_ok]
  unfold BlobReferenceState.held
  split at h
  · simp only [ok_rules, checkedAdd64_eq_some] at h
    obtain ⟨_, ⟨-, rfl⟩, rfl⟩ := h
    cases hflag : state.awaitingPublish with
    | false =>
      simp only [Bool.false_eq_true, if_false, false_imp_iff, and_true]
      omega
    | true =>
      have hone := hreserved hflag
      simp only [Bool.false_eq_true, if_false, if_true, false_imp_iff, and_true]
      omega
  · simp only [ok_rules, checkedSub64_eq_some, Bool.not_eq_true] at h
    obtain ⟨hflag, _, ⟨_, rfl⟩, rfl⟩ := h
    simp only [hflag, Bool.false_eq_true, if_false, false_imp_iff, and_true]
    omega

/-- A seal keeps the references.  It leaves a valid record that has some, refreshed. -/
theorem prepareSealedArtifactReservation_eq_ok {now : Nat}
    (h : prepareSealedArtifactReservation blobs artifact now = .ok next) :
    next.held = blobs.held artifact ∧ validateBlobReferenceState next = .ok () ∧
    next.refCount ≠ 0 ∧ now ≤ next.updatedAt ∧ ∀ state, blobs.references artifact = some state →
    state.refCount ≤ next.refCount ∧ state.updatedAt ≤ next.updatedAt := by
  simp only [prepareSealedArtifactReservation, bind_eq_ok] at h
  obtain ⟨stored, hstored, h⟩ := h
  obtain ⟨hreferences, hvalid⟩ := readBlobReferenceState_eq_ok hstored
  rw [validateBlobReferenceState_eq_ok, BlobTables.held, hreferences]
  cases stored with
  | none =>
    cases h
    simp [BlobReferenceState.held]
  | some current =>
    obtain ⟨_, hreserved⟩ := validateBlobReferenceState_eq_ok.mp (hvalid current rfl)
    simp only [Option.elim_some, Option.some.injEq, forall_eq', BlobReferenceState.held]
    dsimp only at h
    split at h
    · cases h
      have hflag : current.awaitingPublish = false := by
        by_contra hflag
        have hone := hreserved (by simpa using hflag)
        omega
      simp only [hflag, Bool.false_eq_true, if_false, if_true, implies_true, and_true]
      omega
    · simp only [ok_rules] at h
      obtain ⟨-, rfl⟩ := h
      refine ⟨rfl, ⟨?_, hreserved⟩, ?_⟩ <;> dsimp only <;> omega

/-- A release keeps the references. -/
theorem held_prepareAwaitingBlobRelease {now : Nat}
    (h : prepareAwaitingBlobRelease blobs artifact now = .ok (some next)) :
    next.held = blobs.held artifact := by
  simp only [prepareAwaitingBlobRelease, ok_rules] at h
  obtain ⟨_, hstored, _, rfl, h⟩ := h
  obtain ⟨hreferences, -⟩ := readBlobReferenceState_eq_ok hstored
  split at h
  · cases h
  rename_i hflag
  simp only [ok_rules, not_not, Option.some.injEq] at h
  obtain ⟨hone, rfl⟩ := h
  rw [held_of_references hreferences]
  rw [not_not] at hflag
  simp [BlobReferenceState.held, hflag, hone]

/-- Garbage holds no reference. -/
theorem held_of_needsDue
    (hvalid : validateBlobReferenceState state = .ok ()) (hdue : blobReferenceNeedsDue state) :
    state.held = 0 := by
  have hreserved := (validateBlobReferenceState_eq_ok.mp hvalid).2
  unfold BlobReferenceState.held
  cases hflag : state.awaitingPublish with
  | false =>
    simp [blobReferenceNeedsDue, hflag] at hdue
    simp [hdue]
  | true => simp [hreserved hflag]

/-- What is collected holds no reference and has been garbage for long enough. -/
theorem collectDueArtifact_eq_ok {ttl dueUpdatedAt now : Nat} {removed : Bool}
    {store collected : SourceStore}
    (h : store.collectDueArtifact codec config ttl artifact dueUpdatedAt now =
    .ok (collected, removed)) : collected = store ∨
    store.blobs.held artifact = 0 ∧ (∃ current, store.blobs.references artifact = some current ∧
    blobReferenceIsGarbage current now ttl = true) ∧
    SourceStore.append codec config store [lifecycleInvalidation artifact now] .noReferenceEffects
    .bounded (fun tables => (tables.1, tables.2.remove artifact)) = .ok collected := by
  simp only [SourceStore.collectDueArtifact, bind_eq_ok] at h
  obtain ⟨stored, hstored, h⟩ := h
  obtain ⟨hreferences, hvalid⟩ := readBlobReferenceState_eq_ok hstored
  cases stored with
  | none =>
    cases h
    exact .inl rfl
  | some current =>
    dsimp only at h
    split_ifs at h with hdue hgarbage
    · cases h
      exact .inl rfl
    · simp only [ok_rules] at h
      obtain ⟨_, -, _, happend, rfl, -⟩ := h
      rw [not_or, not_not, not_not] at hdue
      refine .inr ⟨?_, ⟨current, hreferences, hgarbage⟩, happend⟩
      rw [held_of_references hreferences, held_of_needsDue (hvalid current rfl) hdue.2]
    · cases h
      exact .inl rfl

theorem held_putReference (blobs : BlobTables) (artifact other : DestinationReferenceArtifact)
    (state : BlobReferenceState) : (blobs.putReference artifact state).held other =
    if other = artifact then state.held else blobs.held other := by
  unfold BlobTables.held BlobTables.putReference
  by_cases hother : other = artifact
  · simp [hother]
  · simp [hother]

end

variable {states : PendingBlobReferences}

section

/-- One state for each touched artifact. -/
def PendingBlobReferences.Keyed (states : PendingBlobReferences) : Prop :=
  (states.map Prod.fst).Nodup

theorem PendingBlobReferences.get?_put (states : PendingBlobReferences)
    (artifact other : DestinationReferenceArtifact) (state : BlobReferenceState) :
    (states.put artifact state).get? other =
    if other = artifact then some state else states.get? other := by
  induction states with
  | nil =>
    by_cases hother : other = artifact
    · simp [put, get?, hother]
    · simp [put, get?, hother, Ne.symm hother]
  | cons entry _ ih =>
    unfold put
    split
    · rename_i hentry
      by_cases hother : other = artifact
      · simp [get?, hother]
      have hdifferent : artifact ≠ other := Ne.symm hother
      simp [get?, hentry, hother, hdifferent]
    rename_i hentry
    unfold get? at ih ⊢
    rw [find?_cons, find?_cons]
    by_cases hfound : entry.1 = other
    · have hother : other ≠ artifact := by
        rintro rfl
        exact hentry hfound
      simp [hfound, hother]
    simp only [hfound, decide_false]
    exact ih

theorem PendingBlobReferences.mem_keys_put {other : DestinationReferenceArtifact}
    (h : other ∈ (states.put artifact state).map Prod.fst) :
    other = artifact ∨ other ∈ states.map Prod.fst := by
  induction states with
  | nil =>
    simp only [put, map_cons, map_nil, mem_singleton] at h
    exact .inl h
  | cons _ _ ih =>
    unfold put at h
    split at h
    · rcases mem_cons.mp h with heq | hrest
      · exact .inl heq
      · exact .inr (mem_cons_of_mem _ hrest)
    rcases mem_cons.mp h with heq | hrest
    · exact .inr (heq ▸ mem_cons_self)
    rcases ih hrest with heq | hold
    · exact .inl heq
    · exact .inr (mem_cons_of_mem _ hold)

theorem PendingBlobReferences.Keyed.put
    (h : states.Keyed) (artifact : DestinationReferenceArtifact) (state : BlobReferenceState) :
    (states.put artifact state).Keyed := by
  induction states with
  | nil => exact nodup_singleton _
  | cons _ _ ih =>
    obtain ⟨hnot, hrest⟩ := nodup_cons.mp h
    unfold PendingBlobReferences.put
    split
    · rename_i hentry
      exact nodup_cons.mpr ⟨hentry ▸ hnot, hrest⟩
    rename_i hentry
    refine nodup_cons.mpr ⟨?_, ih hrest⟩
    intro hmem
    rcases PendingBlobReferences.mem_keys_put hmem with heq | hold
    · exact hentry heq
    · exact hnot hold

/-- A staged batch holds its own states, and the stored ones elsewhere. -/
theorem references_stageBlobReferenceUpdates
    (hkeyed : states.Keyed) (blobs : BlobTables) (artifact : DestinationReferenceArtifact) :
    (stageBlobReferenceUpdates blobs states).references artifact =
    (states.get? artifact).or (blobs.references artifact) := by
  induction states generalizing blobs with
  | nil => rfl
  | cons entry rest ih =>
    obtain ⟨hnot, hrest⟩ := nodup_cons.mp hkeyed
    have hfold : stageBlobReferenceUpdates blobs (entry :: rest) =
        stageBlobReferenceUpdates (blobs.putReference entry.1 entry.2) rest := rfl
    rw [hfold, ih hrest]
    unfold PendingBlobReferences.get? BlobTables.putReference
    rw [find?_cons]
    by_cases hentry : entry.1 = artifact
    · subst hentry
      have hmissing : rest.find? (fun other => other.1 = entry.1) = none := by
        rw [find?_eq_none]
        intro _ hother
        simp only [decide_eq_true_eq]
        rintro heq
        exact hnot (heq ▸ mem_map_of_mem hother)
      simp [hmissing]
    · simp [hentry, Ne.symm hentry]

theorem held_stageBlobReferenceUpdates
    (hkeyed : states.Keyed) (blobs : BlobTables) (artifact : DestinationReferenceArtifact) :
    (stageBlobReferenceUpdates blobs states).held artifact =
    (states.get? artifact).elim (blobs.held artifact) BlobReferenceState.held := by
  unfold BlobTables.held
  rw [references_stageBlobReferenceUpdates hkeyed]
  cases states.get? artifact <;> rfl

/-- An effect is applied to the touched state of its artifact, or to the stored
one. -/
theorem applyDelta_eq_ok {now : Nat} {verified : List DestinationReferenceArtifact}
    {delta : DestinationReferenceDelta} {states' : PendingBlobReferences}
    {verified' : List DestinationReferenceArtifact}
    (h : applyDelta blobs now (states, verified) delta = .ok (states', verified')) :
    ∃ state next, (states.get? delta.artifact).or (blobs.references delta.artifact) = some state ∧
    applyReferenceChange state delta.change now = .ok next ∧
    states' = states.put delta.artifact next := by
  simp only [applyDelta, ok_rules, mapError_eq_ok] at h
  obtain ⟨_, hstored, state, hstate, h⟩ := h
  obtain ⟨hreferences, -⟩ := readBlobReferenceState_eq_ok hstored
  rw [← hreferences] at hstate
  refine ⟨state, ?_⟩
  split at h
  · simp only [ok_rules] at h
    obtain ⟨-, -, -, next, hnext, rfl, -⟩ := h
    exact ⟨next, hstate, hnext, rfl⟩
  simp only [ok_rules] at h
  obtain ⟨next, hnext, rfl, -⟩ := h
  exact ⟨next, hstate, hnext, rfl⟩

/-- One effect of a batch changes its artifact's references by its change. -/
theorem held_applyDelta {now : Nat} {verified : List DestinationReferenceArtifact}
    {delta : DestinationReferenceDelta} {states' : PendingBlobReferences}
    {verified' : List DestinationReferenceArtifact}
    (hkeyed : states.Keyed)
    (h : applyDelta blobs now (states, verified) delta = .ok (states', verified'))
    (artifact : DestinationReferenceArtifact) :
    states'.Keyed ∧ (stageBlobReferenceUpdates blobs states').held artifact =
    (stageBlobReferenceUpdates blobs states).held artifact +
    if delta.artifact = artifact then delta.change else 0 := by
  obtain ⟨state, _, hstate, hnext, rfl⟩ := applyDelta_eq_ok h
  have hheld := (applyReferenceChange_eq_ok hnext).1
  have hbefore : (stageBlobReferenceUpdates blobs states).held delta.artifact = state.held := by
    apply held_of_references
    rw [references_stageBlobReferenceUpdates hkeyed]
    exact hstate
  refine ⟨hkeyed.put _ _, ?_⟩
  rw [held_stageBlobReferenceUpdates (hkeyed.put _ _), PendingBlobReferences.get?_put]
  by_cases hartifact : artifact = delta.artifact
  · subst hartifact
    rw [if_pos rfl, if_pos rfl, Option.elim_some, hheld, hbefore]
  rw [if_neg hartifact, if_neg (Ne.symm hartifact), add_zero, held_stageBlobReferenceUpdates hkeyed]

/-- A batch of effects adds their sum. -/
theorem held_foldlM_applyDelta {deltas : List DestinationReferenceDelta} {now : Nat}
    {verified : List DestinationReferenceArtifact}
    (h : deltas.foldlM (applyDelta blobs now) ([], []) = .ok (states, verified))
    (artifact : DestinationReferenceArtifact) :
    (stageBlobReferenceUpdates blobs states).held artifact =
    blobs.held artifact + changeOf artifact deltas := by
  have hfold : ∀ (deltas : List DestinationReferenceDelta)
      (first last : PendingBlobReferences) (seen seen' : List DestinationReferenceArtifact),
      first.Keyed →
      deltas.foldlM (applyDelta blobs now) (first, seen) = .ok (last, seen') →
        (stageBlobReferenceUpdates blobs last).held artifact =
          (stageBlobReferenceUpdates blobs first).held artifact + changeOf artifact deltas := by
    intro deltas
    induction deltas with
    | nil =>
      intro _ _ _ _ _ hlast
      cases hlast
      simp
    | cons _ _ ih =>
      intro _ last _ seen' hkeyed hlast
      rw [foldlM_cons, bind_eq_ok] at hlast
      obtain ⟨⟨middle, seenMiddle⟩, hmiddle, hlast⟩ := hlast
      obtain ⟨hkeyed', hstep⟩ := held_applyDelta hkeyed hmiddle artifact
      rw [ih middle last seenMiddle seen' hkeyed' hlast, hstep, changeOf_cons]
      omega
  exact hfold deltas [] states [] verified nodup_nil h

/-- A seal of several artifacts keeps every artifact's references. -/
theorem held_reserveArtifacts {now : Nat} {artifacts : List DestinationReferenceArtifact}
    (h : reserveArtifacts blobs now artifacts = .ok states)
    (artifact : DestinationReferenceArtifact) :
    (stageBlobReferenceUpdates blobs states).held artifact = blobs.held artifact := by
  have hfold : ∀ (entries : PendingBlobReferences) (staged : BlobTables), (∀ entry ∈ entries,
    entry.2.held = blobs.held entry.1) → staged.held artifact = blobs.held artifact →
    (stageBlobReferenceUpdates staged entries).held artifact = blobs.held artifact := by
    intro entries
    induction entries with
    | nil =>
      intro _ _ hstaged
      exact hstaged
    | cons entry _ ih =>
      intro staged hentries hstaged
      refine ih (staged.putReference entry.1 entry.2)
        (fun other hother => hentries other (mem_cons_of_mem _ hother)) ?_
      rw [held_putReference]
      split
      · rename_i hartifact
        rw [hartifact]
        exact hentries entry mem_cons_self
      · exact hstaged
  refine hfold states blobs ?_ rfl
  unfold reserveArtifacts at h
  induction artifacts generalizing states with
  | nil =>
    cases h
    simp
  | cons _ _ ih =>
    simp only [mapM_cons, ok_rules] at h
    obtain ⟨_, ⟨_, hstate, rfl⟩, _, hothers, rfl⟩ := h
    intro entry hentry
    rcases mem_cons.mp hentry with rfl | hentry
    · exact (prepareSealedArtifactReservation_eq_ok hstate).1
    · exact ih hothers entry hentry

end

end Keldra.Store
