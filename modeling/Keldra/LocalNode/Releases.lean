import Keldra.LocalNode.Publication

/-!
# References an operation may give back

How far one action of a node can take down the reference count of a payload,
read off the state before it: a bulk gives back at most one reference for each
operation that may replace a version naming the payload, a deletion the one of
its version, a page the releases in it.  Seals and publications give none back,
and collection spares payloads touched within the time a reservation is kept.
-/

namespace Keldra.LocalNode

open Foundation Store BlobTables Option

section

variable {states states' : PendingBlobReferences}

/-- The lifecycle record of a payload stays.  It loses at most the given number
of references, and its timestamp does not go back. -/
def Keeps (blob : BlobRef) (released : Nat) (before after : BlobTables) : Prop :=
  ∀ state, before.references (.completeBlob blob) = some state →
    ∃ next, after.references (.completeBlob blob) = some next ∧
      state.refCount ≤ next.refCount + released ∧ state.updatedAt ≤ next.updatedAt

variable {blob reference : BlobRef} {before middle after : BlobTables}
  {state next : BlobReferenceState}

theorem keeps_of_references (h : after.references = before.references) :
    Keeps blob 0 before after := by
  intro state hstate
  exact ⟨state, by rw [h]; exact hstate, le_rfl, le_rfl⟩

theorem Keeps.mono {released further : Nat}
    (h : Keeps blob released before after) (hle : released ≤ further) :
    Keeps blob further before after := by
  intro state hstate
  obtain ⟨next, hnext, _, htime⟩ := h state hstate
  exact ⟨next, hnext, by omega, htime⟩

theorem Keeps.trans {released further : Nat}
    (h : Keeps blob released before middle) (h' : Keeps blob further middle after) :
    Keeps blob (released + further) before after := by
  intro state hstate
  obtain ⟨between, hbetween, _⟩ := h state hstate
  obtain ⟨next, hnext, _⟩ := h' between hbetween
  exact ⟨next, hnext, by omega, by omega⟩

/-- A new record for a payload, which may be the one that is watched. -/
theorem Keeps.put {released : Nat}
    (h : Keeps blob released before middle)
    (hnext : reference = blob → ∀ state, before.references (.completeBlob blob) = some state →
    state.refCount ≤ next.refCount + released ∧ state.updatedAt ≤ next.updatedAt) :
    Keeps blob released before (middle.putReference (.completeBlob reference) next) := by
  intro state hstate
  by_cases hsame : blob = reference
  · refine ⟨next, by simp [putReference, hsame], hnext hsame.symm state hstate⟩
  obtain ⟨between, hbetween, hrest⟩ := h state hstate
  refine ⟨between, ?_, hrest⟩
  rw [← hbetween]
  simp [putReference, hsame]

theorem le_advanceBlobReferencePublication {now : Nat}
    (h : advanceBlobReferencePublication state now = .ok next) :
    state.refCount ≤ next.refCount ∧ state.updatedAt ≤ next.updatedAt := by
  simp only [advanceBlobReferencePublication, ok_rules] at h
  obtain ⟨-, h⟩ := h
  split at h
  · cases h
    exact ⟨by dsimp only; omega, le_max_left _ _⟩
  split at h
  · cases h
    exact ⟨le_rfl, le_max_left _ _⟩
  simp only [ok_rules, checkedAdd64_eq_some] at h
  obtain ⟨_, ⟨-, rfl⟩, rfl⟩ := h
  exact ⟨Nat.le_succ _, le_max_left _ _⟩

theorem le_prepareBlobReferenceRetirement {pending : PendingBlobReferences} {stored : BlobTables}
    {now : Nat}
    (h : prepareBlobReferenceRetirement pending stored reference now = .ok next) :
    ∃ state, readPendingBlobReference pending stored reference = .ok (some state) ∧
    state.refCount ≤ next.refCount + 1 ∧ state.updatedAt ≤ next.updatedAt := by
  simp only [prepareBlobReferenceRetirement, ok_rules] at h
  obtain ⟨_, hread, state, rfl, -, -, rfl⟩ := h
  refine ⟨state, hread, ?_, le_max_left _ _⟩
  dsimp only
  omega

/-- References an effect may give back. -/
def releasedByEffect (blob : BlobRef) (delta : DestinationReferenceDelta) : Nat :=
  if delta.artifact = .completeBlob blob then (-delta.change).toNat else 0

theorem keeps_applyDelta {now : Nat} {verified : List DestinationReferenceArtifact}
    {delta : DestinationReferenceDelta} {verified' : List DestinationReferenceArtifact}
    (hkeyed : states.Keyed)
    (h : applyDelta before now (states, verified) delta = .ok (states', verified')) :
    states'.Keyed ∧
    Keeps blob (releasedByEffect blob delta) (stageBlobReferenceUpdates before states)
    (stageBlobReferenceUpdates before states') := by
  obtain ⟨_, next, hfound, hnext, rfl⟩ := applyDelta_eq_ok h
  refine ⟨hkeyed.put _ _, ?_⟩
  intro state hstate
  rw [references_stageBlobReferenceUpdates hkeyed] at hstate
  rw [references_stageBlobReferenceUpdates (hkeyed.put _ _), PendingBlobReferences.get?_put]
  unfold releasedByEffect
  by_cases hblob : DestinationReferenceArtifact.completeBlob blob = delta.artifact
  · rw [if_pos hblob, if_pos hblob.symm]
    rw [← hblob, hstate, some.injEq] at hfound
    rw [hfound]
    exact ⟨next, rfl, (applyReferenceChange_eq_ok hnext).2.2⟩
  rw [if_neg hblob, if_neg (Ne.symm hblob)]
  exact ⟨state, hstate, le_rfl, le_rfl⟩

theorem keeps_foldlM_applyDelta {now : Nat} {verified verified' : List DestinationReferenceArtifact}
    {deltas : List DestinationReferenceDelta} (hkeyed : states.Keyed)
    (h : deltas.foldlM (applyDelta before now) (states, verified) = .ok (states', verified')) :
    Keeps blob (deltas.map (releasedByEffect blob)).sum (stageBlobReferenceUpdates before states)
    (stageBlobReferenceUpdates before states') := by
  induction deltas generalizing states verified with
  | nil =>
    cases h
    exact keeps_of_references rfl
  | cons _ _ ih =>
    rw [List.foldlM_cons, bind_eq_ok] at h
    obtain ⟨⟨_, _⟩, htouched, h⟩ := h
    obtain ⟨hkeyed', hkeeps⟩ := keeps_applyDelta hkeyed htouched
    exact hkeeps.trans (ih hkeyed' h)

end

section

variable {key : HeadKey}

/-- The current version of a path names the payload. -/
def currentNames (objects : ObjectTables) (blob : BlobRef) (key : HeadKey) : Bool :=
  ((objects.heads.get? key).bind fun head =>
    objects.versions.get? (toLex (key, head.version))).any fun stored =>
      stored.version.blob = some blob

/-- The operations of a bulk that may replace a version naming the payload:
`names` says which paths may have one before the first of them. -/
def replacements (blob : BlobRef) (names : HeadKey → Bool) : List PreparedOperation → Nat
  | [] => 0
  | operation :: rest =>
    (names operation.headKey).toNat + replacements blob (fun key =>
        names key ||
          (decide (key = operation.headKey) && decide (operation.payloadReference = some blob)))
      rest

variable {context : BulkContext} {surplus : BlobRef → Int} {bulk staged : BulkState}
  {operation : PreparedOperation} {plan : MutationPlan} {blob : BlobRef}

theorem currentNames_eq_true {objects : ObjectTables} :
    currentNames objects blob key = true ↔ ∃ head stored, objects.heads.get? key = some head ∧
    objects.versions.get? (toLex (key, head.version)) = some stored ∧
    stored.version.blob = some blob := by
  simp only [currentNames, any_eq_true, bind_eq_some_iff, decide_eq_true_eq]
  constructor
  · rintro ⟨stored, ⟨head, hhead, hstored⟩, hblob⟩
    exact ⟨head, stored, hhead, hstored, hblob⟩
  rintro ⟨head, stored, hhead, hstored, hblob⟩
  exact ⟨stored, ⟨head, hhead, hstored⟩, hblob⟩

theorem keeps_stagePayload {released : Option BlobRef} (h : BulkSound context surplus bulk)
    (hpublication : planPublication context bulk operation released = .ok plan.publication)
    (hstaged : stagePayload plan bulk = .ok staged) : Keeps blob 0 bulk.blobs staged.blobs := by
  simp only [stagePayload, ok_rules] at hstaged
  obtain ⟨inlined, hinlined, rfl⟩ := hstaged
  have hreferences : inlined.blobs.references = bulk.blobs.references := by
    unfold stageInlineValue at hinlined
    split at hinlined
    · exact (bulkSound_stageInlinePayload h hinlined).2.2.2.2.2.2.1
    cases hinlined
    rfl
  have hsame : Keeps blob 0 bulk.blobs inlined.blobs := keeps_of_references hreferences
  unfold stagePublication
  split
  · rename_i reference state hvalue
    rw [hvalue] at hpublication
    refine hsame.put fun hblob old hold => ?_
    subst hblob
    unfold planPublication at hpublication
    split at hpublication
    · cases hpublication
    split at hpublication
    · cases hpublication
    simp only [ok_rules, some.injEq] at hpublication
    obtain ⟨_, hstate, rfl, rfl⟩ := hpublication
    simp only [prepareBlobPublication, bind_eq_ok] at hstate
    obtain ⟨_, hfound, hstate⟩ := hstate
    rw [h.readPending hfound] at hold
    subst hold
    exact le_advanceBlobReferencePublication hstate
  · exact hsame

theorem keeps_stageRetirement (h : BulkSound context surplus bulk)
    (hstaged : stageRetirement context plan bulk = .ok staged) :
    Keeps blob (if plan.retired = some blob then 1 else 0) bulk.blobs staged.blobs := by
  unfold stageRetirement at hstaged
  split at hstaged
  · rename_i hnone
    cases hstaged
    rw [if_neg (by rw [hnone]; simp)]
    exact keeps_of_references rfl
  rename_i reference hretired
  simp only [ok_rules] at hstaged
  obtain ⟨_, hnext, rfl⟩ := hstaged
  obtain ⟨_, hread, hcount, htime⟩ := le_prepareBlobReferenceRetirement hnext
  have hstate := h.readPending hread
  refine ((keeps_of_references rfl).mono (Nat.zero_le _)).put fun hblob old hold => ?_
  subst hblob
  rw [hstate, some.injEq] at hold
  rw [if_pos hretired, ← hold]
  exact ⟨hcount, htime⟩

/-- A retired payload is the one of the path's current version. -/
theorem currentNames_of_retired {current : CurrentObject} {versioning : ObjectVersioning}
    (hcurrent : CurrentSound bulk operation current)
    (hreleased : releasedBlob current versioning = some blob) :
    currentNames bulk.objects blob operation.headKey = true := by
  cases hstored : current.stored with
  | none =>
    rw [releasedBlob_eq_none hstored] at hreleased
    cases hreleased
  | some old =>
    rw [releasedBlob_eq hstored] at hreleased
    split at hreleased
    · obtain ⟨hversion, hold⟩ := hcurrent.stored_sound old hstored
      cases hhead : current.head with
      | none =>
        rw [(hcurrent.version_none hhead).2] at hstored
        cases hstored
      | some head =>
        obtain ⟨_, hsome, hid, -⟩ := hcurrent.version_of_head head hhead
        rw [hversion, some.injEq] at hsome
        rw [currentNames_eq_true]
        refine ⟨head, old, by rw [← hcurrent.head_eq, hhead], ?_, hreleased⟩
        rw [← hid, ← hsome]
        exact hold
    · cases hreleased

section

variable (hsound : BulkSound context surplus bulk)

include hsound

theorem keeps_stagePlan {current : CurrentObject} {versioning : ObjectVersioning}
    {id : VersionId} (hcurrent : CurrentSound bulk operation current)
    (hplan : planOperation context bulk operation current versioning id = .ok plan) :
    Keeps blob (currentNames bulk.objects blob operation.headKey).toNat bulk.blobs
    (stagePlan context operation bulk plan).1.blobs := by
  obtain ⟨hinstalled, -, hinline, hpublication, rfl, rfl, -, -, hretired⟩ :=
    planOperation_eq_ok hplan
  have hsame : Keeps blob (currentNames bulk.objects blob operation.headKey).toNat
      bulk.blobs bulk.blobs :=
    (keeps_of_references rfl).mono (Nat.zero_le _)
  unfold stagePlan
  split
  · exact hsame
  rename_i receipted expiresAt hreceipted
  obtain ⟨receipts, pendingReceipts, rfl⟩ := stageReceipt_eq_ok hreceipted
  have hreceipted_sound : BulkSound context surplus { bulk with receipts, pendingReceipts } :=
    hsound.idle ⟨rfl, rfl, rfl, rfl, rfl, rfl, le_rfl⟩
  split
  · exact hsame
  rename_i paid hpaid
  have hkeeps : Keeps blob 0 bulk.blobs paid.blobs :=
    @keeps_stagePayload _ _ { bulk with receipts, pendingReceipts } _ _ _ _ _
      hreceipted_sound hpublication hpaid
  split
  · exact hkeeps.mono (Nat.zero_le _)
  rename_i retired hretire
  have hpaid_sound :=
    (bulkSound_stagePayload hreceipted_sound hinstalled hinline hpublication hpaid).1
  refine (hkeeps.trans (keeps_stageRetirement hpaid_sound hretire)).mono ?_
  split
  · rename_i hblob
    rw [hretired] at hblob
    split at hblob
    · cases hblob
    rw [currentNames_of_retired hcurrent hblob]
    exact le_rfl
  · exact Nat.zero_le _

/-- An operation gives back at most the reference of its path's current version. -/
theorem keeps_evaluateOperation (reading : Nat) :
    Keeps blob (currentNames bulk.objects blob operation.headKey).toNat bulk.blobs
    (evaluateOperation context operation reading bulk).1.blobs := by
  have hsame : Keeps blob (currentNames bulk.objects blob operation.headKey).toNat
      bulk.blobs bulk.blobs :=
    (keeps_of_references rfl).mono (Nat.zero_le _)
  unfold evaluateOperation
  split
  · exact hsame
  · exact hsame
  · rename_i head hadmitted
    rw [(idle_stageIdentical head hadmitted).1.blobs_eq]
    exact hsame
  rename_i current versioning hadmitted
  split
  · exact hsame
  rename_i id clock hnext
  have hticked : BulkSound context surplus { bulk with clock } :=
    hsound.idle ⟨rfl, rfl, rfl, rfl, rfl, rfl, VersionClock.le_nextAt hnext⟩
  have hcurrent := currentSound_readCurrent hsound (admitOperation_proceed hadmitted).1
  dsimp only
  split
  · exact hsame
  rename_i plan hplan
  exact keeps_stagePlan hticked (hcurrent.congr rfl) hplan

/-- A path names a payload after an operation only if it did before, or if the
operation puts it there. -/
theorem currentNames_evaluateOperation (hsurplus : ∀ blob, 0 ≤ surplus blob) (reading : Nat)
    (hnames : currentNames (evaluateOperation context operation reading bulk).1.objects blob key =
    true) : currentNames bulk.objects blob key = true ∨
    (key = operation.headKey ∧ operation.payloadReference = some blob) := by
  rcases evaluateOperation_cases hsound hsurplus reading with
    ⟨hidle, -, -⟩ | ⟨-, _, -, hreplaced⟩
  · rw [hidle.objects_eq] at hnames
    exact .inl hnames
  obtain ⟨plan, middle, _, -, hcurrent, hversion, -, -, hobjects, -, -, -, -, hstaged⟩ :=
    hreplaced.admitted
  have hmiddle := hcurrent.congr hobjects
  rw [hstaged, stageObject_eq, currentNames_eq_true] at hnames
  obtain ⟨head, stored, hhead, hstored, hblob⟩ := hnames
  by_cases hkey : key = operation.headKey
  · subst hkey
    rw [OrdMap.get?_insert, if_pos rfl, some.injEq] at hhead
    subst hhead
    have hown : exactVersionKey operation.identity operation.path plan.version.id =
        toLex (operation.headKey, plan.version.id) := rfl
    rw [hown, OrdMap.get?_insert, if_pos rfl, some.injEq] at hstored
    subst hstored
    rw [hversion] at hblob
    exact .inr ⟨rfl, hblob⟩
  · rw [OrdMap.get?_insert, if_neg hkey] at hhead
    rw [OrdMap.get?_insert, if_neg (versionKey_ne hkey),
      get?_predecessorVersions_of_ne hmiddle hkey] at hstored
    rw [hobjects] at hhead hstored
    exact .inl (currentNames_eq_true.mpr ⟨head, stored, hhead, hstored, hblob⟩)

end

/-- A list of operations gives back at most one reference for each of them that
may replace a version naming the payload. -/
theorem keeps_foldl {backpressure : Bool} {progress : BulkProgress} {names : HeadKey → Bool}
    (prepared : List (Nat × PreparedOperation × Nat)) (hsurplus : ∀ blob, 0 ≤ surplus blob)
    (hprogress : ProgressSound context surplus progress)
    (hnames : ∀ key, currentNames progress.bulk.objects blob key = true → names key = true) :
    Keeps blob (replacements blob names (prepared.map fun entry => entry.2.1)) progress.bulk.blobs
    (prepared.foldl (evaluateNext context backpressure) progress).bulk.blobs := by
  induction prepared generalizing progress names with
  | nil => exact keeps_of_references rfl
  | cons entry _ ih =>
    have hnext := @progressSound_evaluateNext _ _ _ backpressure entry hsurplus hprogress
    refine Keeps.trans ?_ (ih hnext fun key hkey => ?_)
    · rcases evaluateNext_bulk context backpressure progress entry with hbulk | hbulk
      · rw [hbulk]
        exact (keeps_of_references rfl).mono (Nat.zero_le _)
      rw [hbulk]
      refine (keeps_evaluateOperation hprogress.bulk entry.2.2).mono ?_
      exact Bool.toNat_le_toNat (hnames _)
    rcases evaluateNext_bulk context backpressure progress entry with hbulk | hbulk
    · rw [hbulk] at hkey
      simp [hnames key hkey]
    rw [hbulk] at hkey
    rcases currentNames_evaluateOperation hprogress.bulk hsurplus entry.2.2 hkey with
      hold | ⟨hsame, hblob⟩
    · simp [hnames key hold]
    · simp [hsame, hblob]

end

section

variable {blobs stored blobs' : BlobTables} {identity : BucketIdentity} {path : String}
  {since : Nat} {inlined inlined' references : List BlobRef}

/-- References of the payload that an action may give back, seen from the state
before it: those of replaced versions, of the deleted version, or of the
releases in the page. -/
def releasedBy (blob : BlobRef) (store : LocalStore) : LocalAction → Nat
  | .bulkWrite _ _ _ _ _ prepared =>
    replacements blob (currentNames store.source.objects blob) (prepared.map fun entry => entry.2.1)
  | .deleteRetainedVersion _ _ _ identity path version =>
    ((store.source.objects.versions.get? (exactVersionKey identity path version)).any
      fun stored => stored.version.blob = some blob).toNat
  | .applyPage index _ _ =>
    (((store.source.deliveries[index]?).elim [] ReferenceDeltaBatch.deltas).map
      (releasedByEffect blob)).sum
  | _ => 0

/-- Of all actions only collection depends on the time. -/
def RunsBefore (deadline : Nat) : LocalAction → Prop
  | .collect _ _ now => now < deadline
  | _ => True

variable {config : NodeConfig} {store next : LocalStore} {blob : BlobRef}

theorem settleInline_blobs (config : StoreConfig) (store : SourceStore) :
    (store.settleInline config).blobs = store.blobs := by
  unfold SourceStore.settleInline
  split
  · rfl
  · split <;> rfl

theorem append_blobs {codec : LocalChangeCodec} {changes : List PendingLocalChange}
    {effects : LocalReferenceEffects} {admission : SourceJournalAdmission}
    {write : ObjectTables × BlobTables → ObjectTables × BlobTables} {config : StoreConfig}
    (h : SourceStore.append codec config before changes effects admission write = .ok after) :
    after.blobs = (write (before.objects, before.blobs)).2 := by
  simp only [SourceStore.append, ok_rules] at h
  obtain ⟨_, -, rfl⟩ := h
  rfl

theorem keeps_bulkWrite {codec : LocalChangeCodec} {log : List LogEntry}
    {settings : BucketIdentity → Except MutationError BucketSettings}
    {intent : Option DefinitionMutationIntent} {backpressure : Bool}
    {admission : SourceJournalAdmission} {now : Nat} {prepared : List (Nat × PreparedOperation × Nat)}
    (h : NodeSound codec config log store) :
    Keeps blob (replacements blob (currentNames store.source.objects blob)
    (prepared.map fun entry => entry.2.1)) store.source.blobs
    (store.bulkWrite codec config settings intent backpressure admission now
    prepared).1.source.blobs := by
  unfold LocalStore.bulkWrite
  split
  · exact (keeps_of_references rfl).mono (Nat.zero_le _)
  rename_i receipts prunedReceipts hreceipts
  dsimp only
  generalize hcontext :
    ({ config, store, settings, intent, now, prunedReceipts } : BulkContext) = context
  have hstore : context.store = store := by rw [← hcontext]
  have hkeeps := @keeps_foldl context _ blob backpressure _
    (currentNames store.source.objects blob) prepared (deltaOf_pending_nonpos h)
    (progressSound_beginBulk h receipts hstore) (fun _ hkey => hkey)
  split
  · rename_i written hpersist
    simp only [LocalStore.persistBulk, ok_rules] at hpersist
    obtain ⟨_, happend, rfl⟩ := hpersist
    have hblobs := append_blobs happend
    split
    · rw [hblobs]
      exact hkeeps
    rw [settleInline_blobs, hblobs]
    exact hkeeps
  · exact (keeps_of_references rfl).mono (Nat.zero_le _)

theorem keeps_releaseTarget {target : Version} {now : Nat} {released : BlobTables}
    (h : releaseTarget blobs target now = .ok released) :
    Keeps blob (decide (target.blob = some blob)).toNat blobs released := by
  simp only [releaseTarget, bind_eq_ok] at h
  obtain ⟨reference, hreference, h⟩ := h
  cases reference with
  | none =>
    cases h
    exact (keeps_of_references rfl).mono (Nat.zero_le _)
  | some reference =>
    have hblob : target.blob = some reference := by
      unfold versionBlobReference at hreference
      split at hreference
      · rename_i hsome _
        cases hreference
        exact hsome
      · cases hreference
      · cases hreference
    simp only [ok_rules] at h
    obtain ⟨_, hnext, rfl⟩ := h
    obtain ⟨state, hread, hcount, htime⟩ := le_prepareBlobReferenceRetirement hnext
    have hstate : blobs.references (.completeBlob reference) = some state :=
      (readBlobReferenceState_eq_ok hread).1
    refine ((keeps_of_references rfl).mono (Nat.zero_le _)).put fun hsame old hold => ?_
    subst hsame
    rw [hstate, some.injEq] at hold
    rw [hblob, decide_eq_true rfl, ← hold]
    exact ⟨hcount, htime⟩

theorem persistDeletion_blobs {codec : LocalChangeCodec} {found : RetainedTarget}
    {tombstone : Option Version}
    (h : persistDeletion codec config store identity path found blobs tombstone = .ok next) :
    next.source.blobs = blobs := by
  simp only [persistDeletion, ok_rules] at h
  obtain ⟨_, happend, rfl⟩ := h
  rw [settleInline_blobs, append_blobs happend]

theorem keeps_deleteRetainedVersion {version : VersionId} {codec : LocalChangeCodec}
    {settings : BucketIdentity → Except MutationError BucketSettings} {now reading : Nat} :
    Keeps blob ((store.source.objects.versions.get? (exactVersionKey identity path version)).any
    fun stored => stored.version.blob = some blob).toNat store.source.blobs
    (deleteRetainedVersion codec config settings now reading identity path version
    store).1.source.blobs := by
  have hsame : ∀ released, Keeps blob released store.source.blobs store.source.blobs :=
    fun released => (keeps_of_references rfl).mono (Nat.zero_le _)
  unfold deleteRetainedVersion
  split
  · exact hsame _
  · exact hsame _
  rename_i found hfound
  obtain ⟨-, -, _, hstored, hversion⟩ := findRetainedTarget_eq_some hfound
  rw [hstored, any_some, hversion]
  split
  · exact hsame _
  rename_i blobs hreleased
  have hkeeps : Keeps blob (decide (found.target.blob = some blob)).toNat store.source.blobs
      blobs :=
    keeps_releaseTarget hreleased
  split
  · split
    · exact hsame _
    rename_i written hpersist
    rw [persistDeletion_blobs hpersist]
    exact hkeeps
  split
  · exact hsame _
  split
  · exact hsame _
  dsimp only
  split
  · exact hsame _
  rename_i written hpersist
  rw [persistDeletion_blobs hpersist]
  exact hkeeps

/-- The payload has a reference and was touched at the given time or later. -/
def Referenced (blob : BlobRef) (since : Nat) (blobs : BlobTables) : Prop :=
  ∃ state, blobs.references (.completeBlob blob) = some state ∧ state.refCount ≠ 0 ∧
    since ≤ state.updatedAt

theorem Referenced.keeps {released : Nat}
    (h : Referenced blob since before)
    (hkeeps : Keeps blob released before after) (hspare : released < refCount before blob) :
    Referenced blob since after := by
  obtain ⟨state, hstate, -, _⟩ := h
  obtain ⟨next, hnext, _⟩ := hkeeps state hstate
  rw [refCount, hstate, elim_some] at hspare
  exact ⟨next, hnext, by omega, by omega⟩

theorem sealInlineNext_references {now : Nat}
    (h : sealInlineNext stored now (blobs, inlined, states) reference =
    .ok (blobs', inlined', states')) :
    ∃ state, prepareSealedArtifactReservation stored (.completeBlob reference) now = .ok state ∧
    blobs'.references = (blobs.putReference (.completeBlob reference) state).references := by
  simp only [sealInlineNext, bind_eq_ok] at h
  obtain ⟨value, -, h⟩ := h
  cases value with
  | some =>
    simp only [ok_rules, stageInlineCompleteArtifact] at h
    obtain ⟨_, ⟨-, rfl⟩, state, hstate, rfl, -, -⟩ := h
    exact ⟨state, hstate, rfl⟩
  | none =>
    simp only [ok_rules] at h
    obtain ⟨state, hstate, rfl, -, -⟩ := h
    exact ⟨state, hstate, rfl⟩

/-- A batch of seals keeps every record and refreshes those of its payloads. -/
theorem keeps_foldlM_sealInlineNext {now : Nat}
    (h : Keeps blob 0 stored blobs)
    (hfold : references.foldlM (sealInlineNext stored now) (blobs, inlined, states) =
    .ok (blobs', inlined', states')) : Keeps blob 0 stored blobs' ∧
    (Referenced blob now blobs ∨ blob ∈ references → Referenced blob now blobs') := by
  induction references generalizing blobs inlined states with
  | nil =>
    cases hfold
    exact ⟨h, fun hsealed => by simpa using hsealed⟩
  | cons reference _ ih =>
    rw [List.foldlM_cons, bind_eq_ok] at hfold
    obtain ⟨⟨staged, _, _⟩, hnext, hfold⟩ := hfold
    obtain ⟨state, hstate, hreferences⟩ := sealInlineNext_references hnext
    obtain ⟨-, -, hcount, hfresh, hmono⟩ := prepareSealedArtifactReservation_eq_ok hstate
    have hkeeps : Keeps blob 0 stored staged := by
      refine (h.put fun hsame old hold => ?_).trans (keeps_of_references hreferences)
      subst hsame
      exact hmono old hold
    obtain ⟨hkept, hsealed⟩ := ih hkeeps hfold
    refine ⟨hkept, fun hcase => hsealed ?_⟩
    by_cases hsame : blob = reference
    · subst hsame
      exact .inl ⟨state, by simp [hreferences, putReference], hcount, hfresh⟩
    rcases hcase with ⟨old, hold, hrest⟩ | hmem
    · left
      refine ⟨old, ?_, hrest⟩
      rw [← hold]
      simp [hreferences, putReference, hsame]
    rcases List.mem_cons.mp hmem with heq | hmem
    · exact absurd heq hsame
    · exact .inr hmem

theorem keeps_sealInline {codec : LocalChangeCodec} {now : Nat} {admission : SourceJournalAdmission}
    (h : sealInline codec config references now admission store = .ok next) :
    Keeps blob 0 store.source.blobs next.source.blobs ∧
    (blob ∈ references → Referenced blob now next.source.blobs) := by
  simp only [sealInline, ok_rules, Prod.exists] at h
  obtain ⟨_, _, _, hfold, _, happend, rfl⟩ := h
  obtain ⟨hkeeps, hsealed⟩ := keeps_foldlM_sealInlineNext (keeps_of_references rfl) hfold
  rw [append_blobs happend]
  exact ⟨hkeeps, fun hmem => hsealed (.inr hmem)⟩

theorem keeps_finishUpload {codec : LocalChangeCodec} {upload : Digest}
    {observed : Option ArtifactManifest} {now : Nat} {admission : SourceJournalAdmission}
    (h : finishUpload codec config upload reference observed now admission store = .ok next) :
    Keeps blob 0 store.source.blobs next.source.blobs ∧
    (store.source.blobs.manifests (.completeBlob reference) = observed → reference = blob →
    Referenced blob now next.source.blobs) := by
  simp only [finishUpload, ok_rules] at h
  obtain ⟨-, h⟩ := h
  split at h
  · rename_i hstale
    cases h
    exact ⟨keeps_of_references rfl, fun hobserved => absurd hobserved hstale⟩
  simp only [ok_rules] at h
  obtain ⟨_, -, -, -, state, hstate, _, hpromoted, _, happend, rfl⟩ := h
  obtain ⟨hreferences, -, -⟩ := promoteUpload_eq_ok hpromoted
  obtain ⟨-, -, hcount, hfresh, hmono⟩ := prepareSealedArtifactReservation_eq_ok hstate
  rw [append_blobs happend]
  refine ⟨(keeps_of_references hreferences).put fun hsame old hold => ?_, ?_⟩
  · subst hsame
    exact hmono old hold
  rintro - rfl
  exact ⟨state, by simp [putReference], hcount, hfresh⟩

/-- Collection spares what was touched within the time a reservation is kept. -/
theorem keeps_collect {now : Nat} {codec : LocalChangeCodec}
    {artifact : DestinationReferenceArtifact} {dueUpdatedAt : Nat}
    (httl : 0 < config.awaitingPublishTtl) (hnow : now < since + config.awaitingPublishTtl)
    (hsealed : Referenced blob since store.source.blobs) : Keeps blob 0 store.source.blobs
    (collect codec config artifact dueUpdatedAt now store).source.blobs := by
  unfold collect
  split
  · rename_i source removed hcollect
    rcases collectDueArtifact_eq_ok hcollect with rfl | ⟨-, ⟨_, hreferences, hgarbage⟩, happend⟩
    · exact keeps_of_references rfl
    rw [append_blobs happend]
    intro state hstate
    have hother : DestinationReferenceArtifact.completeBlob blob ≠ artifact := by
      rintro rfl
      obtain ⟨_, hfresh, -, _⟩ := hsealed
      obtain rfl := mem_unique hreferences hfresh
      simp only [blobReferenceIsGarbage, Bool.and_eq_true, decide_eq_true_eq] at hgarbage
      omega
    exact ⟨state, by simp [remove, hother, hstate], le_rfl, le_rfl⟩
  · exact keeps_of_references rfl

theorem keeps_applyPage {codec : LocalChangeCodec} {admission : SourceJournalAdmission} {now : Nat}
    {index : Nat} :
    Keeps blob (((store.source.deliveries[index]?).elim [] ReferenceDeltaBatch.deltas).map
    (releasedByEffect blob)).sum
    store.source.blobs (applyPage codec config index admission now store).source.blobs := by
  have hsame : ∀ released, Keeps blob released store.source.blobs store.source.blobs :=
    fun released => (keeps_of_references rfl).mono (Nat.zero_le _)
  unfold applyPage
  split
  · exact hsame _
  rename_i request hrequest
  rw [hrequest, elim_some]
  unfold SourceStore.applyDeltas
  split
  · exact hsame _
  split
  · rename_i journal blobs applied happlied
    rcases applyReferenceDeltas_eq_ok happlied with ⟨-, -, rfl⟩ |
      ⟨-, -, _, _, hstates, rfl, -⟩
    · exact hsame _
    have hnone : PendingBlobReferences.Keyed [] := List.nodup_nil
    exact keeps_foldlM_applyDelta hnone hstates
  · exact hsame _

/-- Every action within the window keeps the payload's record, up to the
references it may give back. -/
theorem keeps_step {codec : LocalChangeCodec} {log : List LogEntry}
    (action : LocalAction) (h : NodeSound codec config log store)
    (httl : 0 < config.awaitingPublishTtl)
    (hbefore : RunsBefore (since + config.awaitingPublishTtl) action)
    (hsealed : Referenced blob since store.source.blobs) :
    Keeps blob (releasedBy blob store action) store.source.blobs
    (step codec config store action).source.blobs := by
  cases action with
  | bulkWrite => exact keeps_bulkWrite h
  | deleteRetainedVersion => exact keeps_deleteRetainedVersion
  | sealInline | finishUpload =>
    simp only [step, orUnchanged]
    split
    · rename_i next hnext
      first | exact (keeps_sealInline hnext).1 | exact (keeps_finishUpload hnext).1
    · exact keeps_of_references rfl
  | uploadChunk => exact keeps_of_references rfl
  | collect => exact keeps_collect httl hbefore hsealed
  | collectUpload | pruneReceipts =>
    simp only [step, collectUpload, pruneReceipts]
    split <;> exact keeps_of_references rfl
  | readPage =>
    refine keeps_of_references ?_
    simp only [step, readPage, SourceStore.readDelivery]
    split
    · rfl
    split
    · rfl
    · split <;> rfl
  | applyPage => exact keeps_applyPage
  | finishDelivery =>
    refine keeps_of_references ?_
    simp only [step, finishDelivery]
    split
    · rw [(Delivery.maintenance_step h.logs rfl).2.1]
    · rfl
  | maintain action =>
    refine keeps_of_references ?_
    simp only [step]
    split
    · rename_i haction
      have hmaintenance : Delivery.isMaintenance action := by
        cases action <;> first | rfl | cases haction
      rw [(Delivery.maintenance_step h.logs hmaintenance).2.1]
    · rfl
  | reopen =>
    refine keeps_of_references ?_
    simp only [step, reopen]
    rw [(Delivery.maintenance_step h.logs rfl).2.1]

end

end Keldra.LocalNode
