import Keldra.LocalNode.Invariant

/-!
# Every local operation keeps the invariant

One lemma for each action of the node.  A failed action leaves the store, and
some of them the clock ahead of it.
-/

namespace Keldra.LocalNode

open Foundation Store List Function SourceStore

variable {codec : LocalChangeCodec} {config : NodeConfig} {log : List LogEntry} {store : LocalStore}

theorem NodeSound.still (h : NodeSound codec config log store) :
    ∃ entries, NodeSound codec config (log ++ entries) store :=
  ⟨[], by rw [append_nil]; exact h⟩

/-- The volatile part of the source does not matter, as long as its safe offset
is delivered. -/
theorem NodeSound.setVolatile {safe : Nat}
    {derived : DerivedTables} (h : NodeSound codec config log store)
    (hsafe : safe ≤ store.source.journal.referenceCursor config.store.sourceId) :
    NodeSound codec config log
    { store with source := { store.source with derived, referenceSafeThrough := safe } } :=
  { h with safe_le := hsafe }

theorem referenceSafeThrough_prune
    {config : StoreConfig} (forceHeadroom : Bool) (source : SourceStore) :
    (SourceStore.prune codec config forceHeadroom source).referenceSafeThrough =
    source.referenceSafeThrough := by
  unfold prune
  split <;> rfl

section

variable (h : NodeSound codec config log store)

include h

theorem NodeSound.prune (forceHeadroom : Bool) : ∃ entries, NodeSound codec config (log ++ entries)
    { store with source := SourceStore.prune codec config.store forceHeadroom store.source } := by
  obtain ⟨entries, hlogs, hretires⟩ : ∃ entries, Logs codec config.store (log ++ entries)
    (SourceStore.prune codec config.store forceHeadroom store.source).journal ∧ Retires
    store.source.objects (SourceStore.prune codec config.store forceHeadroom store.source).objects
    (logEffects entries) :=
    retires_prune h.logs
  have hmove : JournalMove codec config.store log store.source
      (SourceStore.prune codec config.store forceHeadroom store.source) :=
    journalMove_prune h.logs rfl
  have hsafe_le := h.safe_le
  have hfloor_le := h.floor_le
  refine ⟨entries, h.retire hlogs (Delivery.referenceCursor_prune h.logs) ?_ ?_
    (Delivery.blobs_prune _ _) (deliveries_prune _ _) hretires⟩
  · rw [referenceSafeThrough_prune]
    exact hsafe_le
  rcases hmove.floor_safe with hsame | ⟨-, hsafe, -⟩
  · rw [hsame]
    exact hfloor_le
  rw [referenceSafeThrough_prune] at hsafe
  exact hsafe.trans hsafe_le

/-- A move of the settled cursor alone. -/
theorem NodeSound.settle {journal : JournalTables}
    (hsettled : journal = { store.source.journal with settledThrough := journal.settledThrough } ∧
      store.source.journal.settledThrough ≤ journal.settledThrough ∧
        journal.settledThrough ≤ store.source.journal.tail) :
    NodeSound codec config log { store with source := { store.source with journal } } := by
  obtain ⟨hsame, hforward, hwithin⟩ := hsettled
  have hlogs := h.logs.settle hforward hwithin
  rw [← hsame] at hlogs
  have hcursor : journal.referenceCursor = store.source.journal.referenceCursor := by rw [hsame]
  have hfloor : journal.retentionFloor = store.source.journal.retentionFloor := by rw [hsame]
  rw [← append_nil log] at hlogs ⊢
  exact h.retire hlogs hcursor h.safe_le (hfloor.trans_le h.floor_le) rfl rfl (Retires.refl _)

theorem nodeSound_maintain {action : JournalAction}
    (haction : isLocalMaintenance action) :
    ∃ entries, NodeSound codec config (log ++ entries)
    { store with source := store.source.step codec config.store action } := by
  cases action with
  | append | settleInline | advanceReferenceSafe | readDelivery | applyReferenceDeltas | reopen =>
    cases haction
  | settleThrough | settlePositions =>
    simp only [SourceStore.step]
    split
    · rename_i journal hsettled
      first
        | exact (h.settle (settleThrough_eq_ok h.logs hsettled)).still
        | exact (h.settle (settlePositions_eq_ok h.logs hsettled)).still
    · exact h.still
  | ensureMembership =>
    simp only [SourceStore.step, ensureMembership]
    split
    · exact (h.setVolatile h.safe_le).still
    · exact h.still
  | checkpoint =>
    simp only [SourceStore.step, applyCheckpoint]
    split
    · exact h.still
    rename_i derived hderived
    have hstored : NodeSound codec config log
        { store with source := { store.source with derived } } :=
      h.setVolatile h.safe_le
    split
    · exact hstored.prune false
    · exact hstored.still
  | pruneForCapacity => exact h.prune true

theorem nodeSound_finishDelivery {offset : Nat} : ∃ entries, NodeSound codec config (log ++ entries)
    (finishDelivery codec config offset store) := by
  unfold finishDelivery
  split
  · rename_i hdelivered
    simp only [SourceStore.step, advanceReferenceSafe, h.logs.status]
    split
    · exact h.still
    have hmoved : NodeSound codec config log
        { store with source := { store.source with referenceSafeThrough := offset } } :=
      h.setVolatile hdelivered
    exact hmoved.prune false
  · exact h.still

theorem nodeSound_pruneReceipts {now : Nat} :
    ∃ entries, NodeSound codec config (log ++ entries) (pruneReceipts config now store) := by
  unfold pruneReceipts
  split
  · refine NodeSound.still ?_
    exact ⟨h.logs, h.carried, h.safe_le, h.floor_le, h.releases, h.payloads, h.objects,
      h.watermark, h.balanced⟩
  · exact h.still

end

theorem nodeSound_reopen (h : NodeSound codec config log store) :
    ∃ entries, NodeSound codec config (log ++ entries) (reopen codec config store) := by
  have hfresh : NodeSound codec config log
      { store with
        source :=
          { store.source with referenceSafeThrough := store.source.journal.retentionFloor } } :=
    h.setVolatile h.floor_le
  obtain ⟨entries, hpruned⟩ := hfresh.prune false
  refine ⟨entries, ?_⟩
  exact ⟨hpruned.logs, hpruned.carried, hpruned.safe_le, hpruned.floor_le, hpruned.releases,
    hpruned.payloads, by
      dsimp only [reopen]
      exact hpruned.watermark,
    hpruned.watermark, hpruned.balanced⟩

variable {blobs : BlobTables} {state : BlobReferenceState} {states states' : PendingBlobReferences}

section

variable {next : LocalStore} {artifact : DestinationReferenceArtifact} {stored blobs' : BlobTables}
  {inlined inlined' references : List BlobRef}

theorem isSome_update_some (manifests : DestinationReferenceArtifact → Option ArtifactManifest)
    (artifact other : DestinationReferenceArtifact) (manifest : ArtifactManifest)
    (h : (manifests other).isSome) :
    (Function.update manifests artifact (some manifest) other).isSome := by
  rw [update_apply]
  split
  · rfl
  · exact h

/-- What the batch of a seal has staged. -/
structure SealSound (stored blobs : BlobTables) (inlined : List BlobRef) : Prop where
  payloads : PayloadsSound blobs
  held_eq : ∀ artifact, blobs.held artifact = stored.held artifact
  manifests : ∀ artifact, (stored.manifests artifact).isSome → (blobs.manifests artifact).isSome
  inlined : ∀ blob ∈ inlined, (blobs.manifests (.completeBlob blob)).isSome

theorem SealSound.putReference {reference : BlobRef} {now : Nat}
    (h : SealSound stored blobs inlined)
    (hstate : prepareSealedArtifactReservation stored (.completeBlob reference) now = .ok state)
    (hsealed : (blobs.manifests (.completeBlob reference)).isSome) :
    SealSound stored (blobs.putReference (.completeBlob reference) state) inlined :=
  { h with
    payloads := h.payloads.putReference (prepareSealedArtifactReservation_eq_ok hstate).2.1 hsealed
    held_eq := by
      intro artifact
      rw [held_putReference]
      split
      · rename_i hartifact
        rw [hartifact]
        exact (prepareSealedArtifactReservation_eq_ok hstate).1
      · exact h.held_eq artifact }

theorem SealSound.stageInline {staged : BlobTables}
    (h : SealSound stored blobs inlined)
    (hstaged : stageInlineCompleteArtifact blobs reference = .ok staged) :
    SealSound stored staged (reference :: inlined) := by
  simp only [stageInlineCompleteArtifact, ok_rules] at hstaged
  obtain ⟨-, rfl⟩ := hstaged
  have hmanifests := isSome_update_some blobs.manifests (.completeBlob reference)
  exact
    { payloads := h.payloads.addManifests rfl fun artifact hsome => hmanifests artifact _ hsome
      held_eq := h.held_eq
      manifests := fun artifact hsome => hmanifests artifact _ (h.manifests artifact hsome)
      inlined := by
        intro blob hblob
        rcases mem_cons.mp hblob with rfl | hold
        · simp
        · exact hmanifests _ _ (h.inlined blob hold) }

/-- Inline bytes are staged for the payload itself, and only skipped when it has
a manifest. -/
theorem prepareInlinePayloadValue_eq_ok {reference : BlobRef} {value : Option BlobRef}
    (h : prepareInlinePayloadValue stored inlined reference = .ok value) :
    value = some reference ∨ (value = none ∧
    (reference ∈ inlined ∨ (stored.manifests (.completeBlob reference)).isSome)) := by
  unfold prepareInlinePayloadValue at h
  split at h
  · rename_i hstaged
    cases h
    exact .inr ⟨rfl, .inl hstaged⟩
  split at h
  · rename_i manifest hmanifest
    split at h
    · simp only [ok_rules] at h
      obtain ⟨_, -, -, rfl⟩ := h
      exact .inr ⟨rfl, .inr (by rw [hmanifest]; rfl)⟩
    cases h
    exact .inl rfl
  cases h
  exact .inl rfl

theorem sealSound_sealInlineNext {now : Nat} {reference : BlobRef}
    (h : SealSound stored blobs inlined)
    (hnext : sealInlineNext stored now (blobs, inlined, states) reference =
    .ok (blobs', inlined', states')) : SealSound stored blobs' inlined' := by
  simp only [sealInlineNext, bind_eq_ok] at hnext
  obtain ⟨_, hvalue, hnext⟩ := hnext
  rcases prepareInlinePayloadValue_eq_ok hvalue with rfl | ⟨rfl, hpresent⟩
  · simp only [ok_rules] at hnext
    obtain ⟨_, hstaged, _, hstate, rfl, rfl, -⟩ := hnext
    have hinline := h.stageInline hstaged
    exact hinline.putReference hstate (hinline.inlined reference mem_cons_self)
  simp only [ok_rules] at hnext
  obtain ⟨_, hstate, rfl, rfl, -⟩ := hnext
  refine h.putReference hstate ?_
  rcases hpresent with hstaged | hstored
  · exact h.inlined reference hstaged
  · exact h.manifests _ hstored

theorem sealSound_foldlM {now : Nat}
    (h : SealSound stored blobs inlined)
    (hfold : references.foldlM (sealInlineNext stored now) (blobs, inlined, states) =
    .ok (blobs', inlined', states')) : SealSound stored blobs' inlined' := by
  induction references generalizing blobs inlined states with
  | nil =>
    cases hfold
    exact h
  | cons _ _ ih =>
    rw [foldlM_cons, bind_eq_ok] at hfold
    obtain ⟨⟨_, _, _⟩, hnext, hfold⟩ := hfold
    exact ih (sealSound_sealInlineNext h hnext) hfold

theorem nodeSound_sealInline {now : Nat} {admission : SourceJournalAdmission}
    (h : NodeSound codec config log store)
    (hseal : sealInline codec config references now admission store = .ok next) :
    ∃ entries, NodeSound codec config (log ++ entries) next := by
  simp only [sealInline, ok_rules, Prod.exists] at hseal
  obtain ⟨_, _, _, hfold, _, happend, rfl⟩ := hseal
  have hstart : SealSound store.source.blobs store.source.blobs [] :=
    ⟨h.payloads, fun _ => rfl, fun _ hsome => hsome, by simp⟩
  have hsealed := sealSound_foldlM hstart hfold
  exact h.quiet hsealed.payloads hsealed.held_eq happend

theorem nodeSound_setUpload
    (h : NodeSound codec config log store) (upload : Digest) (updatedAt : Option Nat) :
    NodeSound codec config log
      { store with
        source := { store.source with blobs := setUpload store.source.blobs upload updatedAt } } :=
  h.setBlobs (h.payloads.addManifests rfl fun _ hsome => hsome) fun _ => rfl

/-- A sealed upload gives its payload a manifest and changes no other. -/
theorem promoteUpload_eq_ok {upload : Digest} {reference : BlobRef} {promoted : BlobTables}
    (h : promoteUpload blobs upload reference = .ok promoted) :
    promoted.references = blobs.references ∧ (promoted.manifests (.completeBlob reference)).isSome ∧
    ∀ artifact, (blobs.manifests artifact).isSome → (promoted.manifests artifact).isSome := by
  unfold promoteUpload at h
  split at h
  · rename_i existing hexisting
    simp only [ok_rules] at h
    obtain ⟨-, rfl⟩ := h
    exact ⟨rfl, by simp [setUpload, hexisting], fun _ hsome => hsome⟩
  cases h
  refine ⟨rfl, by simp [setUpload], fun artifact hsome => ?_⟩
  exact isSome_update_some blobs.manifests _ artifact _ hsome

theorem nodeSound_finishUpload {upload : Digest} {reference : BlobRef}
    {observed : Option ArtifactManifest} {now : Nat} {admission : SourceJournalAdmission}
    (h : NodeSound codec config log store)
    (hfinish : finishUpload codec config upload reference observed now admission store = .ok next) :
    ∃ entries, NodeSound codec config (log ++ entries) next := by
  simp only [finishUpload, ok_rules] at hfinish
  obtain ⟨-, hfinish⟩ := hfinish
  split at hfinish
  · cases hfinish
    exact h.still
  simp only [ok_rules] at hfinish
  obtain ⟨_, -, -, -, _, hstate, _, hpromoted, _, happend, rfl⟩ := hfinish
  obtain ⟨hreferences, hsealed, hmanifests⟩ := promoteUpload_eq_ok hpromoted
  have hpayloads := h.payloads.addManifests hreferences hmanifests
  refine h.quiet
    (hpayloads.putReference (prepareSealedArtifactReservation_eq_ok hstate).2.1 hsealed) ?_ happend
  intro _
  rw [held_putReference]
  split
  · rename_i hartifact
    rw [hartifact]
    exact (prepareSealedArtifactReservation_eq_ok hstate).1
  rw [BlobTables.held, hreferences]
  rfl

theorem nodeSound_collect {dueUpdatedAt now : Nat}
    (h : NodeSound codec config log store) :
    ∃ entries, NodeSound codec config (log ++ entries)
    (collect codec config artifact dueUpdatedAt now store) := by
  unfold collect
  split
  · rename_i source removed hcollect
    rcases collectDueArtifact_eq_ok hcollect with rfl | ⟨hheld, -, happend⟩
    · exact h.still
    refine h.quiet ?_ ?_ happend
    · constructor
      case valid =>
        intro other state hother
        simp only [BlobTables.remove, update_apply] at hother
        split at hother
        · cases hother
        · exact h.payloads.valid other state hother
      case sealed =>
        intro blob hsome
        simp only [BlobTables.remove, update_apply] at hsome ⊢
        split at hsome
        · cases hsome
        rename_i hother
        rw [if_neg hother]
        exact h.payloads.sealed blob hsome
    · intro _
      rw [Delivery.held_remove]
      split
      · rename_i hother
        rw [hother, hheld]
      · rfl
  · exact h.still

end

section

/-- Effects of records on complete payloads are the records' effects. -/
theorem changeOf_localEffects (blob : BlobRef) (changes : List LocalChange) :
    changeOf (.completeBlob blob) (localEffects changes) =
    deltaOf blob (changes.flatMap LocalChange.referenceDeltas) := by
  have hdeltas : ∀ deltas : List ReferenceDelta, changeOf (.completeBlob blob)
          (deltas.map fun delta =>
            ({ artifact := .completeBlob delta.blob, change := delta.change } :
              DestinationReferenceDelta)) =
        deltaOf blob deltas := by
    intro deltas
    induction deltas with
    | nil => rfl
    | cons _ _ ih =>
      rw [map_cons, changeOf_cons, deltaOf_cons, ih]
      simp
  induction changes with
  | nil => rfl
  | cons change rest ih =>
    have hcons : localEffects (change :: rest) = (change.referenceDeltas.map fun delta =>
          ({ artifact := .completeBlob delta.blob, change := delta.change } :
            DestinationReferenceDelta)) ++ localEffects rest := rfl
    rw [hcons, changeOf_append, hdeltas, ih, flatMap_cons, deltaOf_append]

theorem logEffects_eq_flatMap (entries : List LogEntry) :
    logEffects entries = (entries.map LogEntry.change).flatMap LocalChange.referenceDeltas := by
  rw [flatMap_map]
  rfl

/-- The records of a page are the ones between its ends. -/
theorem logEffects_drop_of_prefix {changes : List LocalChange} {after : Nat}
    (h : changes <+: (log.map LogEntry.change).drop after) :
    logEffects (log.drop after) = changes.flatMap LocalChange.referenceDeltas ++
    logEffects (log.drop (after + changes.length)) := by
  obtain ⟨_, hrest⟩ := h
  rw [logEffects_eq_flatMap, logEffects_eq_flatMap, map_drop, map_drop,
    ← drop_drop, ← hrest, drop_left, flatMap_append]

theorem nodeSound_readPage {limit : Nat}
    (h : NodeSound codec config log store) :
    NodeSound codec config log (readPage codec config limit store) := by
  unfold readPage
  dsimp only
  split
  · exact h
  rename_i changes hscan
  obtain ⟨hpart, hwithin⟩ := Delivery.scanLocalChanges_eq_ok h.logs hscan
  split
  · exact h
  rename_i last hlast
  unfold readDelivery
  split
  · have hthrough : last.offset =
        store.source.journal.referenceCursor config.store.sourceId + changes.length := by
      obtain ⟨first, rfl⟩ : ∃ first, changes = first ++ [last] :=
        getLast?_eq_some_iff.mp hlast
      have hposition : (log.map LogEntry.change)[
          store.source.journal.referenceCursor config.store.sourceId + first.length]? =
            some last := by
        rw [← getElem?_drop]
        obtain ⟨_, hrest⟩ := hpart
        rw [← hrest, append_assoc, getElem?_append_right le_rfl]
        simp
      have hoffset := Delivery.numbered_history h.logs.toRecorded _ _ hposition
      rw [length_append, length_singleton]
      omega
    rw [length_map] at hwithin
    have hnew : Carried config.store log
        { source := config.store.sourceId
          after := store.source.journal.referenceCursor config.store.sourceId
          through := last.offset
          deltas := localEffects changes } :=
      ⟨rfl, hwithin, changes, hpart, hthrough, rfl⟩
    exact
      { h with
        carried := by
          intro request hrequest
          rcases mem_cons.mp hrequest with rfl | hold
          · exact hnew
          · exact h.carried request hold }
  · exact h

/-- The touched records are well formed, and none is new. -/
structure TouchedSound (blobs : BlobTables) (states : PendingBlobReferences) : Prop where
  keyed : states.Keyed
  touched : ∀ artifact state, states.get? artifact = some state →
      validateBlobReferenceState state = .ok () ∧ (blobs.references artifact).isSome

theorem touchedSound_applyDelta {now : Nat} {verified : List DestinationReferenceArtifact}
    {delta : DestinationReferenceDelta} {verified' : List DestinationReferenceArtifact}
    (h : TouchedSound blobs states)
    (hdelta : applyDelta blobs now (states, verified) delta = .ok (states', verified')) :
    TouchedSound blobs states' := by
  have hkeyed := (held_applyDelta h.keyed hdelta delta.artifact).1
  obtain ⟨_, _, hstate, hnext, rfl⟩ := applyDelta_eq_ok hdelta
  have hpresent : (blobs.references delta.artifact).isSome := by
    cases htouched : states.get? delta.artifact with
    | some => exact (h.touched _ _ htouched).2
    | none =>
      rw [htouched, Option.none_or] at hstate
      rw [hstate]
      rfl
  refine ⟨hkeyed, ?_⟩
  intro artifact found hfound
  rw [PendingBlobReferences.get?_put] at hfound
  split at hfound
  · rename_i hartifact
    cases hfound
    rw [hartifact]
    exact ⟨(applyReferenceChange_eq_ok hnext).2.1, hpresent⟩
  · exact h.touched artifact found hfound

theorem touchedSound_foldlM {now : Nat} {verified verified' : List DestinationReferenceArtifact}
    {deltas : List DestinationReferenceDelta} (h : TouchedSound blobs states)
    (hfold : deltas.foldlM (applyDelta blobs now) (states, verified) = .ok (states', verified')) :
    TouchedSound blobs states' := by
  induction deltas generalizing states verified with
  | nil =>
    cases hfold
    exact h
  | cons _ _ ih =>
    rw [foldlM_cons, bind_eq_ok] at hfold
    obtain ⟨⟨_, _⟩, hmiddle, hfold⟩ := hfold
    exact ih (touchedSound_applyDelta h hmiddle) hfold

theorem manifests_stageBlobReferenceUpdates (blobs : BlobTables) (states : PendingBlobReferences) :
    (stageBlobReferenceUpdates blobs states).manifests = blobs.manifests := by
  induction states generalizing blobs with
  | nil => rfl
  | cons entry _ ih => exact ih (blobs.putReference entry.1 entry.2)

theorem payloadsSound_stageBlobReferenceUpdates
    (h : PayloadsSound blobs) (htouched : TouchedSound blobs states) :
    PayloadsSound (stageBlobReferenceUpdates blobs states) where
  valid := by
    intro artifact state hstate
    rw [references_stageBlobReferenceUpdates htouched.keyed] at hstate
    cases hfound : states.get? artifact with
    | some =>
      rw [hfound, Option.some_or] at hstate
      cases hstate
      exact (htouched.touched artifact state hfound).1
    | none =>
      rw [hfound, Option.none_or] at hstate
      exact h.valid artifact state hstate
  sealed := by
    intro blob hsome
    rw [manifests_stageBlobReferenceUpdates]
    rw [references_stageBlobReferenceUpdates htouched.keyed] at hsome
    refine h.sealed blob ?_
    cases hfound : states.get? (.completeBlob blob) with
    | some found => exact (htouched.touched _ found hfound).2
    | none =>
      rw [hfound, Option.none_or] at hsome
      exact hsome

/-- A page is applied once, right behind the cursor. -/
theorem nodeSound_applyDeltas {request : ReferenceDeltaBatch} {admission : SourceJournalAdmission}
    {now : Nat}
    (h : NodeSound codec config log store)
    (hrequest : request ∈ store.source.deliveries) :
    ∃ entries, NodeSound codec config (log ++ entries) { store with
        source := store.source.applyDeltas codec config.store admission now request } := by
  obtain ⟨hsource, _, changes, hpart, hthrough, hdeltas⟩ := h.carried request hrequest
  have hwithin : request.through ≤ log.length := by
    have hlength := hpart.length_le
    rw [length_drop, length_map] at hlength
    omega
  unfold applyDeltas
  split
  · exact h.still
  split
  · rename_i journal blobs applied happlied
    rcases applyReferenceDeltas_eq_ok happlied with ⟨-, rfl, rfl⟩ |
      ⟨hcursor, _, _, _, hstates, rfl, hstaged⟩
    · exact h.still
    rw [hsource] at hcursor hstaged
    obtain ⟨entries, hlogs, hquiet, _, hmoved⟩ := quiet_stageLocalChanges h.logs
        (by rw [update_self, h.logs.tail_eq]; exact hwithin) hstaged
    have hnew : journal.referenceCursor config.store.sourceId = request.through := by
      rcases hmoved with hsame | ⟨htail, -⟩
      · rw [hsame, update_self]
      rw [h.logs.tail_eq] at htail
      omega
    have hbefore : pendingEffects config.store log store.source.journal = changes.flatMap
      LocalChange.referenceDeltas ++ logEffects (log.drop request.through) := by
      rw [pendingEffects, hcursor, logEffects_drop_of_prefix hpart, hthrough]
    have hnow : pendingEffects config.store (log ++ entries) journal =
        logEffects (log.drop request.through) := by
      rw [pendingEffects, hnew, drop_append_of_le_length hwithin, logEffects_append,
        hquiet, append_nil]
    have hnone : TouchedSound store.source.blobs [] :=
      ⟨nodup_nil, by simp [PendingBlobReferences.get?]⟩
    have htouched := touchedSound_foldlM hnone hstates
    have hsafe_le := h.safe_le
    have hfloor_le := h.floor_le
    refine ⟨entries, ?_⟩
    constructor
    case logs => exact hlogs
    case carried => exact fun other hother => (h.carried other hother).mono entries
    case safe_le =>
      dsimp only
      omega
    case floor_le =>
      dsimp only
      omega
    case releases =>
      rw [hnow]
      intro delta hdelta
      exact h.releases delta (by rw [hbefore]; exact mem_append_right _ hdelta)
    case payloads => exact payloadsSound_stageBlobReferenceUpdates h.payloads htouched
    case objects => exact h.objects
    case watermark => exact h.watermark
    case balanced =>
      intro blob
      have hbalance := h.balanced blob
      dsimp only at hbalance ⊢
      rw [hbefore, deltaOf_append] at hbalance
      rw [held_foldlM_applyDelta hstates, hdeltas, changeOf_localEffects, hnow]
      omega
  · exact h.still

theorem nodeSound_applyPage {index : Nat} {admission : SourceJournalAdmission} {now : Nat}
    (h : NodeSound codec config log store) :
    ∃ entries, NodeSound codec config (log ++ entries)
    (applyPage codec config index admission now store) := by
  unfold applyPage
  split
  · exact h.still
  rename_i request hrequest
  exact nodeSound_applyDeltas h (mem_of_getElem? hrequest)

end

end Keldra.LocalNode
