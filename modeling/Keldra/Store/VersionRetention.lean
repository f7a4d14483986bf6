import Keldra.Store.SourceStore

/-!
# Version descriptors and the payloads they name

How many stored version descriptors name a payload, and what retention does to
that number.  A retention pass removes descriptors whose journal record it prunes
and which no head selects.  For each of them it appends a release of the payload,
so the number of descriptors and the effects of the appended records add up.
-/

namespace Keldra.Store

open Foundation OrdMap List

variable {objects : ObjectTables} {key : VersionKey} {blob : BlobRef}

section

/-- One if a descriptor names the payload. -/
def StoredVersion.names (stored : StoredVersion) (blob : BlobRef) : Nat :=
  if stored.version.blob = some blob then 1 else 0

/-- Stored version descriptors that name a payload. -/
def ObjectTables.naming (objects : ObjectTables) (blob : BlobRef) : Nat :=
  (objects.versions.entries.map fun entry => entry.2.names blob).sum

variable {stored old : StoredVersion}

theorem versionKey_ne {version : VersionId} {identity : BucketIdentity} {path : String}
    {other : VersionId} {key : HeadKey} (h : key ≠ identity.headKey path) :
    (toLex (key, version) : VersionKey) ≠ exactVersionKey identity path other :=
  fun heq => h (congrArg (fun k : VersionKey => (ofLex k).1) heq)

theorem StoredVersion.names_congr (h : stored.version.blob = old.version.blob) (blob : BlobRef) :
    stored.names blob = old.names blob := by
  rw [names, names, h]

theorem naming_erase
    (h : objects.versions.get? key = some old) (heads : OrdMap HeadKey Head) (blob : BlobRef) :
    objects.naming blob = old.names blob +
    ({ heads, versions := objects.versions.erase key } : ObjectTables).naming blob :=
  OrdMap.sum_map_erase objects.versions (fun entry => entry.2.names blob) h

/-- A new descriptor. -/
theorem naming_insert_new (h : objects.versions.get? key = none) (heads : OrdMap HeadKey Head)
    (stored : StoredVersion) (blob : BlobRef) :
    ({ heads, versions := objects.versions.insert key stored } : ObjectTables).naming blob =
    stored.names blob + objects.naming blob := by
  have hsum := sum_map_insert objects.versions (fun entry => entry.2.names blob) key stored
  rw [erase_eq_self h] at hsum
  exact hsum

/-- A descriptor rewritten for the same payload. -/
theorem naming_insert_same
    (h : objects.versions.get? key = some old) (hblob : stored.version.blob = old.version.blob)
    (heads : OrdMap HeadKey Head) (blob : BlobRef) :
    ({ heads, versions := objects.versions.insert key stored } : ObjectTables).naming blob =
    objects.naming blob := by
  have hsum := sum_map_insert objects.versions (fun entry => entry.2.names blob) key stored
  have hold := naming_erase h heads blob
  have hnames := StoredVersion.names_congr hblob blob
  unfold ObjectTables.naming at hold ⊢
  dsimp only at hsum hold ⊢
  omega

theorem names_pos_of_mem (h : objects.versions.get? key = some stored)
    (hblob : stored.version.blob = some blob) : 0 < objects.naming blob := by
  have herase := naming_erase h objects.heads blob
  have hnames : stored.names blob = 1 := if_pos hblob
  omega

end

/-- What effects add to the references of a payload. -/
def deltaOf (blob : BlobRef) (deltas : List ReferenceDelta) : Int :=
  (deltas.map fun delta => if delta.blob = blob then delta.change else 0).sum

@[simp] theorem deltaOf_nil (blob : BlobRef) : deltaOf blob [] = 0 := rfl

@[simp] theorem deltaOf_cons
    (blob : BlobRef) (delta : ReferenceDelta) (rest : List ReferenceDelta) :
    deltaOf blob (delta :: rest) =
    (if delta.blob = blob then delta.change else 0) + deltaOf blob rest := by
  simp [deltaOf]

@[simp] theorem deltaOf_append (blob : BlobRef) (first second : List ReferenceDelta) :
    deltaOf blob (first ++ second) = deltaOf blob first + deltaOf blob second := by
  simp [deltaOf]

theorem deltaOf_nonpos {deltas : List ReferenceDelta}
    (h : ∀ delta ∈ deltas, delta.change ≤ 0) : deltaOf blob deltas ≤ 0 := by
  induction deltas with
  | nil => exact le_rfl
  | cons delta _ ih =>
    have hfirst := h delta mem_cons_self
    have hrest := ih fun other hother => h other (mem_cons_of_mem _ hother)
    rw [deltaOf_cons]
    split <;> omega

/-- The effects a change will carry. -/
def PendingLocalChange.effects (pending : PendingLocalChange) : List ReferenceDelta :=
  (pending.atOffset 0).referenceDeltas

open PendingLocalChange

theorem PendingLocalChange.referenceDeltas_atOffset (pending : PendingLocalChange) (offset : Nat) :
    (pending.atOffset offset).referenceDeltas = pending.effects := by
  rcases pending with _ | _ | ⟨_, _, _ | _⟩ | _ | _ | _ <;> rfl

/-- The effects of the entries of a log. -/
def logEffects (entries : List LogEntry) : List ReferenceDelta :=
  entries.flatMap fun entry => entry.change.referenceDeltas

@[simp] theorem logEffects_nil : logEffects [] = [] := rfl

@[simp] theorem logEffects_append (first second : List LogEntry) :
    logEffects (first ++ second) = logEffects first ++ logEffects second :=
  flatMap_append

/-- Appended changes carry their effects into the log. -/
theorem logEffects_of_appends {log : List LogEntry} {changes : List PendingLocalChange}
    {entries : List LogEntry} (h : Appends log changes entries) :
    logEffects entries = changes.flatMap effects := by
  induction h with
  | nil => rfl
  | cons _ ih =>
    rw [flatMap_cons, ← ih, logEffects, flatMap_cons, referenceDeltas_atOffset]
    rfl

section

variable {descriptor : StoredVersion}

/-- What retention may do to the object tables while it appends `releases`. -/
structure Retires (before after : ObjectTables) (releases : List ReferenceDelta) : Prop where
  heads_eq : after.heads = before.heads
  kept : ∀ key stored, after.versions.get? key = some stored →
      ∃ old, before.versions.get? key = some old ∧ old.version = stored.version
  current : ∀ key head, before.heads.get? key = some head →
      ∀ old, before.versions.get? (toLex (key, head.version)) = some old →
        ∃ stored, after.versions.get? (toLex (key, head.version)) = some stored ∧
          stored.version = old.version
  counts : ∀ blob, (before.naming blob : Int) = after.naming blob - deltaOf blob releases
  negative : ∀ delta ∈ releases, delta.change ≤ 0

theorem Retires.refl (objects : ObjectTables) : Retires objects objects [] where
  heads_eq := rfl
  kept := fun _ stored h => ⟨stored, h, rfl⟩
  current := fun _ _ _ old h => ⟨old, h, rfl⟩
  counts := by simp
  negative := by simp

/-- The state of a pass: retired descriptors are gone, the others keep their
versions, and none of the retired ones is current. -/
structure PassRetires (stored : ObjectTables) (pass : RetentionPass) : Prop where
  heads_eq : pass.objects.heads = stored.heads
  retired_gone : ∀ key ∈ pass.retiredKeys, pass.objects.versions.get? key = none
  kept :
    ∀ key, key ∉ pass.retiredKeys → (pass.objects.versions.get? key).map StoredVersion.version =
      (stored.versions.get? key).map StoredVersion.version
  not_current :
    ∀ key head, stored.heads.get? key = some head → toLex (key, head.version) ∉ pass.retiredKeys
  counts : ∀ blob, (stored.naming blob : Int) = pass.objects.naming blob -
      deltaOf blob (pass.delayedReleases.flatMap PendingLocalChange.effects)
  negative : ∀ delta ∈ pass.delayedReleases.flatMap PendingLocalChange.effects, delta.change ≤ 0

variable {stored : ObjectTables} {pass next : RetentionPass}

/-- What retiring a version can do: nothing, a new mark on the current version,
or the removal of another one. -/
theorem stageCheckpointedSourceVersionRetirement_eq_ok {retiredKeys : List VersionKey}
    {tenantId bucketId : Nat} {exactPath : String} {versionId : VersionId} {retirement : Retirement}
    (h : stageCheckpointedSourceVersionRetirement stored objects retiredKeys tenantId bucketId
    exactPath versionId = .ok retirement) : (retirement =
    { objects, retiredKeys, released := none }) ∨ ∃ descriptor,
    exactVersionKey { tenantId, bucketId } exactPath versionId ∉ retiredKeys ∧
    stored.versions.get? (exactVersionKey { tenantId, bucketId } exactPath versionId) =
    some descriptor ∧ (retirement =
    { objects :=
        { objects with
          versions := objects.versions.insert (exactVersionKey { tenantId, bucketId } exactPath
            versionId) { retention := .journalReleased, version := descriptor.version } }
      retiredKeys
      released := none } ∨ ∃ head,
    stored.heads.get? (BucketIdentity.headKey { tenantId, bucketId } exactPath) = some head ∧
    head.version ≠ versionId ∧ retirement =
    { objects :=
        { objects with
          versions := objects.versions.erase (exactVersionKey { tenantId, bucketId } exactPath
            versionId) }
      retiredKeys := exactVersionKey { tenantId, bucketId } exactPath versionId :: retiredKeys
      released := some (head.version, descriptor.version.blob.map fun blob =>
        { blob, change := -1 }) }) := by
  unfold stageCheckpointedSourceVersionRetirement at h
  dsimp only at h
  split at h
  · cases h
    exact .inl rfl
  rename_i hfresh
  split at h
  · cases h
    exact .inl rfl
  rename_i descriptor hdescriptor
  split at h
  · cases h
    exact .inl rfl
  simp only [ok_rules] at h
  obtain ⟨-, h⟩ := h
  refine .inr ⟨descriptor, hfresh, hdescriptor, ?_⟩
  split at h
  · cases h
    exact .inl rfl
  rename_i hother
  simp only [ok_rules] at h
  obtain ⟨head, hhead, rfl⟩ := h
  refine .inr ⟨head, hhead, ?_, rfl⟩
  rw [hhead] at hother
  simpa using hother

theorem PassRetires.init (journal : JournalTables) (objects : ObjectTables) : PassRetires objects
      { journal, objects, retiredKeys := [], delayedReleases := [], prunedRecords := 0 } where
  heads_eq := rfl
  retired_gone := by simp
  kept := fun _ _ => rfl
  not_current := by simp
  counts := by simp
  negative := by simp

section

variable (h : PassRetires stored pass)

include h

section

variable (hfresh : key ∉ pass.retiredKeys) (hstored : stored.versions.get? key = some descriptor)

include hfresh hstored

/-- A stored descriptor that is not retired is still there with its version. -/
theorem PassRetires.get? :
    ∃ found, pass.objects.versions.get? key = some found ∧ found.version = descriptor.version := by
  have hkept := h.kept key hfresh
  rw [hstored, Option.map_some, Option.map_eq_some_iff] at hkept
  exact hkept

/-- The current version is marked, nothing else changes. -/
theorem PassRetires.mark {journal : JournalTables} {retention : StoredVersionRetention}
    {prunedRecords : Nat} : PassRetires stored
    { journal
      objects :=
        { pass.objects with
          versions :=
            pass.objects.versions.insert key { retention, version := descriptor.version } }
      retiredKeys := pass.retiredKeys
      delayedReleases := pass.delayedReleases
      prunedRecords } := by
  obtain ⟨found, hfound, hversion⟩ := h.get? hfresh hstored
  constructor
  case heads_eq => exact h.heads_eq
  case retired_gone =>
    intro other hother
    have hne : other ≠ key := by
      rintro rfl
      exact hfresh hother
    rw [get?_insert, if_neg hne]
    exact h.retired_gone other hother
  case kept =>
    intro other hother
    rw [get?_insert]
    by_cases hkey : other = key
    · rw [if_pos hkey, hkey, hstored]
      rfl
    rw [if_neg hkey]
    exact h.kept other hother
  case not_current => exact h.not_current
  case counts =>
    intro blob
    have hblob : ({ retention, version := descriptor.version } : StoredVersion).version.blob =
        found.version.blob := congrArg Version.blob hversion.symm
    rw [naming_insert_same hfound hblob]
    exact h.counts blob
  case negative => exact h.negative

/-- A version that is not current goes, and its release is queued. -/
theorem PassRetires.retire {journal : JournalTables} {release : PendingLocalChange}
    {prunedRecords : Nat} {head : Head} (hhead : stored.heads.get? (ofLex key).1 = some head)
    (hother : head.version ≠ (ofLex key).2) (heffects : release.effects =
    (descriptor.version.blob.map fun blob => ({ blob, change := -1 } : ReferenceDelta)).toList) :
    PassRetires stored
    { journal
      objects := { pass.objects with versions := pass.objects.versions.erase key }
      retiredKeys := key :: pass.retiredKeys
      delayedReleases := pass.delayedReleases ++ [release]
      prunedRecords } := by
  obtain ⟨_, hfound, hversion⟩ := h.get? hfresh hstored
  have hreleases : (pass.delayedReleases ++ [release]).flatMap effects =
      pass.delayedReleases.flatMap effects ++ release.effects := by
    simp
  constructor
  case heads_eq => exact h.heads_eq
  case retired_gone =>
    intro other hmem
    rw [get?_erase]
    rcases mem_cons.mp hmem with rfl | hold
    · rw [if_pos rfl]
    split
    · rfl
    · exact h.retired_gone other hold
  case kept =>
    intro other hmem
    have hne : other ≠ key := fun heq => hmem (heq ▸ mem_cons_self)
    rw [get?_erase, if_neg hne]
    exact h.kept other fun hold => hmem (mem_cons_of_mem _ hold)
  case not_current =>
    intro path selected hselected hmem
    rcases mem_cons.mp hmem with heq | hold
    · subst heq
      rw [ofLex_toLex, hselected, Option.some.injEq] at hhead
      exact hother (congrArg Head.version hhead).symm
    · exact h.not_current path selected hselected hold
  case counts =>
    intro blob
    have hcounts := h.counts blob
    have herase := naming_erase hfound pass.objects.heads blob
    have hnames := StoredVersion.names_congr (congrArg Version.blob hversion) blob
    dsimp only
    rw [hreleases, deltaOf_append, heffects]
    have hrelease : deltaOf blob (descriptor.version.blob.map fun blob =>
          ({ blob, change := -1 } : ReferenceDelta)).toList = -(descriptor.names blob : Int) := by
      unfold StoredVersion.names
      cases descriptor.version.blob with
      | none => rfl
      | some named =>
        by_cases hnamed : named = blob
        · simp [hnamed]
        · simp [hnamed]
    omega
  case negative =>
    rw [hreleases, heffects]
    intro delta hdelta
    rcases mem_append.mp hdelta with hold | hnew
    · exact h.negative delta hold
    rw [Option.mem_toList, Option.map_eq_some_iff] at hnew
    obtain ⟨_, -, rfl⟩ := hnew
    exact (by decide : (-1 : Int) ≤ 0)

end

/-- A record that retires no version. -/
theorem PassRetires.skip (journal : JournalTables) (prunedRecords : Nat) : PassRetires stored
      { journal
        objects := pass.objects
        retiredKeys := pass.retiredKeys
        delayedReleases := pass.delayedReleases
        prunedRecords } :=
  { h with }

end

theorem passRetires_pruneRecord {codec : LocalChangeCodec} {config : StoreConfig}
    (hpass : PassRetires stored pass) (h : pruneRecord codec config stored pass = .ok next) :
    PassRetires stored next := by
  simp only [pruneRecord, ok_rules, checkedAdd64_eq_some, checkedSub64_eq_some, Prod.exists] at h
  obtain ⟨_, -, _, -, change, -, -, _, -, _, _, _, hstaged, _, -, rfl⟩ := h
  cases change with
  | objectHead =>
    simp only [stagePrunedChangeVersionRetirement, ok_rules] at hstaged
    obtain ⟨_, hretirement, rfl, rfl, rfl⟩ := hstaged
    rcases stageCheckpointedSourceVersionRetirement_eq_ok hretirement with
      rfl | ⟨_, hfresh, hstored, rfl | ⟨_, hhead, hother, rfl⟩⟩
    · rw [Option.map_none, Option.toList_none, append_nil]
      exact hpass.skip _ _
    · rw [Option.map_none, Option.toList_none, append_nil]
      exact hpass.mark hfresh hstored
    · exact hpass.retire hfresh hstored hhead hother rfl
  | retainedVersionDeleted | aggregateChanged | contentLifecycleChanged | atomicBatchPublished =>
    cases hstaged
    rw [Option.toList_none, append_nil]
    exact hpass.skip _ _

theorem passRetires_pruneRecords {codec : LocalChangeCodec} {config : StoreConfig}
    {forceHeadroom : Bool} {safeThrough bound : Nat}
    (hpass : PassRetires stored pass)
    (h : pruneRecords codec config stored forceHeadroom safeThrough bound pass = .ok next) :
    PassRetires stored next := by
  induction bound generalizing pass with
  | zero =>
    cases h
    exact hpass
  | succ _ ih =>
    unfold pruneRecords at h
    split at h
    · obtain ⟨_, hmiddle, h⟩ := bind_eq_ok.mp h
      exact ih (passRetires_pruneRecord hpass hmiddle) h
    cases h
    exact hpass

theorem PassRetires.retires (h : PassRetires stored pass) : Retires stored pass.objects
    (pass.delayedReleases.flatMap effects) :=
  { h with
    kept := by
      intro key _ hfound
      have hfresh : key ∉ pass.retiredKeys := by
        intro hmem
        rw [h.retired_gone key hmem] at hfound
        cases hfound
      have hkept := h.kept key hfresh
      rw [hfound, Option.map_some] at hkept
      exact Option.map_eq_some_iff.mp hkept.symm
    current := fun key head hhead old hold => h.get? (h.not_current key head hhead) hold }

end

section

variable {store : SourceStore}

/-- A retention pass keeps the log and the descriptors in step. -/
theorem retires_prune {codec : LocalChangeCodec} {config : StoreConfig} {log : List LogEntry}
    {forceHeadroom : Bool}
    (hlog : Logs codec config log store.journal) :
    ∃ entries, Logs codec config (log ++ entries)
    (SourceStore.prune codec config forceHeadroom store).journal ∧ Retires store.objects
    (SourceStore.prune codec config forceHeadroom store).objects (logEffects entries) := by
  unfold SourceStore.prune
  split
  · rename_i journal objects hpass
    obtain ⟨entries, hlogs, -, -, -, -, hobjects⟩ := logs_enforceRetention hlog hpass
    refine ⟨entries, hlogs, ?_⟩
    rcases hobjects with ⟨rfl, rfl⟩ | ⟨_, _, _, hrecords, happends, rfl⟩
    · exact Retires.refl _
    rw [logEffects_of_appends happends]
    exact (passRetires_pruneRecords (PassRetires.init _ _) hrecords).retires
  refine ⟨[], ?_, Retires.refl _⟩
  rw [append_nil]
  exact hlog

end

end Keldra.Store
