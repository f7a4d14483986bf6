import Keldra.LocalNode.Model

/-!
# Batched reads

A read of one named version and an entry of a batched read each apply the
retention rule on their own.  A single read finds a version that a user keeps or
that is the current one; an entry of a batch finds only the former.  They differ
exactly for a head that was written before its bucket kept versions.
-/

namespace Keldra.LocalNode

open Foundation Store Function List

/-- An object as a client names it. -/
structure ObjectKey where
  tenant : String
  bucket : String
  path : String
deriving DecidableEq

/-- The identities of the buckets that a batch has named so far. -/
abbrev IdentityCache := String × String → Option (Except MutationError BucketIdentity)

def validateSelectedVersionId
    (selected : VersionId) (version : Version) : Except MutationError Unit :=
  rejectIf (version.id ≠ selected) (.storage "selected version descriptor disagrees with its key")

section

-- The records that name the buckets and hold their options are not object tables.
variable (resolveBucketIdentity : String → String → Except MutationError BucketIdentity)
  (bucketVersioning : BucketIdentity → Except MutationError ObjectVersioning)
  (objects : ObjectTables)

/-- The version that `get_version` and `open_object` select when one is named;
the payload is read afterwards. -/
def selectVersion (key : ObjectKey) (version : VersionId) :
    Except MutationError (Option Version) := do
  let identity ← resolveBucketIdentity key.tenant key.bucket
  let versioning ← bucketVersioning identity
  rejectIf (versioning ≠ .enabled) .objectVersioningNotEnabled
  match userRetainedVersion objects identity key.path version with
  | none => pure none
  | some found => do
    validateSelectedVersionId version found
    pure (some found)

/-- One entry of a batch, of the named version or of the current one. -/
def selectEntry (key : ObjectKey) (requested : Option VersionId) (identity : BucketIdentity) :
    Except MutationError (Option Version) := do
  let selectedHead ← match requested with
    | some _ => do
      let versioning ← bucketVersioning identity
      rejectIf (versioning ≠ .enabled) .objectVersioningNotEnabled
      pure none
    | none => pure (objects.heads.get? (identity.headKey key.path))
  match requested.or (selectedHead.map fun head => head.version) with
  | none => pure none
  | some id =>
    match objects.versions.get? (exactVersionKey identity key.path id) with
    | none => do
      rejectIf selectedHead.isSome (.storage "head references a missing version descriptor")
      pure none
    | some stored =>
      if selectedHead.isNone ∧ stored.retention ≠ .userRetained then
        pure none
      else do
        match selectedHead with
        | some head => do
          let _ ← validateSelectedHead head stored.version
        | none => validateSelectedVersionId id stored.version
        pure (some stored.version)

/-- The bucket keeps versions, and the named one is the current one of its path, written
before that. -/
def OlderHead (key : ObjectKey) (version : VersionId) : Prop :=
  ∃ identity stored head, resolveBucketIdentity key.tenant key.bucket = .ok identity ∧
    bucketVersioning identity = .ok .enabled ∧
    objects.versions.get? (exactVersionKey identity key.path version) = some stored ∧
    objects.heads.get? (identity.headKey key.path) = some head ∧
    head.version = version ∧ stored.retention ≠ .userRetained

/-- Each bucket is resolved once, for the first of its requests. -/
def selectNext (progress : IdentityCache × List (ObjectKey × Except MutationError (Option Version)))
    (request : ObjectKey × Option VersionId) :
    IdentityCache × List (ObjectKey × Except MutationError (Option Version)) :=
  let name := (request.1.tenant, request.1.bucket)
  let identity := (progress.1 name).getD (resolveBucketIdentity name.1 name.2)
  (update progress.1 name (some identity),
    progress.2 ++ [(request.1, identity.bind (selectEntry bucketVersioning objects request.1
      request.2))])

def selectBatchGet (requests : List (ObjectKey × Option VersionId)) :
    List (ObjectKey × Except MutationError (Option Version)) :=
  (requests.foldl (selectNext resolveBucketIdentity bucketVersioning objects) (fun _ => none, [])).2

end

section

variable {objects : ObjectTables}

/-- The cache holds what the names resolve to, so it never shows in an entry. -/
theorem selectNext_foldl {cache : IdentityCache}
    {resolve : String → String → Except MutationError BucketIdentity}
    {versioning : BucketIdentity → Except MutationError ObjectVersioning}
    {entries : List (ObjectKey × Except MutationError (Option Version))}
    {requests : List (ObjectKey × Option VersionId)}
    (hcache : ∀ name identity, cache name = some identity → identity = resolve name.1 name.2) :
    (requests.foldl (selectNext resolve versioning objects) (cache, entries)).2 =
    entries ++ requests.map fun request => (request.1,
    (resolve request.1.tenant request.1.bucket).bind
    (selectEntry versioning objects request.1 request.2)) := by
  induction requests generalizing cache entries with
  | nil => simp
  | cons request rest ih =>
    have hidentity : (cache (request.1.tenant, request.1.bucket)).getD (resolve request.1.tenant
      request.1.bucket) = resolve request.1.tenant request.1.bucket := by
      cases hcached : cache (request.1.tenant, request.1.bucket) with
      | none => rfl
      | some identity => exact hcache _ _ hcached
    rw [foldl_cons, selectNext, ih, map_cons, hidentity, append_assoc]
    · rfl
    intro name identity hname
    by_cases hsame : name = (request.1.tenant, request.1.bucket)
    · subst hsame
      rw [update_self, Option.some.injEq] at hname
      rw [← hname, hidentity]
    rw [update_of_ne hsame] at hname
    exact hcache name identity hname

theorem ok_bind {ε α β : Type} (a : α) (f : α → Except ε β) : (.ok a >>= f) = f a := rfl

/-- For a named version the two retention rules differ at a current version only. -/
theorem selectEntry_eq {resolve : String → String → Except MutationError BucketIdentity}
    {versioning : BucketIdentity → Except MutationError ObjectVersioning} {key : ObjectKey}
    {version : VersionId} {identity : BucketIdentity}
    (hidentity : resolve key.tenant key.bucket = .ok identity)
    (hkept : ¬OlderHead resolve versioning objects key version) :
    selectEntry versioning objects key (some version) identity =
      selectVersion resolve versioning objects key version := by
  rw [selectVersion, hidentity]
  simp only [selectEntry, pure_bind, Option.some_or, ok_bind]
  cases hversioning : versioning identity with
  | error => rfl
  | ok option =>
  by_cases henabled : option = .enabled
  · subst henabled
    refine bind_congr fun _ => bind_congr fun _ => ?_
    cases hstored : objects.versions.get? (exactVersionKey identity key.path version) with
    | none =>
      rw [userRetainedVersion, hstored]
      rfl
    | some stored =>
      have hrule : (stored.retention = .userRetained ∨ (objects.heads.get?
          (identity.headKey key.path)).any (fun head => head.version = version) = true) ↔
            stored.retention = .userRetained := by
        refine ⟨fun h => h.elim id fun hcurrent => ?_, .inl⟩
        rw [Option.any_eq_true] at hcurrent
        obtain ⟨head, hhead, hversion⟩ := hcurrent
        by_contra hclass
        exact hkept ⟨identity, stored, head, hidentity, hversioning, hstored, hhead,
          of_decide_eq_true hversion, hclass⟩
      simp only [userRetainedVersion, hstored, hrule]
      by_cases hclass : stored.retention = .userRetained
      · simp [hclass]
      · simp [hclass]
  · -- both refuse to name a version
    have hrefused : rejectIf (option ≠ .enabled) MutationError.objectVersioningNotEnabled =
        .error .objectVersioningNotEnabled := if_pos henabled
    rw [ok_bind, ok_bind, hrefused]
    rfl

/-- For an older head the entry is empty, and the single read is not. -/
theorem OlderHead.entry_ne {resolve : String → String → Except MutationError BucketIdentity}
    {versioning : BucketIdentity → Except MutationError ObjectVersioning} {key : ObjectKey}
    {version : VersionId}
    (h : OlderHead resolve versioning objects key version) :
    (resolve key.tenant key.bucket).bind (selectEntry versioning objects key (some version)) ≠
      selectVersion resolve versioning objects key version := by
  obtain ⟨identity, stored, head, hidentity, hversioning, hstored, hhead, hversion, hclass⟩ := h
  have hentry : selectEntry versioning objects key (some version) identity = .ok none := by
    simp [selectEntry, hversioning, hstored, hclass, rejectIf]
  have hfound : userRetainedVersion objects identity key.path version = some stored.version := by
    simp [userRetainedVersion, hstored, hhead, hversion]
  rw [hidentity, Except.bind, hentry]
  intro hnone
  replace hnone := hnone.symm
  simp only [selectVersion, hidentity, ok_bind, hversioning, hfound, ok_rules] at hnone
  exact Option.some_ne_none _ hnone.2.2

end

/--
An entry of a batch that names a version agrees with a read of that version
alone exactly when the version is not the current one of its path that a bucket
with versions does not keep for users.
-/
theorem batch_get_agrees (resolve : String → String → Except MutationError BucketIdentity)
    (versioning : BucketIdentity → Except MutationError ObjectVersioning) (objects : ObjectTables)
    (requests : List (ObjectKey × Option VersionId)) (index : Nat) (key : ObjectKey)
    (version : VersionId) (hrequest : requests[index]? = some (key, some version)) :
    (selectBatchGet resolve versioning objects requests)[index]? =
        some (key, selectVersion resolve versioning objects key version) ↔
      ¬OlderHead resolve versioning objects key version := by
  rw [selectBatchGet, selectNext_foldl (by simp), nil_append, getElem?_map, hrequest,
    Option.map_some, Option.some.injEq, Prod.mk.injEq, and_iff_right rfl]
  refine ⟨fun hagrees holder => holder.entry_ne hagrees, fun hkept => ?_⟩
  cases hidentity : resolve key.tenant key.bucket with
  | error =>
    rw [selectVersion, hidentity]
    rfl
  | ok identity => exact selectEntry_eq hidentity hkept

/-- A put into a bucket that does or does not keep versions. -/
def putReport (versioning : ObjectVersioning) : LocalStore :=
  run (tableCodec [reportPut 1 4198400]) sampleConfig 1
    [sampleWrite versioning 1 (sampleOperation "a" (.put (.inline sampleReport) none .put))]

def reportKey : ObjectKey := { tenant := "t", bucket := "b", path := "a" }

theorem batch_get_agrees_putReport :
    (selectBatchGet (fun _ _ => .ok sampleBucket) (fun _ => .ok .enabled)
    (putReport .enabled).source.objects [(reportKey, some 4198400)])[0]? =
    some (reportKey, selectVersion (fun _ _ => .ok sampleBucket) (fun _ => .ok .enabled)
    (putReport .enabled).source.objects reportKey 4198400) := by
  refine (batch_get_agrees _ _ _ _ 0 reportKey 4198400 rfl).mpr ?_
  rintro ⟨_, stored, _, hidentity, -, hstored, -, -, hclass⟩
  cases hidentity
  have hkept : ((putReport .enabled).source.objects.versions.get? (exactVersionKey sampleBucket
    reportKey.path 4198400)).map (fun kept => kept.retention) = some .userRetained := by
    decide +kernel
  rw [hstored] at hkept
  exact hclass (Option.some.inj hkept)

/-- A head from before its bucket kept versions: a read of its version finds it,
an entry of a batch does not. -/
theorem batch_get_misses_older_head :
    selectBatchGet (fun _ _ => .ok sampleBucket) (fun _ => .ok .enabled)
    (putReport .unversioned).source.objects [(reportKey, some 4198400)] = [(reportKey, .ok none)] ∧
    (selectVersion (fun _ _ => .ok sampleBucket) (fun _ => .ok .enabled)
    (putReport .unversioned).source.objects reportKey 4198400).map
    (fun found => found.map fun version => version.id) = .ok (some 4198400) := by
  constructor <;> decide +kernel

end Keldra.LocalNode
