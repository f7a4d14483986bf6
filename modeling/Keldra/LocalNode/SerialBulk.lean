import Keldra.LocalNode.InOrder

/-!
# When a bulk write is serial

A bulk write is the in-order execution of its operations exactly if one pass
removes all expired receipts and no operation meets a check whose answer an
earlier operation of the bulk has changed.  An operation that misses its clone
source or its payload in one of the two executions only is told so, and nothing
else in an evaluation gives that answer.
-/

namespace Keldra.LocalNode

open Foundation Store List

variable {context : BulkContext} {reference : BlobRef} {contentType : Option String}
  {mode : PutMode}

section

variable {next : BulkContext} {operation : PreparedOperation} {e : MutationError}

theorem checkCloneSource_cases (context : BulkContext) (operation : PreparedOperation) :
    checkCloneSource context operation = .ok () ∨
    checkCloneSource context operation = .error cloneSourceGone := by
  unfold checkCloneSource
  split
  · dsimp only [rejectIf]
    split
    · exact .inr rfl
    · exact .inl rfl
  · exact .inl rfl

theorem checkInstalledPayload_cases (hsound : PayloadsSound context.store.source.blobs) :
    checkInstalledPayload context operation = .ok () ∨
    checkInstalledPayload context operation = .error .blobNotFound := by
  unfold checkInstalledPayload
  split
  · unfold containsBlob
    rw [readBlobReferenceState_eq hsound]
    rename_i reference contentType mode hrequest
    cases context.store.source.blobs.references (.completeBlob reference) with
    | none => exact .inr rfl
    | some =>
      simp only [bind, Except.bind, pure, Except.pure, rejectIf]
      split
      · exact .inr rfl
      · exact .inl rfl
  · exact .inl rfl

/-- A publication misses its payload only if the operation brings no bytes. -/
theorem avoids_planPublication_of_put {bulk : BulkState} {released : Option BlobRef}
    (he : PayloadMissing e) (hput : e = .blobNotFound →
    ∃ payload contentType mode, operation.request = .put payload contentType mode) :
    Avoids e (planPublication context bulk operation released) := by
  unfold planPublication
  split
  · exact avoids_pure
  split
  · exact avoids_pure
  refine Avoids.bind ?_ fun _ _ => avoids_pure
  refine Avoids.bind ?_ fun found _ => ?_
  · unfold readPendingBlobReference
    split
    · exact avoids_pure
    · exact avoids_readBlobReferenceState he
  cases found with
  | some => exact avoids_advanceBlobReferencePublication he
  | none =>
    dsimp only
    split
    · exact avoids_pure
    rename_i hmaterialized
    refine avoids_error.mpr fun hmissing => ?_
    obtain ⟨payload, contentType, mode, hrequest⟩ := hput hmissing.symm
    exact hmaterialized payload contentType mode hrequest

/-- A clone that finds its source is not told that it has gone. -/
theorem avoids_evaluateOperation_clone {reading : Nat} {bulk : BulkState}
    (hsettings : ∀ identity, Avoids cloneSourceGone (context.settings identity))
    (hclone : checkCloneSource context operation = .ok ())
    (hsound : PayloadsSound context.store.source.blobs) :
    Avoids cloneSourceGone (evaluateOperation context operation reading bulk).2 := by
  have hgone : PayloadMissing cloneSourceGone := Or.inr rfl
  refine avoids_evaluateOperation hgone hsettings (avoids_of_eq_ok hclone) ?_ ?_ reading
  · rcases @checkInstalledPayload_cases _ _ hsound with hok | hmissing
    · exact avoids_of_eq_ok hok
    rw [hmissing]
    exact avoids_error.mpr (by simp [cloneSourceGone])
  exact fun _ _ _ => avoids_planPublication_of_put hgone fun hother => by
    simp [cloneSourceGone] at hother

/-- A put that finds its bytes is not told that they are missing. -/
theorem avoids_evaluateOperation_installed {reading : Nat} {bulk : BulkState}
    (hsettings : ∀ identity, Avoids .blobNotFound (context.settings identity))
    (hrequest : operation.request = .put (.installed reference) contentType mode)
    (hinstalled : checkInstalledPayload context operation = .ok ()) :
    Avoids .blobNotFound (evaluateOperation context operation reading bulk).2 :=
  avoids_evaluateOperation payloadMissing_blob hsettings avoids_checkCloneSource
    (avoids_of_eq_ok hinstalled)
    (fun _ _ _ => avoids_planPublication_of_put payloadMissing_blob fun _ =>
      ⟨_, _, _, hrequest⟩) reading

theorem evaluateOperation_cloneSourceGone {bulk : BulkState} {reading : Nat}
    (hfound : findReceipt context bulk operation = .ok none)
    (hclone : checkCloneSource context operation = .error e) :
    (evaluateOperation context operation reading bulk).2 = .error e := by
  have hadmitted : admitOperation context bulk operation = .error e := by
    simp only [admitOperation, hfound, hclone, bind, Except.bind]
  rw [evaluateOperation, hadmitted]

theorem evaluateOperation_notInstalled {bulk : BulkState} {current : CurrentObject}
    {versioning : ObjectVersioning} {reading : Nat} {ticked : VersionId × VersionClock}
    (hadmitted : admitOperation context bulk operation = .ok (.proceed current versioning))
    (hticked : bulk.clock.nextAt reading = .ok ticked)
    (hinstalled : checkInstalledPayload context operation = .error e) :
    (evaluateOperation context operation reading bulk).2 = .error e := by
  have hplan : ∀ clock, planOperation context { bulk with clock } operation current versioning
      ticked.1 = .error e := by
    intro _
    simp only [planOperation, hinstalled, bind, Except.bind]
  simp only [evaluateOperation, hadmitted, hticked, hplan]

theorem error_of_map_eq {x y : Except MutationError EvaluatedOperation}
    (h : (x.map fun evaluated => evaluated.receipt) = y.map fun evaluated => evaluated.receipt)
    (hx : x = .error e) : y = .error e := by
  subst hx
  cases y with
  | error =>
    cases h
    rfl
  | ok => cases h

/-- The same outcome in both executions shows that the checks agree. -/
theorem checksCurrent_of_outcome {bulk begun : BulkState} {surplus : BlobRef → Int} {reading : Nat}
    (h : Compared context bulk next begun) (hsound : BulkSound context surplus bulk)
    (hsettings : ∀ e, PayloadMissing e → ∀ identity, Avoids e (context.settings identity)) (hsame :
      ((evaluateOperation next operation reading begun).2.map fun evaluated =>
        evaluated.receipt) =
        (evaluateOperation context operation reading bulk).2.map fun evaluated =>
          evaluated.receipt) :
    ChecksCurrent context next begun operation reading := by
  have hnext : PayloadsSound next.store.source.blobs := by
    rw [h.follows.blobs_eq]
    exact hsound.payloads
  have hsettings' : ∀ e, PayloadMissing e → ∀ identity, Avoids e (next.settings identity) := by
    rw [h.follows.settings_eq]
    exact hsettings
  have hgone : PayloadMissing cloneSourceGone := Or.inr rfl
  constructor
  case clone =>
    intro hfound
    have hfound' := (findReceipt_follows h.layers h.follows h.fresh).symm.trans hfound
    rcases checkCloneSource_cases context operation with hok | hmissing
    · rcases checkCloneSource_cases next operation with hok' | hmissing'
      · rw [hok, hok']
      exact absurd (error_of_map_eq hsame (evaluateOperation_cloneSourceGone hfound hmissing'))
        (avoids_evaluateOperation_clone (hsettings _ hgone) hok h.stored)
    rcases checkCloneSource_cases next operation with hok' | hmissing'
    · exact absurd (error_of_map_eq hsame.symm (evaluateOperation_cloneSourceGone hfound'
        hmissing)) (avoids_evaluateOperation_clone (hsettings' _ hgone) hok' hnext)
    · rw [hmissing, hmissing']
  case installed =>
    intro _ _ _ hadmitted hticked
    by_cases hput : ∃ reference contentType mode,
      operation.request = .put (.installed reference) contentType mode
    · obtain ⟨_, _, _, hrequest⟩ := hput
      rcases @checkInstalledPayload_cases context operation h.stored with hok | hmissing
      · rcases @checkInstalledPayload_cases next operation hnext with hok' | hmissing'
        · rw [hok, hok']
        exact absurd (error_of_map_eq hsame
          (evaluateOperation_notInstalled hadmitted hticked hmissing'))
          (avoids_evaluateOperation_installed (hsettings _ payloadMissing_blob) hrequest hok)
      rcases @checkInstalledPayload_cases next operation hnext with hok' | hmissing'
      · have hadmission := @admitOperation_follows _ _ _ _ _ operation hsound h.layers h.follows
          h.fresh fun _ => by simp [checkCloneSource, hrequest]
        generalize hbatch : admitOperation context bulk operation = admitted at hadmission
        rw [hadmitted] at hadmission
        rw [h.visible.clock_eq] at hticked
        cases hadmission with
        | ok hagrees =>
          cases hagrees with
          | proceed =>
            exact absurd (error_of_map_eq hsame.symm (evaluateOperation_notInstalled hbatch
              hticked hmissing)) (avoids_evaluateOperation_installed (hsettings' _
              payloadMissing_blob) hrequest hok')
      · rw [hmissing, hmissing']
    · have hnone : ∀ other : BulkContext, checkInstalledPayload other operation = .ok () := by
        intro _
        unfold checkInstalledPayload
        split
        · rename_i reference contentType mode hrequest
          exact absurd ⟨reference, contentType, mode, hrequest⟩ hput
        · rfl
      rw [hnone, hnone]

end

variable {progress : BulkProgress}

/-- Every operation adds one outcome under its own index. -/
theorem evaluateNext_grows
    (entry : Nat × PreparedOperation × Nat) (hopen : progress.receiptCapacityAt = none) :
    (evaluateNext context false progress entry).receiptCapacityAt = none ∧
    (∃ more, (evaluateNext context false progress entry).changes = progress.changes ++ more) ∧
    ∃ outcome, (evaluateNext context false progress entry).results =
    progress.results ++ [(entry.1, outcome)] := by
  obtain ⟨_, operation, _⟩ := entry
  cases hreserved : requireUnreserved context.store operation with
  | error =>
    rw [evaluateNext_reserved hopen hreserved]
    exact ⟨hopen, ⟨[], (append_nil _).symm⟩, _, rfl⟩
  | ok =>
    rw [evaluateNext_eq hopen hreserved]
    exact ⟨rfl, ⟨_, rfl⟩, _, rfl⟩

theorem foldl_evaluateNext_grows
    (rest : List (Nat × PreparedOperation × Nat)) (hopen : progress.receiptCapacityAt = none) :
    (rest.foldl (evaluateNext context false) progress).receiptCapacityAt = none ∧
    (∃ more, (rest.foldl (evaluateNext context false) progress).changes =
    progress.changes ++ more) ∧
    ∃ outcomes, (rest.foldl (evaluateNext context false) progress).results =
    progress.results ++ outcomes ∧ outcomes.map Prod.fst = rest.map Prod.fst := by
  induction rest generalizing progress with
  | nil => exact ⟨hopen, ⟨[], (append_nil _).symm⟩, [], (append_nil _).symm, rfl⟩
  | cons entry _ ih =>
    obtain ⟨hopen', ⟨more, hmore⟩, outcome, houtcome⟩ :=
      @evaluateNext_grows _ _ _ hopen
    obtain ⟨hclosed, ⟨more', hmore'⟩, outcomes, houtcomes, hindexes⟩ := ih hopen'
    rw [foldl_cons]
    refine ⟨hclosed, ⟨more ++ more', ?_⟩, (entry.1, outcome) :: outcomes, ?_, ?_⟩
    · rw [hmore', hmore, append_assoc]
    · rw [houtcomes, houtcome, append_assoc]
      rfl
    · rw [map_cons, map_cons, hindexes]

variable {next : LocalStore} {entry : Nat × PreparedOperation × Nat}
  {rest : List (Nat × PreparedOperation × Nat)}

section

section

variable (codec : LocalChangeCodec) (config : NodeConfig)
  (settings : BucketIdentity → Except MutationError BucketSettings)
  (admission : SourceJournalAdmission) (now : Nat)

/-- The operations submitted one at a time, at one instant. -/
def inOrder (codec : LocalChangeCodec) (config : NodeConfig)
    (settings : BucketIdentity → Except MutationError BucketSettings)
    (admission : SourceJournalAdmission) (now : Nat) :
    List (Nat × PreparedOperation × Nat) → LocalStore →
      LocalStore × List (Nat × Except MutationError MutationReceipt)
  | [], store => (store, [])
  | entry :: rest, store =>
    let first := store.bulkWrite codec config settings none false admission now [entry]
    let later := inOrder codec config settings admission now rest first.1
    (later.1, first.2 ++ later.2)

/-- The journal admits the records of a bulk. -/
def RecordsAdmitted (prepared : List (Nat × PreparedOperation × Nat)) (store : LocalStore) : Prop :=
  ∀ receipts pruned,
    stageExpiredMutationReceipts config.receiptCodec now store.receipts = .ok (receipts, pruned) →
      ∃ written, store.persistBulk codec config admission
      (bulkProgress config settings now receipts pruned prepared store) = .ok written

/-- The journal admits the records of each operation submitted in its turn. -/
def EachAdmitted (prepared : List (Nat × PreparedOperation × Nat)) (store : LocalStore) : Prop :=
  ∀ earlier entry later, prepared = earlier ++ entry :: later →
    RecordsAdmitted codec config settings admission now [entry]
      (inOrder codec config settings admission now earlier store).1

variable {codec config settings admission now}

theorem EachAdmitted.tail {store : LocalStore}
    (h : EachAdmitted codec config settings admission now (first :: rest) store) :
    EachAdmitted codec config settings admission now rest
    (store.bulkWrite codec config settings none false admission now [first]).1 :=
  fun earlier entry later hsplit => h (first :: earlier) entry later (by rw [hsplit]; rfl)

end

/-- The checks of every operation that read the stored tables answer as on the
store that the operations before it leave, and the expired receipts go in one
pass. -/
structure Serial (codec : LocalChangeCodec) (config : NodeConfig)
    (settings : BucketIdentity → Except MutationError BucketSettings)
    (admission : SourceJournalAdmission) (now : Nat)
    (prepared : List (Nat × PreparedOperation × Nat)) (store : LocalStore) : Prop where
  idle : prepared = [] → NoneExpired now store.receipts
  expired : 2 ≤ prepared.length → ∀ receipts pruned,
      stageExpiredMutationReceipts config.receiptCodec now store.receipts = .ok (receipts, pruned) →
        NoneExpired now receipts
  checks : ∀ earlier entry later, prepared = earlier ++ entry :: later →
      ChecksAgree (bulkContext config settings now [] store)
        (inOrder codec config settings admission now earlier store).1 entry

variable {codec : LocalChangeCodec} {admission : SourceJournalAdmission} {config : NodeConfig}
  {settings : BucketIdentity → Except MutationError BucketSettings} {now : Nat}
  {store last : LocalStore} {prepared : List (Nat × PreparedOperation × Nat)}

/-- A batch whose continuation is written can be written. -/
theorem persistBulk_of_append {log : List LogEntry} {more : List PendingLocalChange}
    {whole : BulkProgress}
    (hnode : NodeSound codec config log store) (hchanges : whole.changes = progress.changes ++ more)
    (hlast : store.persistBulk codec config admission whole = .ok last) :
    ∃ next, store.persistBulk codec config admission progress = .ok next := by
  obtain ⟨_, hjournal, -⟩ := (persistBulk_iff hnode).mp hlast
  rw [hchanges] at hjournal
  obtain ⟨middle, hmiddle, -⟩ := stageLocalChanges_append hnode.logs hjournal
  exact ⟨_, (persistBulk_iff hnode).mpr ⟨middle, hmiddle, rfl⟩⟩

/-- A submission that is written has the outcome of the batch only if the checks
agree. -/
theorem Continues.checksAgree {surplus : BlobRef → Int} {log : List LogEntry}
    {outcome : Except MutationError MutationReceipt}
    (h : Continues codec admission context surplus progress next)
    (hnode : NodeSound codec context.config log context.store)
    (hsettings : ∀ e, PayloadMissing e → ∀ identity, Avoids e (context.settings identity))
    (hbatch : (evaluateNext context false progress entry).results =
    progress.results ++ [(entry.1, outcome)])
    (halone : (submitted context next entry).results = [(entry.1, outcome)]) :
    ChecksAgree context next entry := by
  obtain ⟨_, operation, _⟩ := entry
  intro hreserved
  have hreserve := requireUnreserved_later h hnode operation
  rw [evaluateNext_eq h.receiptCapacityAt_eq hreserved] at hbatch
  rw [submitted, evaluateNext_eq rfl (hreserve.trans hreserved)] at halone
  simp only [append_cancel_left_eq, cons.injEq, Prod.mk.injEq, true_and, and_true] at hbatch
  simp only [unevaluated, nil_append, cons.injEq, Prod.mk.injEq, true_and, and_true] at halone
  exact checksCurrent_of_outcome (h.compared hnode) h.sound.bulk hsettings
    (halone.trans hbatch.symm)

/-- The rest of a bulk is the in-order execution of its operations exactly if the
checks of each of them agree. -/
theorem Continues.inOrder_iff {surplus : BlobRef → Int} {log : List LogEntry}
    (rest : List (Nat × PreparedOperation × Nat))
    (h : Continues codec admission context surplus progress next)
    (hnode : NodeSound codec context.config log context.store)
    (hsurplus : surplus = fun blob => -deltaOf blob (pendingEffects context.config.store log
    context.store.source.journal))
    (hretention : 0 < context.config.receiptRetention.retentionMillis)
    (hintent : context.intent = none)
    (hsettings : ∀ e, PayloadMissing e → ∀ identity, Avoids e (context.settings identity))
    (hfits : ∀ entry ∈ rest, entry.2.1.FitsChunk)
    (hlast : context.store.persistBulk codec context.config admission
    (rest.foldl (evaluateNext context false) progress) = .ok last)
    (hadmitted :
      EachAdmitted codec context.config context.settings admission context.now rest next) :
    (∃ outcomes, (rest.foldl (evaluateNext context false) progress).results =
    progress.results ++ outcomes ∧
    inOrder codec context.config context.settings admission context.now rest next =
    (last, outcomes)) ↔
    ∀ earlier entry later, rest = earlier ++ entry :: later → ChecksAgree context
    (inOrder codec context.config context.settings admission context.now earlier next).1 entry := by
  induction rest generalizing progress next with
  | nil =>
    have hsame := h.written.symm.trans hlast
    rw [Except.ok.injEq] at hsame
    subst hsame
    exact iff_of_true ⟨[], (append_nil _).symm, rfl⟩ fun earlier entry later hnone => by
      simp at hnone
  | cons entry rest ih =>
    rw [foldl_cons] at hlast ⊢
    obtain ⟨hopen, -, outcome, houtcome⟩ :=
      @evaluateNext_grows _ _ _ h.receiptCapacityAt_eq
    obtain ⟨-, ⟨_, hmore⟩, outcomes, houtcomes, -⟩ :=
      @foldl_evaluateNext_grows _ _ _ hopen
    obtain ⟨middle, hmiddle⟩ := persistBulk_of_append hnode hmore hlast
    have hpositive : ∀ blob, 0 ≤ surplus blob := by
      rw [hsurplus]
      exact deltaOf_pending_nonpos hnode
    have hstep := h.grow hpositive hretention hintent entry (hfits entry mem_cons_self) hmiddle
    -- an agreeing first operation leaves the store the batch would leave
    have hfirst : ChecksAgree context next entry →
        next.bulkWrite codec context.config context.settings none false admission context.now
          [entry] = (middle, [(entry.1, outcome)]) := by
      intro hchecks
      obtain ⟨hpersist, hresults⟩ := h.submitted_eq hnode hsurplus entry hchecks hmiddle
      rw [houtcome, append_cancel_left_eq] at hresults
      rw [h.bulkWrite_eq hintent entry hpersist, ← hresults]
    have hrest : ChecksAgree context next entry → ((∃ outcomes, (rest.foldl (evaluateNext context
      false) (evaluateNext context false progress entry)).results = (evaluateNext context false
      progress entry).results ++ outcomes ∧ inOrder codec context.config context.settings admission
      context.now rest middle = (last, outcomes)) ↔ ∀ earlier later' later, rest = earlier ++ later'
      :: later → ChecksAgree context (inOrder codec context.config context.settings admission
      context.now (entry :: earlier) next).1 later') := by
      intro hchecks
      simp only [inOrder, hfirst hchecks]
      refine ih hstep (fun other hother => hfits other (mem_cons_of_mem _ hother)) hlast ?_
      simpa only [hfirst hchecks] using hadmitted.tail
    constructor
    · rintro ⟨all, hall, hserial⟩
      have hsplit : all = (entry.1, outcome) :: outcomes := by
        rw [houtcomes, houtcome, append_assoc, append_cancel_left_eq] at hall
        exact hall.symm
      obtain ⟨written, hwritten⟩ := hadmitted [] entry rest rfl _ _ h.stageExpired_eq
      rw [inOrder, ← submitted_eq_bulkProgress hintent] at hwritten
      obtain ⟨-, -, alone, halone⟩ := @evaluateNext_grows (laterContext context next)
          (unevaluated (next.beginBulk next.receipts)) entry rfl
      have hsubmitted : (submitted context next entry).results = [(entry.1, alone)] := halone
      have hwrite := h.bulkWrite_eq hintent entry hwritten
      simp only [inOrder, hwrite, hsubmitted, hsplit, cons_append, nil_append,
        Prod.mk.injEq, cons.injEq, true_and] at hserial
      obtain ⟨hlater, rfl, htail⟩ := hserial
      have hchecks := h.checksAgree hnode hsettings houtcome hsubmitted
      have hmiddle_eq : written = middle := by
        have hboth := hwrite.symm.trans (hfirst hchecks)
        exact congrArg Prod.fst hboth
      rw [hmiddle_eq] at hlater htail
      have hagrees := (hrest hchecks).mp ⟨outcomes, houtcomes, Prod.ext hlater htail⟩
      intro earlier other later hother
      cases earlier with
      | nil =>
        obtain ⟨rfl, rfl⟩ := cons.inj hother
        exact hchecks
      | cons _ earlier =>
        obtain ⟨rfl, hbehind⟩ := cons.inj hother
        exact hagrees earlier other later hbehind
    · intro hchecks
      have hagrees := hchecks [] entry rest rfl
      obtain ⟨tail, htail, hserial⟩ := (hrest hagrees).mpr fun earlier other later hsplit =>
        hchecks (entry :: earlier) other later (by rw [hsplit]; rfl)
      refine ⟨(entry.1, outcome) :: tail, ?_, ?_⟩
      · rw [htail, houtcome, append_assoc]
        rfl
      simp only [inOrder, hfirst hagrees, hserial]
      rfl

section

variable {key : Nat} {stored : StoredReceipt}

/-- There is no expired receipt under the key. -/
def Unexpired (now key : Nat) (tables : ReceiptTables) : Prop :=
  ∀ stored, tables.receipts.get? key = some stored → now < stored.expiresAtUnixMillis

theorem unexpired_foldl (rest : List (Nat × PreparedOperation × Nat))
    (hretention : 0 < context.config.receiptRetention.retentionMillis)
    (h : ReceiptProgress context progress.bulk)
    (hkey : Unexpired context.now key progress.bulk.receipts) :
    Unexpired context.now key (rest.foldl (evaluateNext context false) progress).bulk.receipts := by
  induction rest generalizing progress with
  | nil => exact hkey
  | cons entry _ ih =>
    refine ih (receiptProgress_evaluateNext entry h) ?_
    rcases evaluateNext_bulk context false progress entry with hsame | hnext
    · rw [hsame]
      exact hkey
    rw [hnext]
    intro found hfound
    rcases (addsReceipt_evaluateOperation entry.2.2).get? h.sound h.through key with
      hkept | ⟨-, _, _, hadded⟩
    · rw [hkept] at hfound
      exact hkey found hfound
    rw [hadded, Option.some.injEq] at hfound
    rw [← hfound]
    change context.now < context.now + _
    omega

variable (hretention : 0 < config.receiptRetention.retentionMillis)
  (hsound : ReceiptsSound config.receiptCodec store.receipts)

include hretention hsound

theorem unexpired_bulkWrite
    (hkey : ∀ receipts pruned, stageExpiredMutationReceipts config.receiptCodec now store.receipts =
    .ok (receipts, pruned) → Unexpired now key receipts)
    (hadmitted : RecordsAdmitted codec config settings admission now prepared store) :
    Unexpired now key
    (store.bulkWrite codec config settings none false admission now prepared).1.receipts := by
  obtain ⟨receipts, pruned, hexpired, hpassed, -⟩ := expires_stageExpired _ hsound
  obtain ⟨_, hwritten⟩ := hadmitted receipts pruned hexpired
  rw [bulkWrite_of_persist hexpired hwritten, persistBulk_receipts hwritten]
  have hbegun := @receiptProgress_beginBulk (bulkContext config settings now pruned store)
    receipts hpassed hexpired
  exact @unexpired_foldl (bulkContext config settings now pruned store) (unevaluated
    (store.beginBulk receipts)) key prepared hretention hbegun (hkey receipts pruned hexpired)

/-- Expired receipts do not come back. -/
theorem unexpired_inOrder (hkey : Unexpired now key store.receipts)
    (hadmitted : EachAdmitted codec config settings admission now prepared store) :
    Unexpired now key (inOrder codec config settings admission now prepared store).1.receipts := by
  induction prepared generalizing store with
  | nil => exact hkey
  | cons entry rest ih =>
    refine ih (receiptMove_bulkWrite hsound).sound ?_ hadmitted.tail
    refine unexpired_bulkWrite hretention hsound ?_ (hadmitted [] entry rest rfl)
    intro _ _ hexpired found hfound
    obtain ⟨_, _, hexpired', -, hpass⟩ := expires_stageExpired _ hsound
    rw [hexpired, Except.ok.injEq, Prod.mk.injEq] at hexpired'
    obtain ⟨rfl, -⟩ := hexpired'
    exact hkey found (hpass.old key found hfound)

end

section

variable {receipts : ReceiptTables} {pruned : List Nat}

/-- The staged values of a batch that has not begun. -/
theorem layered_beginBulk (hsound : ReceiptsSound config.receiptCodec receipts)
    (hexpired : stageExpiredMutationReceipts config.receiptCodec now store.receipts =
      .ok (receipts, pruned))
    (hnone : NoneExpired now receipts) :
    Layered (bulkContext config settings now pruned store) (store.beginBulk receipts) where
  versions := fun _ _ _ hpending => by cases hpending
  receipts := (@receiptProgress_beginBulk (bulkContext config settings now pruned store) receipts
    hsound hexpired).through
  unexpired := hsound.noneExpired_iff.mp hnone
  manifests := fun _ _ => rfl
  inlined := fun _ hmem => by cases hmem
  recorded := fun _ hsome => .inl hsome

/-- The first operation of a bulk is evaluated as if it were alone. -/
theorem checksAgree_first (store : LocalStore) (entry : Nat × PreparedOperation × Nat) :
    ChecksAgree (bulkContext config settings now [] store) store entry :=
  fun _ => ⟨fun _ => rfl, fun _ _ _ _ _ => rfl⟩

/-- The checks do not read the expired receipts. -/
theorem checksAgree_pruned : ChecksAgree (bulkContext config settings now pruned store) next entry ↔
    ChecksAgree (bulkContext config settings now [] store) next entry := by
  constructor
  all_goals
    intro h hreserved
    obtain ⟨hclone, hinstalled⟩ := h hreserved
    exact ⟨hclone, hinstalled⟩

section

variable (hexpired : stageExpiredMutationReceipts config.receiptCodec now store.receipts =
    .ok (receipts, pruned))

include hexpired

theorem bulkWrite_nil_iff {log : List LogEntry}
    (hnode : NodeSound codec config log store)
    (hreceipts : ReceiptsSound config.receiptCodec store.receipts)
    (hlast : store.persistBulk codec config admission
    (bulkProgress config settings now receipts pruned [] store) = .ok last) :
    last = store ↔ NoneExpired now store.receipts := by
  constructor
  · intro hsame
    by_contra hdue
    obtain ⟨key, _, hstored, -, hgone⟩ := stageExpired_removes hreceipts hdue hexpired
    have htables := persistBulk_receipts hlast
    rw [hsame] at htables
    rw [htables] at hstored
    change receipts.receipts.get? key = _ at hstored
    rw [hgone] at hstored
    cases hstored
  intro hnone
  have hpass := @stageExpiredMutationReceipts_eq config.receiptCodec now store.receipts
    (hreceipts.noneExpired_iff.mp hnone)
  rw [hexpired, Except.ok.injEq, Prod.mk.injEq] at hpass
  obtain ⟨journal, hjournal, rfl⟩ := (persistBulk_iff hnode).mp hlast
  have hsame : journal = store.source.journal := by
    rcases stageLocalChanges_eq_ok hjournal with ⟨-, rfl⟩ | ⟨hsome, -⟩
    · rfl
    · exact absurd rfl hsome
  rw [hsame, hpass.1]
  rfl

/-- An expired receipt that one pass leaves makes the two executions differ. -/
theorem noneExpired_of_serial (hretention : 0 < config.receiptRetention.retentionMillis)
    (hreceipts : ReceiptsSound config.receiptCodec store.receipts)
    (hfirst : RecordsAdmitted codec config settings admission now [first] store)
    (hlast : store.persistBulk codec config admission
    (bulkProgress config settings now receipts pruned (first :: second :: rest) store) = .ok last)
    (hadmitted : EachAdmitted codec config settings admission now (second :: rest)
    (store.bulkWrite codec config settings none false admission now [first]).1)
    (hserial : (inOrder codec config settings admission now (second :: rest)
    (store.bulkWrite codec config settings none false admission now [first]).1).1 = last) :
    NoneExpired now receipts := by
  by_contra hdue
  obtain ⟨written, hwritten⟩ := hfirst receipts pruned hexpired
  have hpassed : ReceiptsSound config.receiptCodec receipts := by
    obtain ⟨_, _, hexpired', hpassed, -⟩ := expires_stageExpired _ hreceipts
    rw [hexpired, Except.ok.injEq, Prod.mk.injEq] at hexpired'
    rw [hexpired'.1]
    exact hpassed
  have hbegun := @receiptProgress_beginBulk (bulkContext config settings now pruned store)
    receipts hpassed hexpired
  have hone := @receiptProgress_foldl (bulkContext config settings now pruned store)
    (unevaluated (store.beginBulk receipts)) false [first] hbegun
  rw [bulkWrite_of_persist hexpired hwritten] at hadmitted hserial
  have htables := persistBulk_receipts hwritten
  have hsound : ReceiptsSound config.receiptCodec written.receipts := by
    rw [htables]
    exact hone.sound
  have hleft : ¬ NoneExpired now written.receipts := by
    intro hnone
    refine hdue fun key stored hstored => hnone key stored ?_
    rw [htables]
    exact (@receiptMove_foldl _ _ false (fun _ => True) [first] hbegun).kept key stored hstored
      trivial
  obtain ⟨_, _, hexpired', -, -⟩ := expires_stageExpired _ hsound
  obtain ⟨key, stored, hstored, _, hgone⟩ := stageExpired_removes hsound hleft hexpired'
  have hunexpired : Unexpired now key last.receipts := by
    rw [← hserial, inOrder]
    refine unexpired_inOrder hretention (receiptMove_bulkWrite hsound).sound ?_ hadmitted.tail
    refine unexpired_bulkWrite hretention hsound ?_ (hadmitted [] second rest rfl)
    intro _ _ htables _ hfound
    rw [hexpired', Except.ok.injEq, Prod.mk.injEq] at htables
    rw [← htables.1, hgone] at hfound
    cases hfound
  rw [htables] at hstored
  have hkept := (@receiptMove_foldl _ _ false (fun _ => True) (second :: rest) hone).kept key
    stored hstored trivial
  have hlate := hunexpired stored (by rw [persistBulk_receipts hlast]; exact hkept)
  omega

/-- With nothing left to expire only the checks decide. -/
theorem bulkWrite_cons_iff {log : List LogEntry}
    (hnode : NodeSound codec config log store)
    (hpassed : ReceiptsSound config.receiptCodec receipts)
    (hretention : 0 < config.receiptRetention.retentionMillis)
    (hsettings : ∀ e, PayloadMissing e → ∀ identity, Avoids e (settings identity))
    (hfits : ∀ entry ∈ first :: rest, entry.2.1.FitsChunk)
    (hnone : NoneExpired now receipts) (hlast : store.persistBulk codec config admission
    (bulkProgress config settings now receipts pruned (first :: rest) store) = .ok last)
    (hadmitted : EachAdmitted codec config settings admission now rest
    (store.bulkWrite codec config settings none false admission now [first]).1) :
    (last, (bulkProgress config settings now receipts pruned (first :: rest) store).results) =
    inOrder codec config settings admission now (first :: rest) store ↔
    ∀ earlier entry later, first :: rest = earlier ++ entry :: later →
    ChecksAgree (bulkContext config settings now [] store)
    (inOrder codec config settings admission now earlier store).1 entry := by
  have hlayers := @layered_beginBulk config settings now store _ _ hpassed hexpired hnone
  have hsound := @progressSound_beginBulk codec config log store
    (bulkContext config settings now pruned store) hnode receipts rfl
  have hpositive := deltaOf_pending_nonpos hnode
  obtain ⟨-, ⟨_, hmore⟩, -⟩ := @foldl_evaluateNext_grows
    (bulkContext config settings now pruned store) (unevaluated (store.beginBulk receipts))
    (first :: rest) rfl
  obtain ⟨begun, hbegun⟩ := persistBulk_of_append hnode hmore hlast
  have hcontinues : Continues codec admission (bulkContext config settings now pruned store) _
      (unevaluated (store.beginBulk receipts)) begun :=
    ⟨hsound, hlayers, fun version hversion => absurd hversion (by simp [unevaluated]), rfl, hbegun⟩
  -- the store after the first operation, in both executions
  obtain ⟨hopen, -, outcome, houtcome⟩ := @evaluateNext_grows
    (bulkContext config settings now pruned store) (unevaluated (store.beginBulk receipts)) first
    rfl
  obtain ⟨-, ⟨_, hmore'⟩, -⟩ := @foldl_evaluateNext_grows
    (bulkContext config settings now pruned store) _ rest hopen
  obtain ⟨middle, hmiddle⟩ := persistBulk_of_append hnode hmore' hlast
  have hfirst : store.bulkWrite codec config settings none false admission now [first] =
      (middle, [(first.1, outcome)]) := by
    rw [bulkWrite_of_persist hexpired hmiddle]
    exact Prod.ext rfl houtcome
  have hstep := hcontinues.grow hpositive hretention rfl first (hfits first mem_cons_self) hmiddle
  rw [hfirst] at hadmitted
  have hiff := hstep.inOrder_iff rest hnode rfl hretention rfl hsettings
    (fun entry hentry => hfits entry (mem_cons_of_mem _ hentry)) hlast hadmitted
  rw [houtcome] at hiff
  constructor
  · intro hsame earlier entry later hsplit
    cases earlier with
    | nil => exact checksAgree_first store entry
    | cons _ earlier =>
      obtain ⟨rfl, hbehind⟩ := cons.inj hsplit
      simp only [inOrder, hfirst, Prod.mk.injEq] at hsame ⊢
      exact checksAgree_pruned.mp
        (hiff.mp ⟨_, hsame.2, Prod.ext hsame.1.symm rfl⟩ earlier entry later hbehind)
  intro hchecks
  obtain ⟨_, houtcomes, hserial⟩ := hiff.mpr fun earlier entry later hsplit => by
    have hagrees := hchecks (first :: earlier) entry later (by rw [hsplit]; rfl)
    simp only [inOrder, hfirst] at hagrees
    exact checksAgree_pruned.mpr hagrees
  simp only [inOrder, hfirst]
  have hserial' := hserial
  change inOrder codec config settings admission now rest middle = _ at hserial'
  rw [hserial']
  exact Prod.ext rfl houtcomes

end

/-- The bulk is the in-order execution of its operations exactly if it is serial. -/
theorem bulkWrite_eq_inOrder_iff {log : List LogEntry}
    (hnode : NodeSound codec config log store)
    (hreceipts : ReceiptsSound config.receiptCodec store.receipts)
    (hretention : 0 < config.receiptRetention.retentionMillis)
    (hsettings : ∀ e, PayloadMissing e → ∀ identity, Avoids e (settings identity))
    (hfits : ∀ entry ∈ prepared, entry.2.1.FitsChunk)
    (hbulk : RecordsAdmitted codec config settings admission now prepared store)
    (hadmitted : EachAdmitted codec config settings admission now prepared store) :
    store.bulkWrite codec config settings none false admission now prepared =
    inOrder codec config settings admission now prepared store ↔
    Serial codec config settings admission now prepared store := by
  obtain ⟨receipts, pruned, hexpired, hpassed, -⟩ := expires_stageExpired _ hreceipts
  obtain ⟨_, hlast⟩ := hbulk receipts pruned hexpired
  rw [bulkWrite_of_persist hexpired hlast]
  match prepared with
  | [] =>
    have hnil := bulkWrite_nil_iff hexpired hnode hreceipts hlast
    rw [inOrder, Prod.mk.injEq]
    constructor
    · rintro ⟨hsame, -⟩
      exact ⟨fun _ => hnil.mp hsame, fun hlong => by simp at hlong,
        fun earlier entry later hnone => by simp at hnone⟩
    intro hserial
    exact ⟨hnil.mpr (hserial.idle rfl), rfl⟩
  | [first] =>
    rw [inOrder, inOrder, bulkWrite_of_persist hexpired hlast, append_nil]
    refine iff_of_true rfl ⟨fun hnone => absurd hnone (by simp),
      fun hlong => absurd hlong (by simp), ?_⟩
    intro earlier entry _ hsplit
    cases earlier with
    | nil => exact checksAgree_first store entry
    | cons => simp at hsplit
  | first :: second :: rest =>
    by_cases hnone : NoneExpired now receipts
    · have hiff := bulkWrite_cons_iff hexpired hnode hpassed hretention hsettings hfits hnone
        hlast hadmitted.tail
      constructor
      · intro hsame
        refine ⟨fun hempty => absurd hempty (by simp), fun _ tables removed hpass => ?_,
          hiff.mp hsame⟩
        rw [hexpired, Except.ok.injEq, Prod.mk.injEq] at hpass
        rw [← hpass.1]
        exact hnone
      · exact fun hserial => hiff.mpr hserial.checks
    · refine iff_of_false ?_ ?_
      · intro hsame
        exact hnone (noneExpired_of_serial hexpired hretention hreceipts
          (hadmitted [] first _ rfl) hlast hadmitted.tail (congrArg Prod.fst hsame).symm)
      intro hserial
      exact hnone (hserial.expired (by simp) receipts pruned hexpired)

end

/-- An operation reported as an error leaves the batch as it was, except for the
clock. -/
def ErrorsAddNothing
    (config : NodeConfig) (settings : BucketIdentity → Except MutationError BucketSettings)
    (now : Nat) (prepared : List (Nat × PreparedOperation × Nat)) (store : LocalStore) : Prop :=
  ∀ receipts pruned earlier entry later error,
    stageExpiredMutationReceipts config.receiptCodec now store.receipts = .ok (receipts, pruned) →
      prepared = earlier ++ entry :: later →
        (bulkProgress config settings now receipts pruned (earlier ++ [entry]) store).results =
          (bulkProgress config settings now receipts pruned earlier store).results ++
            [(entry.1, .error error)] →
          ∃ clock, bulkProgress config settings now receipts pruned (earlier ++ [entry]) store =
            { bulkProgress config settings now receipts pruned earlier store with
              bulk :=
                { (bulkProgress config settings now receipts pruned earlier store).bulk with clock }
              results :=
                (bulkProgress config settings now receipts pruned earlier store).results ++
                  [(entry.1, .error error)] }

theorem errorsAddNothing {log : List LogEntry}
    (hnode : NodeSound codec config log store) (hfits : ∀ entry ∈ prepared, entry.2.1.FitsChunk) :
    ErrorsAddNothing config settings now prepared store := by
  intro receipts pruned earlier entry _ error _ hsplit hresult
  have hpositive := deltaOf_pending_nonpos hnode
  have hsound : ProgressSound (bulkContext config settings now pruned store) _
      (bulkProgress config settings now receipts pruned earlier store) :=
    progressSound_foldl earlier hpositive (progressSound_beginBulk hnode receipts rfl)
  obtain ⟨hopen, -, -⟩ := @foldl_evaluateNext_grows (bulkContext config settings now pruned store)
    (unevaluated (store.beginBulk receipts)) earlier rfl
  have hnext : bulkProgress config settings now receipts pruned (earlier ++ [entry]) store =
      evaluateNext (bulkContext config settings now pruned store) false
        (bulkProgress config settings now receipts pruned earlier store) entry := by
    simp [bulkProgress]
  rw [hnext] at hresult ⊢
  change (bulkProgress config settings now receipts pruned earlier store).receiptCapacityAt = none
    at hopen
  generalize bulkProgress config settings now receipts pruned earlier store = progress
    at hresult hsound hopen ⊢
  have hentry : entry.2.1.FitsChunk := hfits entry (by rw [hsplit]; simp)
  obtain ⟨_, operation, _⟩ := entry
  cases hreserved : requireUnreserved store operation with
  | error =>
    rw [evaluateNext_reserved hopen hreserved] at hresult ⊢
    simp only [append_cancel_left_eq, cons.injEq, Prod.mk.injEq, Except.error.injEq,
      true_and, and_true] at hresult
    subst hresult
    exact ⟨_, rfl⟩
  | ok =>
    rw [evaluateNext_eq hopen hreserved] at hresult ⊢
    simp only [append_cancel_left_eq, cons.injEq, Prod.mk.injEq, true_and, and_true] at hresult
    have hfailed := @error_of_map_eq _ (.error error) _ hresult.symm rfl
    obtain ⟨clock, hclock⟩ := failed_evaluateOperation hsound.bulk hpositive rfl hentry hfailed
    refine ⟨clock, ?_⟩
    rw [hclock, hfailed]
    simp only [addedChanges, addedVersion, raised, append_nil, hopen]
    rfl

/--
From every reachable state every operation of a bulk gets one outcome, one
reported as an error adds nothing to the batch, and if the journal admits the
records the bulk is the in-order execution of its operations exactly if it is
serial.
-/
theorem bulkWrite_runs_in_order (codec : LocalChangeCodec) (config : NodeConfig)
    (settings : BucketIdentity → Except MutationError BucketSettings)
    (admission : SourceJournalAdmission) (now : Nat)
    (prepared : List (Nat × PreparedOperation × Nat)) (nodeId : Nat) (actions : List LocalAction)
    (hretention : 0 < config.receiptRetention.retentionMillis)
    (hsettings : ∀ e, PayloadMissing e → ∀ identity, Avoids e (settings identity))
    (hfits : ∀ entry ∈ prepared, entry.2.1.FitsChunk)
    (hbulk : RecordsAdmitted codec config settings admission now prepared
    (run codec config nodeId actions))
    (hadmitted : ∀ earlier entry later, prepared = earlier ++ entry :: later →
    RecordsAdmitted codec config settings admission now [entry]
    (inOrder codec config settings admission now earlier (run codec config nodeId actions)).1) :
    ((run codec config nodeId actions).bulkWrite codec config settings none false admission now
    prepared).2.map Prod.fst = prepared.map Prod.fst ∧
    ErrorsAddNothing config settings now prepared (run codec config nodeId actions) ∧
    ((run codec config nodeId actions).bulkWrite codec config settings none false admission now
    prepared =
    inOrder codec config settings admission now prepared (run codec config nodeId actions) ↔
    Serial codec config settings admission now prepared (run codec config nodeId actions)) := by
  obtain ⟨_, hnode⟩ := nodeSound_run codec config nodeId actions
  have hreceipts := @receiptsSound_run codec config nodeId actions
  refine ⟨?_, errorsAddNothing hnode hfits,
    bulkWrite_eq_inOrder_iff hnode hreceipts hretention hsettings hfits hbulk hadmitted⟩
  obtain ⟨receipts, pruned, hexpired, -, -⟩ := expires_stageExpired now hreceipts
  obtain ⟨_, hlast⟩ := hbulk receipts pruned hexpired
  rw [bulkWrite_of_persist hexpired hlast]
  obtain ⟨-, -, _, houtcomes, hindexes⟩ := @foldl_evaluateNext_grows
    (bulkContext config settings now pruned (run codec config nodeId actions))
    (unevaluated ((run codec config nodeId actions).beginBulk receipts)) prepared rfl
  rw [← hindexes]
  exact congrArg (map Prod.fst) houtcomes

/-- The record of a put of the revision over the report. -/
def revisionPut (offset : Nat) (version : VersionId) : LocalChange :=
  PendingLocalChange.atOffset offset
    (.objectHead sampleBucket "a" version false none [{ blob := sampleRevision, change := 1 }] (some
      { previousLiveLength := some 3, currentLiveLength := some 4, logicalBytesRemoved := 3 })
      none)

/-- The report is put and at once replaced. -/
def replacedReport : List (Nat × PreparedOperation × Nat) :=
  [(0, sampleOperation "a" (.put (.inline sampleReport) none .put), customEpochMillis + 1),
    (1, sampleOperation "a" (.put (.inline sampleRevision) none .put), customEpochMillis + 1)]

def replacedCodec : LocalChangeCodec := tableCodec [reportPut 1 4198400, revisionPut 2 4198401]

/-- A put of inline bytes meets neither of the checks. -/
theorem checksAgree_of_inline
    (hrequest : entry.2.1.request = .put (.inline reference) contentType mode) :
    ChecksAgree context next entry := by
  intro _
  constructor
  · intro _
    simp only [checkCloneSource, hrequest]
  intro _ _ _ _ _
  simp only [checkInstalledPayload, hrequest]

theorem recordsAdmitted_of_toBool
    (h : (stageExpiredMutationReceipts config.receiptCodec now store.receipts >>= fun pass =>
      store.persistBulk codec config admission
        (bulkProgress config settings now pass.1 pass.2 prepared store)).toBool = true) :
    RecordsAdmitted codec config settings admission now prepared store := by
  intro receipts pruned hexpired
  rw [hexpired] at h
  change (store.persistBulk codec config admission
    (bulkProgress config settings now receipts pruned prepared store)).toBool = true at h
  cases hwritten : store.persistBulk codec config admission
    (bulkProgress config settings now receipts pruned prepared store) with
  | error _ =>
    rw [hwritten] at h
    cases h
  | ok written => exact ⟨written, rfl⟩

/-- The bulk leaves what the two puts leave one after the other. -/
theorem replaced_in_order :
    (LocalStore.initial 1).bulkWrite replacedCodec sampleConfig (sampleSettings .unversioned)
    none false .bounded (customEpochMillis + 1) replacedReport =
    inOrder replacedCodec sampleConfig (sampleSettings .unversioned) .bounded
    (customEpochMillis + 1) replacedReport (LocalStore.initial 1) := by
  have hserial : Serial replacedCodec sampleConfig (sampleSettings .unversioned) .bounded
      (customEpochMillis + 1) replacedReport (LocalStore.initial 1) := by
    refine ⟨fun hempty => absurd hempty (by simp [replacedReport]), ?_, ?_⟩
    · intro _ _ _ hexpired _ _ hstored
      cases hexpired
      cases hstored
    intro _ entry _ hsplit
    have hentry : entry ∈ replacedReport := by
      rw [hsplit]
      simp
    rcases mem_pair.mp hentry with rfl | rfl
    · exact checksAgree_of_inline rfl
    · exact checksAgree_of_inline rfl
  refine (bulkWrite_runs_in_order replacedCodec sampleConfig (sampleSettings .unversioned) .bounded
    (customEpochMillis + 1) replacedReport 1 [] (by decide) ?_ ?_ ?_ ?_).2.2.mpr hserial
  · intro e _ _
    exact avoids_ok
  · intro _ hentry
    rcases mem_pair.mp hentry with rfl | rfl
    · change 3 ≤ payloadArtifactChunkBytes
      decide
    change 4 ≤ payloadArtifactChunkBytes
    decide
  · exact recordsAdmitted_of_toBool (by decide +kernel)
  intro earlier _ _ hsplit
  match earlier with
  | [] =>
    obtain ⟨rfl, -⟩ := cons.inj hsplit
    exact recordsAdmitted_of_toBool (by decide +kernel)
  | [first] =>
    obtain ⟨rfl, hrest⟩ := cons.inj hsplit
    obtain ⟨rfl, -⟩ := cons.inj hrest
    exact recordsAdmitted_of_toBool (by decide +kernel)
  | first :: second :: rest => simp [replacedReport] at hsplit

/-- A clone of the report out of the version that the put before it replaces. -/
def clonedReport : List (Nat × PreparedOperation × Nat) :=
  [(0, sampleOperation "a" (.put (.inline sampleRevision) none .put), customEpochMillis + 2),
    (1, sampleOperation "b" (.clone "a" 4198400 sampleReport none .put), customEpochMillis + 2)]

def clonedCodec : LocalChangeCodec := tableCodec
    [reportPut 1 4198400, revisionPut 2 8392704, PendingLocalChange.atOffset 3
      (.objectHead sampleBucket "b" 8392705 false none [{ blob := sampleReport, change := 1 }] (some
          { previousLiveLength := none, currentLiveLength := some 3, logicalBytesRemoved := 0 })
        none)]

/--
In the bulk the clone finds the version that the put before it has replaced;
submitted after the put it does not.
-/
theorem bulk_clones_replaced_version : (((run clonedCodec sampleConfig 1 [sampleWrite .unversioned 1
      (sampleOperation "a" (.put (.inline sampleReport) none .put))]).bulkWrite
        clonedCodec sampleConfig (sampleSettings .unversioned) none false .bounded
        (customEpochMillis + 2) clonedReport).2.map fun outcome =>
          (outcome.1, outcome.2.map fun receipt => receipt.version)) =
    [(0, .ok 8392704), (1, .ok 8392705)] ∧
      ((inOrder clonedCodec sampleConfig (sampleSettings .unversioned) .bounded
        (customEpochMillis + 2) clonedReport
        (run clonedCodec sampleConfig 1 [sampleWrite .unversioned 1
          (sampleOperation "a" (.put (.inline sampleReport) none .put))])).2.map
        fun outcome => (outcome.1, outcome.2.map fun receipt => receipt.version)) =
    [(0, .ok 8392704), (1, .error cloneSourceGone)] := by
  constructor <;> decide +kernel

end

end Keldra.LocalNode
