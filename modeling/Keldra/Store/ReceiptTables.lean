import Keldra.Store.BulkEvaluation

/-!
# The receipt tables over a write

Every receipt has one expiry index and the counters count the receipts, so an
expiry pass never fails.  It removes expired receipts only, and at least one of
them if there is one.  A mutation adds its own receipt at most, and only when
the command has none.
-/

namespace Keldra.Store

open Foundation OrdMap List

variable {codec : ReceiptCodec} {now prunedBytes key : Nat} {index : Nat ×ₗ Nat} {pruned : List Nat}
  {stored : StoredReceipt}

section

/-- Receipts, expiry indexes and counters agree. -/
structure ReceiptsSound (codec : ReceiptCodec) (tables : ReceiptTables) : Prop where
  indexed : ∀ index, index ∈ tables.expiries.keys ↔
      ∃ stored, tables.receipts.get? (ofLex index).2 = some stored ∧
        stored.expiresAtUnixMillis = (ofLex index).1
  entries_eq : tables.entries = (tables.receipts.entries.map fun _ => 1).sum
  bytes_eq : tables.bytes =
      (tables.receipts.entries.map fun entry => mutationReceiptLogicalBytes codec entry.2).sum

/-- No receipt is due. -/
def NoneExpired (now : Nat) (tables : ReceiptTables) : Prop :=
  ∀ key stored, tables.receipts.get? key = some stored → now < stored.expiresAtUnixMillis

/-- An expiry pass removes receipts, and no receipt before its time. -/
structure Expires (now : Nat) (tables tables' : ReceiptTables) : Prop where
  old : ∀ key stored, tables'.receipts.get? key = some stored →
    tables.receipts.get? key = some stored
  kept : ∀ key stored, tables.receipts.get? key = some stored →
    now < stored.expiresAtUnixMillis → tables'.receipts.get? key = some stored

variable {tables tables' : ReceiptTables}

theorem receiptsSound_initial : ReceiptsSound codec .initial := by
  constructor
  case indexed =>
    simp [ReceiptTables.initial, mem_keys_iff]
  case entries_eq => rfl
  case bytes_eq => rfl

theorem Expires.refl : Expires now tables tables := ⟨fun _ _ h => h, fun _ _ h _ => h⟩

theorem Expires.trans {tables'' : ReceiptTables}
    (h : Expires now tables tables') (h' : Expires now tables' tables'') :
    Expires now tables tables'' where
  old := fun key stored hget => h.old key stored (h'.old key stored hget)
  kept := fun key stored hget hdue => h'.kept key stored (h.kept key stored hget hdue) hdue

/-- Two indexes of one receipt are the same. -/
theorem ReceiptsSound.index_inj {index' : Lex (Nat × Nat)}
    (h : ReceiptsSound codec tables)
    (hmem : index ∈ tables.expiries.keys) (hmem' : index' ∈ tables.expiries.keys)
    (hkey : (ofLex index).2 = (ofLex index').2) : index = index' := by
  obtain ⟨_, hstored, hexpires⟩ := (h.indexed index).mp hmem
  obtain ⟨_, hstored', hexpires'⟩ := (h.indexed index').mp hmem'
  rw [hkey, hstored', Option.some.injEq] at hstored
  subst hstored
  exact ofLex_inj.mp (Prod.ext (hexpires.symm.trans hexpires') hkey)

theorem ReceiptsSound.noneExpired_iff (h : ReceiptsSound codec tables) :
    NoneExpired now tables ↔ ∀ index ∈ tables.expiries.keys, now < (ofLex index).1 := by
  constructor
  · intro hnone index hmem
    obtain ⟨stored, hstored, hexpires⟩ := (h.indexed index).mp hmem
    rw [← hexpires]
    exact hnone _ stored hstored
  intro hindexes key stored hstored
  exact hindexes (toLex (stored.expiresAtUnixMillis, key))
    ((h.indexed _).mpr ⟨stored, hstored, rfl⟩)

theorem ReceiptsSound.entries_lt (h : ReceiptsSound codec tables) (h' : ReceiptsSound codec tables')
    (hold : ∀ key stored, tables'.receipts.get? key = some stored →
    tables.receipts.get? key = some stored) (hstored : tables.receipts.get? key = some stored)
    (hgone : tables'.receipts.get? key = none) : tables'.entries < tables.entries := by
  have hmem : key ∈ tables.receipts.keys := (mem_keys_iff _ _).mpr ⟨stored, hstored⟩
  have hsub : tables'.receipts.keys ⊆ tables.receipts.keys.erase key := by
    intro other hother
    obtain ⟨_, hfound⟩ := (mem_keys_iff _ _).mp hother
    refine (nodup_keys _).mem_erase_iff.mpr ⟨?_, (mem_keys_iff _ _).mpr ⟨_, hold _ _ hfound⟩⟩
    rintro rfl
    cases hgone.symm.trans hfound
  have hlength := (subperm_of_subset (nodup_keys _) hsub).length_le
  rw [length_erase_of_mem hmem] at hlength
  have hsome := length_pos_of_mem hmem
  have hcount : ∀ m : OrdMap Nat StoredReceipt, (m.entries.map fun _ => 1).sum = m.keys.length := by
    simp [OrdMap.keys]
  rw [h.entries_eq, h'.entries_eq, hcount, hcount]
  omega

/-- The counters cover the receipt of an index, and its removal keeps the tables. -/
theorem ReceiptsSound.remove {receipt : StoredReceipt}
    (h : ReceiptsSound codec tables) (hmem : index ∈ tables.expiries.keys)
    (hreceipt : tables.receipts.get? (ofLex index).2 = some receipt) : 1 ≤ tables.entries ∧
    mutationReceiptLogicalBytes codec receipt ≤ tables.bytes ∧ ReceiptsSound codec
    { receipts := tables.receipts.erase (ofLex index).2
      expiries := tables.expiries.erase index
      entries := tables.entries - 1
      bytes := tables.bytes - mutationReceiptLogicalBytes codec receipt } := by
  have hentries := OrdMap.sum_map_erase tables.receipts (fun _ => 1) hreceipt
  have hbytes := OrdMap.sum_map_erase tables.receipts
    (fun entry => mutationReceiptLogicalBytes codec entry.2) hreceipt
  have hcount := h.entries_eq
  have hsize := h.bytes_eq
  dsimp only at hentries hbytes
  refine ⟨by omega, by omega, ?_, ?_, ?_⟩
  · intro other
    rw [mem_keys_iff, get?_erase, get?_erase]
    by_cases hsame : other = index
    · simp [hsame]
    rw [if_neg hsame, ← mem_keys_iff]
    by_cases hkey : (ofLex other).2 = (ofLex index).2
    · rw [if_pos hkey]
      constructor
      · intro hother
        exact absurd (h.index_inj hother hmem hkey) hsame
      rintro ⟨_, hnone, -⟩
      cases hnone
    rw [if_neg hkey]
    exact h.indexed other
  · dsimp only
    omega
  · dsimp only
    omega

/-- A pass over indexes of the tables does not fail. -/
theorem expires_pruneExpired {indexes : List (Lex (Nat × Nat))}
    (hsound : ReceiptsSound codec tables)
    (hindexes : ∀ index ∈ indexes, index ∈ tables.expiries.keys) (hdistinct : indexes.Nodup)
    (hpruned : ∀ index ∈ indexes, (ofLex index).2 ∉ pruned) : ∃ tables' pruned',
    pruneExpired codec now indexes pruned prunedBytes tables = .ok (tables', pruned') ∧
    ReceiptsSound codec tables' ∧ Expires now tables tables' := by
  induction indexes generalizing pruned prunedBytes tables with
  | nil => exact ⟨tables, pruned, rfl, hsound, .refl⟩
  | cons index rest ih =>
    obtain ⟨hfresh, hdistinct⟩ := nodup_cons.mp hdistinct
    have hmem := hindexes index mem_cons_self
    obtain ⟨_, hreceipt, hexpires⟩ := (hsound.indexed index).mp hmem
    obtain ⟨hentries, hbytes, hremoved⟩ := hsound.remove hmem hreceipt
    unfold pruneExpired
    by_cases hdue : now < (ofLex index).1
    · rw [if_pos hdue]
      exact ⟨tables, pruned, rfl, hsound, .refl⟩
    rw [if_neg hdue]
    simp only [rejectIf, if_neg (hpruned index mem_cons_self), hreceipt, okOr, hexpires,
      ne_eq, not_true_eq_false, if_false, bind, Except.bind]
    split
    · exact ⟨tables, pruned, rfl, hsound, .refl⟩
    have hrest : ∀ other ∈ rest, other ∈ (tables.expiries.erase index).keys ∧
          (ofLex other).2 ∉ (ofLex index).2 :: pruned := by
      intro other hother
      have hthere := hindexes other (mem_cons_of_mem _ hother)
      have hdiffers : other ≠ index := fun heq => hfresh (heq ▸ hother)
      constructor
      · rw [mem_keys_iff, get?_erase, if_neg hdiffers, ← mem_keys_iff]
        exact hthere
      rw [mem_cons, not_or]
      exact ⟨fun hkey => hdiffers (hsound.index_inj hthere hmem hkey),
        hpruned other (mem_cons_of_mem _ hother)⟩
    rw [checkedSub64_eq_some.mpr ⟨hentries, rfl⟩, checkedSub64_eq_some.mpr ⟨hbytes, rfl⟩]
    obtain ⟨tables', pruned', hpass, hsound', hexpired⟩ :=
      ih hremoved (fun other hother => (hrest other hother).1) hdistinct
        (fun other hother => (hrest other hother).2)
    refine ⟨tables', pruned', hpass, hsound', Expires.trans ⟨?_, ?_⟩ hexpired⟩
    · intro _ _ hget
      rw [get?_erase] at hget
      split at hget
      · cases hget
      · exact hget
    intro _ _ hget hlater
    rw [get?_erase, if_neg]
    · exact hget
    rintro rfl
    rw [hreceipt, Option.some.injEq] at hget
    rw [← hget, hexpires] at hlater
    exact hdue hlater

theorem expires_stageExpired (now : Nat) (hsound : ReceiptsSound codec tables) :
    ∃ tables' pruned, stageExpiredMutationReceipts codec now tables = .ok (tables', pruned) ∧
    ReceiptsSound codec tables' ∧ Expires now tables tables' := by
  unfold stageExpiredMutationReceipts
  split
  · exact ⟨tables, [], rfl, hsound, .refl⟩
  exact expires_pruneExpired hsound (fun _ hmem => hmem) tables.expiries.nodup_keys
    (fun _ _ => not_mem_nil)

/-- A pass removes the receipts whose keys it returns. -/
theorem get?_pruneExpired {indexes : List (Lex (Nat × Nat))} {pruned' : List Nat}
    {base : OrdMap Nat StoredReceipt}
    (hbase : ∀ key, tables.receipts.get? key = if key ∈ pruned then none else base.get? key)
    (h : pruneExpired codec now indexes pruned prunedBytes tables = .ok (tables', pruned')) :
    ∀ key, tables'.receipts.get? key = if key ∈ pruned' then none else base.get? key := by
  induction indexes generalizing pruned prunedBytes tables with
  | nil =>
    cases h
    exact hbase
  | cons index _ ih =>
    unfold pruneExpired at h
    dsimp only at h
    split at h
    · cases h
      exact hbase
    simp only [ok_rules] at h
    obtain ⟨-, _, -, -, h⟩ := h
    split at h
    · cases h
      exact hbase
    simp only [ok_rules] at h
    obtain ⟨_, -, _, -, h⟩ := h
    refine ih ?_ h
    intro key
    rw [get?_erase, hbase]
    by_cases hkey : key = (ofLex index).2
    · simp [hkey]
    · simp [hkey]

theorem get?_stageExpiredMutationReceipts
    (h : stageExpiredMutationReceipts codec now tables = .ok (tables', pruned)) (key : Nat) :
    tables'.receipts.get? key = if key ∈ pruned then none else tables.receipts.get? key := by
  unfold stageExpiredMutationReceipts at h
  split at h
  · cases h
    simp
  · exact get?_pruneExpired (by simp) h key

/-- With nothing to expire a pass changes nothing. -/
theorem stageExpiredMutationReceipts_eq
    (h : ∀ index ∈ tables.expiries.keys, now < (ofLex index).1) :
    stageExpiredMutationReceipts codec now tables = .ok (tables, []) := by
  unfold stageExpiredMutationReceipts
  split
  · rfl
  cases hkeys : tables.expiries.keys with
  | nil => rfl
  | cons index =>
    rw [hkeys] at h
    unfold pruneExpired
    rw [if_pos (h index mem_cons_self)]
    rfl

/-- The first index is one of the earliest expiry. -/
theorem head_keys_le {rest : List (Lex (Nat × Nat))} {other : Lex (Nat × Nat)}
    (hkeys : tables.expiries.keys = index :: rest)
    (hother : other ∈ tables.expiries.keys) : (ofLex index).1 ≤ (ofLex other).1 := by
  have hsorted : tables.expiries.keys.Pairwise (· < ·) := pairwise_map.mpr tables.expiries.ascending
  rw [hkeys] at hsorted hother
  rcases mem_cons.mp hother with rfl | hlater
  · exact le_rfl
  have hlt := (pairwise_cons.mp hsorted).1 other hlater
  rw [Prod.Lex.lt_iff] at hlt
  omega

/-- A pass over tables with an expired receipt removes one. -/
theorem stageExpired_removes (hsound : ReceiptsSound codec tables) (hdue : ¬ NoneExpired now tables)
    (h : stageExpiredMutationReceipts codec now tables = .ok (tables', pruned)) :
    ∃ key stored, tables.receipts.get? key = some stored ∧
    stored.expiresAtUnixMillis ≤ now ∧ tables'.receipts.get? key = none := by
  rw [hsound.noneExpired_iff] at hdue
  push Not at hdue
  obtain ⟨_, hlate, _⟩ := hdue
  cases hkeys : tables.expiries.keys with
  | nil =>
    rw [hkeys] at hlate
    cases hlate
  | cons index =>
    have hmem : index ∈ tables.expiries.keys := by
      rw [hkeys]
      exact mem_cons_self
    obtain ⟨receipt, hreceipt, hexpires⟩ := (hsound.indexed index).mp hmem
    obtain ⟨hentries, hbytes, -⟩ := hsound.remove hmem hreceipt
    have hfirst := head_keys_le hkeys hlate
    refine ⟨(ofLex index).2, receipt, hreceipt, by omega, ?_⟩
    rw [stageExpiredMutationReceipts, if_neg (by omega), hkeys, pruneExpired] at h
    rw [if_neg (by omega)] at h
    simp only [rejectIf, if_neg not_mem_nil, hreceipt, okOr, hexpires, ne_eq,
      not_true_eq_false, if_false, bind, Except.bind, length_nil, false_and, or_false,
      maxExpiredReceiptsPrunedPerPass, Nat.le_zero, OfNat.ofNat_ne_zero,
      checkedSub64_eq_some.mpr ⟨hentries, rfl⟩, checkedSub64_eq_some.mpr ⟨hbytes, rfl⟩] at h
    have hbase : ∀ key, (tables.receipts.erase (ofLex index).2).get? key =
        if key ∈ [(ofLex index).2] then
          none
        else
          (tables.receipts.erase (ofLex index).2).get? key := by
      intro key
      rw [get?_erase]
      by_cases hkey : key = (ofLex index).2
      · simp [hkey]
      · simp [hkey]
    rw [get?_pruneExpired hbase h, get?_erase]
    simp

/-- A receipt under a new key joins the tables. -/
theorem ReceiptsSound.add {retention : MutationReceiptRetention}
    (h : ReceiptsSound codec tables) (hnone : tables.receipts.get? key = none)
    (hstaged : stageStoredMutationReceipt codec retention tables key stored = .ok tables') :
    ReceiptsSound codec tables' ∧ tables'.receipts = tables.receipts.insert key stored := by
  simp only [stageStoredMutationReceipt, ok_rules, checkedAdd64_eq_some] at hstaged
  obtain ⟨-, _, ⟨-, rfl⟩, _, ⟨-, rfl⟩, -, rfl⟩ := hstaged
  have herased := erase_eq_self hnone
  have hentries := sum_map_insert tables.receipts (fun _ => 1) key stored
  have hbytes := sum_map_insert tables.receipts
    (fun entry => mutationReceiptLogicalBytes codec entry.2) key stored
  have hcount := h.entries_eq
  have hsize := h.bytes_eq
  rw [herased] at hentries hbytes
  dsimp only at hentries hbytes
  refine ⟨⟨?_, ?_, ?_⟩, rfl⟩
  · intro index
    rw [mem_keys_iff, get?_insert, get?_insert]
    by_cases hkey : (ofLex index).2 = key
    · rw [if_pos hkey]
      by_cases hsame : index = toLex (stored.expiresAtUnixMillis, key)
      · rw [if_pos hsame, hsame]
        simp
      rw [if_neg hsame, ← mem_keys_iff, h.indexed, hkey, hnone]
      constructor
      · rintro ⟨_, hsome, -⟩
        cases hsome
      rintro ⟨_, hsome, hexpires⟩
      cases hsome
      exact absurd (ofLex_inj.mp (Prod.ext hexpires.symm hkey)) hsame
    · have hother : index ≠ toLex (stored.expiresAtUnixMillis, key) := by
        rintro rfl
        exact hkey rfl
      rw [if_neg hkey, if_neg hother, ← mem_keys_iff]
      exact h.indexed index
  · dsimp only
    omega
  · dsimp only
    omega

end

variable {context : BulkContext} {operation : PreparedOperation} {bulk : BulkState}
  {plan : MutationPlan}

section

/-- The receipts of a batch are the staged ones over the stored ones. -/
def ReceiptsThrough (context : BulkContext) (bulk : BulkState) : Prop :=
  ∀ key, bulk.receipts.receipts.get? key = (bulk.pendingReceipts key).or
    (if key ∈ context.prunedReceipts then none else context.store.receipts.receipts.get? key)

/-- The receipt an operation leaves under its command. -/
def receiptOf (context : BulkContext) (operation : PreparedOperation) (version : VersionId)
    (deleted : Bool) : StoredReceipt :=
  { fingerprint := operation.fingerprint
    version
    deleted
    expiresAtUnixMillis := context.now + context.config.receiptRetention.retentionMillis
    objectMutation := none
    definitionTransition := context.intent.map (definitionTransition operation version deleted) }

/-- An operation leaves the receipts, or adds the one of its command, which had
none. -/
def AddsReceipt
    (context : BulkContext) (operation : PreparedOperation) (bulk after : BulkState) : Prop :=
  (after.receipts = bulk.receipts ∧ after.pendingReceipts = bulk.pendingReceipts) ∨
    ∃ key version deleted,
      receiptKeyOf context operation = some key ∧ findReceipt context bulk operation = .ok none ∧
      stageStoredMutationReceipt context.config.receiptCodec context.config.receiptRetention
      bulk.receipts key (receiptOf context operation version deleted) = .ok after.receipts ∧
      after.pendingReceipts = Function.update bulk.pendingReceipts key
      (some (receiptOf context operation version deleted))

variable {after : BulkState} {version : VersionId}

/-- A command without an answer has no receipt. -/
theorem get?_of_findReceipt (hthrough : ReceiptsThrough context bulk)
    (hkey : receiptKeyOf context operation = some key)
    (hnone : findReceipt context bulk operation = .ok none) :
    bulk.receipts.receipts.get? key = none := by
  rw [hthrough key]
  unfold findReceipt at hnone
  rw [hkey] at hnone
  cases hpending : bulk.pendingReceipts key with
  | some => simp only [hpending, ok_rules, reduceCtorEq, and_false] at hnone
  | none =>
    simp only [hpending] at hnone
    split at hnone
    · assumption
    · simp only [ok_rules, reduceCtorEq, and_false] at hnone

theorem addsReceipt_stageReceipt {deleted : Bool} {expiresAt : Nat}
    (hfound : findReceipt context bulk operation = .ok none)
    (h : stageReceipt context operation bulk version deleted
    (context.intent.map (definitionTransition operation version deleted)) =
    .ok (after, expiresAt)) : AddsReceipt context operation bulk after := by
  unfold stageReceipt stageMutationReceipt at h
  split at h
  · cases h
    exact .inl ⟨rfl, rfl⟩
  rename_i key hkey
  simp only [ok_rules, checkedAdd64_eq_some] at h
  obtain ⟨_, ⟨-, rfl⟩, _, hreceipts, rfl, -⟩ := h
  exact .inr ⟨key, version, deleted, hkey, hfound, hreceipts, rfl⟩

theorem stagePayload_receipts (h : stagePayload plan bulk = .ok after) :
    after.receipts = bulk.receipts ∧ after.pendingReceipts = bulk.pendingReceipts := by
  simp only [stagePayload, ok_rules] at h
  obtain ⟨inlined, hinlined, rfl⟩ := h
  have hinline : inlined.receipts = bulk.receipts ∧
      inlined.pendingReceipts = bulk.pendingReceipts := by
    unfold stageInlineValue at hinlined
    split at hinlined
    · simp only [stageInlinePayload, ok_rules] at hinlined
      obtain ⟨_, -, rfl⟩ := hinlined
      exact ⟨rfl, rfl⟩
    cases hinlined
    exact ⟨rfl, rfl⟩
  unfold stagePublication
  split
  · exact hinline
  · exact hinline

theorem stageRetirement_receipts (h : stageRetirement context plan bulk = .ok after) :
    after.receipts = bulk.receipts ∧ after.pendingReceipts = bulk.pendingReceipts := by
  unfold stageRetirement at h
  split at h
  · cases h
    exact ⟨rfl, rfl⟩
  simp only [ok_rules] at h
  obtain ⟨_, -, rfl⟩ := h
  exact ⟨rfl, rfl⟩

theorem AddsReceipt.after_eq {changed : BulkState}
    (h : AddsReceipt context operation bulk after)
    (hsame : changed.receipts = after.receipts ∧ changed.pendingReceipts = after.pendingReceipts) :
    AddsReceipt context operation bulk changed := by
  unfold AddsReceipt at h ⊢
  rw [hsame.1, hsame.2]
  exact h

theorem findReceipt_of_admitOperation {admission : Admission}
    (h : admitOperation context bulk operation = .ok admission)
    (hfresh : ∀ receipt, admission ≠ .replay receipt) :
    findReceipt context bulk operation = .ok none := by
  simp only [admitOperation, bind_eq_ok] at h
  obtain ⟨found, hfound, h⟩ := h
  cases found with
  | none => exact hfound
  | some receipt =>
    cases h
    exact absurd rfl (hfresh receipt)

theorem addsReceipt_stagePlan (hfound : findReceipt context bulk operation = .ok none)
    (htransition : plan.definitionTransition =
    context.intent.map (definitionTransition operation plan.version.id plan.version.deleted)) :
    AddsReceipt context operation bulk (stagePlan context operation bulk plan).1 := by
  unfold stagePlan
  rw [htransition]
  split
  · exact .inl ⟨rfl, rfl⟩
  rename_i receipted expiresAt hreceipted
  have hadds := addsReceipt_stageReceipt hfound hreceipted
  split
  · exact hadds
  rename_i paid hpaid
  have hadds := hadds.after_eq (stagePayload_receipts hpaid)
  split
  · exact hadds
  rename_i retired hretired
  have hadds := hadds.after_eq (stageRetirement_receipts hretired)
  exact hadds

/-- An operation adds the receipt of its command at most. -/
theorem addsReceipt_evaluateOperation (reading : Nat) : AddsReceipt context operation bulk
    (evaluateOperation context operation reading bulk).1 := by
  unfold evaluateOperation
  split
  · exact .inl ⟨rfl, rfl⟩
  · exact .inl ⟨rfl, rfl⟩
  · rename_i head hadmitted
    have hfound := findReceipt_of_admitOperation hadmitted (fun _ => by simp)
    unfold stageIdentical
    dsimp only
    split
    · exact .inl ⟨rfl, rfl⟩
    rename_i staged expiresAt hstaged
    have hadds := addsReceipt_stageReceipt hfound hstaged
    split
    · exact hadds
    split
    · exact hadds
    · exact hadds
  · rename_i current versioning hadmitted
    have hfound := findReceipt_of_admitOperation hadmitted (fun _ => by simp)
    split
    · exact .inl ⟨rfl, rfl⟩
    rename_i id clock hnext
    dsimp only
    split
    · exact .inl ⟨rfl, rfl⟩
    rename_i plan hplan
    simp only [planOperation, ok_rules] at hplan
    obtain ⟨-, -, -, -, -, -, -, -, -, -, rfl⟩ := hplan
    exact @addsReceipt_stagePlan _ _ { bulk with clock } _ hfound rfl

variable (h : AddsReceipt context operation bulk after)
  (hsound : ReceiptsSound context.config.receiptCodec bulk.receipts)
  (hthrough : ReceiptsThrough context bulk)

include h hsound hthrough

/-- A batch's receipts stay sound and the staged ones lie over the stored ones. -/
theorem AddsReceipt.sound :
    ReceiptsSound context.config.receiptCodec after.receipts ∧ ReceiptsThrough context after := by
  rcases h with ⟨hreceipts, hpending⟩ |
    ⟨_, _, _, hkey, hfound, hstaged, hpending⟩
  · unfold ReceiptsThrough
    rw [hreceipts, hpending]
    exact ⟨hsound, hthrough⟩
  have hnone := get?_of_findReceipt hthrough hkey hfound
  obtain ⟨hadded, hreceipts⟩ := hsound.add hnone hstaged
  refine ⟨hadded, ?_⟩
  intro other
  rw [hreceipts, hpending, get?_insert, Function.update_apply]
  split
  · rfl
  · exact hthrough other

/-- Receipts of a batch stay, and new ones expire after the retention time. -/
theorem AddsReceipt.get? (key : Nat) :
    after.receipts.receipts.get? key = bulk.receipts.receipts.get? key ∨
    (bulk.receipts.receipts.get? key = none ∧ ∃ version deleted, after.receipts.receipts.get? key =
    some (receiptOf context operation version deleted)) := by
  rcases h with ⟨hreceipts, -⟩ | ⟨added, version, deleted, hkey, hfound, hstaged, -⟩
  · rw [hreceipts]
    exact .inl rfl
  have hnone := get?_of_findReceipt hthrough hkey hfound
  obtain ⟨-, hreceipts⟩ := hsound.add hnone hstaged
  rw [hreceipts, get?_insert]
  by_cases hsame : key = added
  · rw [hsame, if_pos rfl]
    exact .inr ⟨hnone, version, deleted, rfl⟩
  rw [if_neg hsame]
  exact .inl rfl

end

section

/-- What a step may do to receipts: live ones stay as they are, and new ones are
of the kind the step makes. -/
structure ReceiptMove
    (codec : ReceiptCodec) (live added : StoredReceipt → Prop) (before after : ReceiptTables) :
    Prop where
  sound : ReceiptsSound codec after
  kept : ∀ key stored, before.receipts.get? key = some stored → live stored →
    after.receipts.get? key = some stored
  old : ∀ key stored, after.receipts.get? key = some stored →
    before.receipts.get? key = some stored ∨ added stored

variable {before middle after : ReceiptTables}

theorem ReceiptMove.still {live added : StoredReceipt → Prop}
    (hsound : ReceiptsSound codec before) (hsame : after = before) :
    ReceiptMove codec live added before after := by
  subst hsame
  exact ⟨hsound, fun _ _ h _ => h, fun _ _ h => .inl h⟩

theorem ReceiptMove.trans {live added : StoredReceipt → Prop}
    (h : ReceiptMove codec live added before middle)
    (h' : ReceiptMove codec live added middle after) :
    ReceiptMove codec live added before after where
  sound := h'.sound
  kept := fun key stored hstored hlive => h'.kept key stored (h.kept key stored hstored hlive) hlive
  old := fun key stored hstored => (h'.old key stored hstored).elim (h.old key stored) Or.inr

theorem ReceiptMove.mono {live added live' added' : StoredReceipt → Prop}
    (h : ReceiptMove codec live added before after) (hlive : ∀ stored, live' stored → live stored)
    (hadded : ∀ stored, added stored → added' stored) :
    ReceiptMove codec live' added' before after where
  sound := h.sound
  kept := fun key stored hstored hlives => h.kept key stored hstored (hlive stored hlives)
  old := fun key stored hstored => (h.old key stored hstored).imp_right (hadded stored)

theorem ReceiptMove.expire {live added : StoredReceipt → Prop}
    (hsound : ReceiptsSound codec after) (h : Expires now before after)
    (hlive : ∀ stored, live stored → now < stored.expiresAtUnixMillis) :
    ReceiptMove codec live added before after where
  sound := hsound
  kept := fun key stored hstored hlives => h.kept key stored hstored (hlive stored hlives)
  old := fun key stored hstored => .inl (h.old key stored hstored)

/-- A receipt under a new key leaves the others. -/
theorem ReceiptMove.add {retention : MutationReceiptRetention} {added live : StoredReceipt → Prop}
    (hsound : ReceiptsSound codec before) (hnone : before.receipts.get? key = none)
    (hstaged : stageStoredMutationReceipt codec retention before key stored = .ok after)
    (hadded : added stored) : ReceiptMove codec live added before after := by
  obtain ⟨hafter, hreceipts⟩ := hsound.add hnone hstaged
  refine ⟨hafter, ?_, ?_⟩
  · intro _ _ hexisting _
    rw [hreceipts, get?_insert, if_neg]
    · exact hexisting
    rintro rfl
    rw [hnone] at hexisting
    cases hexisting
  intro _ _ hexisting
  rw [hreceipts, get?_insert] at hexisting
  split at hexisting
  · cases hexisting
    exact .inr hadded
  · exact .inl hexisting

/-- An evaluated operation keeps every receipt, and adds its own without a
mutation. -/
theorem AddsReceipt.move {bulk' : BulkState} {live : StoredReceipt → Prop}
    (h : AddsReceipt context operation bulk bulk')
    (hsound : ReceiptsSound context.config.receiptCodec bulk.receipts)
    (hthrough : ReceiptsThrough context bulk) :
    ReceiptMove context.config.receiptCodec live (fun stored => stored.objectMutation = none)
    bulk.receipts bulk'.receipts := by
  rcases h with ⟨hreceipts, -⟩ | ⟨_, _, _, hkey, hfound, hstaged, -⟩
  · exact ReceiptMove.still hsound hreceipts
  · exact ReceiptMove.add hsound (get?_of_findReceipt hthrough hkey hfound) hstaged rfl

end

end Keldra.Store
