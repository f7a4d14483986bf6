import Keldra.Foundation.ReadRepair

/-!
# Replica groups of objects and of authorization realms

Both kinds of record live on a group of two or three replicas, change through
the group's coordinator and are repaired by reads.  They select and repair in
their own ways: an object repair replaces the state the read has seen, a realm
install replaces whatever it finds.  Either can take a change from the
coordinator that is about to be acknowledged.
-/

namespace Keldra.Cluster

open Foundation

universe u

section

variable {N : Type u} [DecidableEq N]

/-- The version a stamped mutation makes, and the one it replaces. -/
structure ObjectChange where
  version : Nat
  predecessorVersion : Option Nat
  deriving DecidableEq

/-- The stamp of the candidate's head names the other head. -/
def isDirectSuccessor (predecessor : List ObjectChange) : List ObjectChange → Bool
  | [] => false
  | head :: _ => head.predecessorVersion = predecessor.head?.map ObjectChange.version

def selectObjectSnapshotQuorum
    (observations : List (List ObjectChange)) (required replicaCount : Nat) :
    Except String (List ObjectChange) :=
  if required = 0 ∨ replicaCount < required ∨ observations.length < required then
    .error s!"object metadata read reached {observations.length} of {required} required replicas"
  else
    match observations.find? fun o => required ≤ observations.countP (· = o) with
    | some o => .ok o
    | none =>
      let unavailable := "object replicas have neither an exact quorum nor one direct " ++
        "predecessor-linked successor"
      -- a write may have reached one replica of two
      match observations with
      | [first, second] =>
        if required = 2 ∧ replicaCount = 2 then
          if isDirectSuccessor first second then .ok second
          else if isDirectSuccessor second first then .ok first
          else .error unavailable
        else .error unavailable
      | _ => .error unavailable

theorem selectObjectSnapshotQuorum_eq_ok {observations : List (List ObjectChange)}
    {required replicaCount : Nat} {winner : List ObjectChange}
    (h : selectObjectSnapshotQuorum observations required replicaCount = .ok winner) :
    required ≤ observations.countP (· = winner) ∨
    required = replicaCount ∧ winner ∈ observations := by
  unfold selectObjectSnapshotQuorum at h
  split at h
  · cases h
  split at h
  · rename_i o hfound
    cases h
    exact Or.inl (by simpa using List.find?_some hfound)
  split at h
  · split at h
    · rename_i hboth
      refine Or.inr ⟨hboth.1.trans hboth.2.symm, ?_⟩
      split at h
      · cases h
        simp
      split at h <;> cases h
      simp
    · cases h
  · cases h

theorem selectObjectSnapshotQuorum_sound (group : ReplicaGroup N) : group.Sound fun observed =>
      selectObjectSnapshotQuorum (observed.map Prod.snd) group.required group.members.length := by
  intro _ _ hnodup hmembers hselect m hack hseen
  rcases selectObjectSnapshotQuorum_eq_ok hselect with hquorum | ⟨hall, hmem⟩
  · exact group.change_mem_of_agreement hnodup hmembers hquorum hack hseen
  -- every replica of the group acknowledged the change
  have hdurable : group.required ≤ group.members.countP (· ∈ m.durable) := of_decide_eq_true hack
  have hcount := Nat.le_antisymm List.countP_le_length (hall ▸ hdurable)
  obtain ⟨o, ho, rfl⟩ := List.mem_map.mp hmem
  exact hseen o ho (of_decide_eq_true (List.countP_eq_length.mp hcount o.1 (hmembers o ho)))

/-- A repair compares the current state with the observed one; a replayed receipt that
holds no mutation answers its command at once. -/
def objectProtocol (group : ReplicaGroup N) (coordinator : N) : Protocol N ObjectChange :=
  { group with
    coordinator := coordinator
    follows := fun c record => c.predecessorVersion = record.head?.map ObjectChange.version
    select := fun observed =>
      selectObjectSnapshotQuorum (observed.map Prod.snd) group.required group.members.length
    admits := fun expected current => expected = some current
    confirms := fun _ _ => true
    answersLocally := false
    sound := selectObjectSnapshotQuorum_sound group }

/-- While repairs keep what is in flight or acknowledged, and repeated commands find their
changes, no acknowledged write is lost. -/
theorem acknowledged_write_survives (group : ReplicaGroup N) (coordinator idle : N)
    (records : N → List ObjectChange) (actions : List (ReplicaAction N ObjectChange))
    (hkeep : RunKeeps (objectProtocol group coordinator) (.initial idle records) actions) :
    let s := replicaRun (objectProtocol group coordinator) (.initial idle records) actions
    (∀ answer ∈ s.answers, ∀ m ∈ answer.known, m.change ∈ answer.record) ∧
      ∀ m ∈ s.acknowledged, group.required ≤ group.members.countP (m.change ∈ s.records ·) := by
  have hrun := (ReplicaInvariant.initial idle records).replicaRun hkeep
  exact ⟨hrun.answers, fun m hm => hrun.required_le_holders hm⟩

def threeReplicas : ReplicaGroup Nat where
  members := [0, 1, 2]
  required := 2
  majority := by decide

/-- A write that is sent again, and a read by the third replica when the second has it too. -/
def survivingRead : List (ReplicaAction Nat ObjectChange) :=
  [.commit ⟨1, none⟩, .abandon ⟨⟨1, none⟩, [0]⟩, .resend ⟨1, none⟩, .apply 1 ⟨1, none⟩,
    .acknowledge ⟨⟨1, none⟩, [1, 0]⟩, .start 0 2, .observe 0 2, .observe 0 0, .observe 0 1,
    .choose 0, .repair ⟨2, some [], [⟨1, none⟩]⟩, .answer 0]

theorem surviving_read_answers :
    RunKeeps (objectProtocol threeReplicas 0) (.initial 0 fun _ => []) survivingRead ∧
    (∀ answer ∈ (replicaRun (objectProtocol threeReplicas 0) (.initial 0 fun _ => [])
    survivingRead).answers, ∀ m ∈ answer.known, m.change ∈ answer.record) ∧
    (replicaRun (objectProtocol threeReplicas 0) (.initial 0 fun _ => []) survivingRead).answers =
    [⟨[⟨⟨1, none⟩, [1, 0]⟩], [⟨1, none⟩]⟩] :=
  ⟨by decide, (acknowledged_write_survives threeReplicas 0 0 (fun _ => []) survivingRead
    (by decide)).1, by decide⟩

/-- A read selects the state before the write and repairs the coordinator.  The second replica
applies the write and is counted beside the coordinator. -/
def rolledBackWrite : List (ReplicaAction Nat ObjectChange) :=
  [.commit ⟨1, none⟩, .start 0 2, .observe 0 2, .observe 0 0, .observe 0 1, .choose 0,
    .repair ⟨0, some [⟨1, none⟩], []⟩, .answer 0, .apply 1 ⟨1, none⟩,
    .acknowledge ⟨⟨1, none⟩, [1, 0]⟩, .start 1 2, .observe 1 2, .observe 1 0, .observe 1 1,
    .choose 1, .answer 1]

theorem acknowledged_write_rolled_back :
    let s := replicaRun (objectProtocol threeReplicas 0) (.initial 0 fun _ => []) rolledBackWrite
    (∃ answer ∈ s.answers, ∃ m ∈ answer.known, m.change ∉ answer.record) ∧
      ∃ m ∈ s.acknowledged, threeReplicas.members.countP (m.change ∈ s.records ·) <
        threeReplicas.required := by
  decide

inductive AuthzChangeKind where
  | bindSchema
  | mutateTuples
  deriving DecidableEq

/-- A stamped change of one authorization realm. -/
structure AuthzChange where
  kind : AuthzChangeKind
  revision : Nat
  predecessorRevision : Option Nat
  mutationFingerprint : Nat
  deriving DecidableEq

/-- A realm that no schema was bound to has no change. -/
def exactQuorumCandidate
    (observed : List (List AuthzChange)) (required : Nat) : Except String (List AuthzChange) :=
  match observed.find? fun candidate => required ≤ observed.countP (· = candidate) with
  | some candidate => .ok candidate
  | none =>
    let reason := if (observed.filterMap List.head?).Pairwise fun left right =>
      ¬ (left.revision = right.revision ∧ left.mutationFingerprint ≠ right.mutationFingerprint)
      then "lineage gap" else "sibling"
    .error s!"authorization realm has no exact read quorum ({reason})"

/-- The selection of a reconciliation. -/
def reconcileWinner
    (observed : List (List AuthzChange)) (required : Nat) : Except String (List AuthzChange) :=
  if observed.length < required then .error "authorization realm did not reach its read quorum"
  else exactQuorumCandidate observed required

theorem reconcileWinner_eq_ok {observed : List (List AuthzChange)} {required : Nat}
    {winner : List AuthzChange}
    (h : reconcileWinner observed required = .ok winner) :
    required ≤ observed.countP (· = winner) := by
  unfold reconcileWinner exactQuorumCandidate at h
  split at h
  · cases h
  split at h
  · rename_i candidate hfound
    cases h
    simpa using List.find?_some hfound
  · cases h

theorem reconcileWinner_sound (group : ReplicaGroup N) :
    group.Sound fun observed => reconcileWinner (observed.map Prod.snd) group.required := by
  intro _ _ hnodup hmembers hselect m hack hseen
  exact group.change_mem_of_agreement hnodup hmembers (reconcileWinner_eq_ok hselect) hack hseen

/-- An install replaces the realm it finds; a bind that changes nothing is acknowledged
after any reconciliation; a check evaluates the local realm. -/
def authzProtocol (group : ReplicaGroup N) (coordinator : N) : Protocol N AuthzChange :=
  { group with
    coordinator := coordinator
    follows := fun c realm => c.predecessorRevision = realm.head?.map AuthzChange.revision ∧
      (c.kind = .mutateTuples → realm ≠ [])
    select := fun observed => reconcileWinner (observed.map Prod.snd) group.required
    admits := fun _ _ => true
    confirms := fun _ winner => winner.isSome
    answersLocally := true
    sound := reconcileWinner_sound group }

/-- While installs keep what is in flight or acknowledged, and repeated commands find their
changes, every later check evaluates a realm with the acknowledged changes. -/
theorem acknowledged_change_evaluated (group : ReplicaGroup N) (coordinator idle : N)
    (records : N → List AuthzChange) (actions : List (ReplicaAction N AuthzChange))
    (hkeep : RunKeeps (authzProtocol group coordinator) (.initial idle records) actions) :
    ∀ answer ∈ (replicaRun (authzProtocol group coordinator) (.initial idle records)
    actions).answers, ∀ m ∈ answer.known, m.change ∈ answer.record :=
  ((ReplicaInvariant.initial idle records).replicaRun hkeep).answers

/-- The schema the realm was bound to, and a tuple change after it. -/
def boundSchema : AuthzChange := ⟨.bindSchema, 1, none, 10⟩
def revocation : AuthzChange := ⟨.mutateTuples, 2, some 1, 20⟩

/-- The bind is repeated; the third replica installs the revocation before it evaluates. -/
def repairedCheck : List (ReplicaAction Nat AuthzChange) :=
  [.start 1 0, .observe 1 0, .observe 1 1, .choose 1, .confirm 1 boundSchema,
    .commit revocation, .apply 1 revocation, .acknowledge ⟨revocation, [1, 0]⟩, .start 0 2,
    .observe 0 0, .observe 0 1, .observe 0 2, .choose 0,
    .repair ⟨2, some [boundSchema], [revocation, boundSchema]⟩, .settle 0, .answer 0]

theorem repaired_check_evaluates :
    RunKeeps (authzProtocol threeReplicas 0) (.initial 0 fun _ => [boundSchema]) repairedCheck ∧
    (∀ answer ∈ (replicaRun (authzProtocol threeReplicas 0)
    (.initial 0 fun _ => [boundSchema]) repairedCheck).answers,
    ∀ m ∈ answer.known, m.change ∈ answer.record) ∧
    (replicaRun (authzProtocol threeReplicas 0) (.initial 0 fun _ => [boundSchema])
      repairedCheck).answers =
      [⟨[⟨revocation, [1, 0]⟩, ⟨boundSchema, [0, 1, 2]⟩], [revocation, boundSchema]⟩] :=
  ⟨by decide, acknowledged_change_evaluated threeReplicas 0 0 (fun _ => [boundSchema])
    repairedCheck (by decide), by decide⟩

/-- A check selects the realm before the revocation; its install reaches the coordinator after
the revocation was acknowledged. -/
def undoneRevocation : List (ReplicaAction Nat AuthzChange) :=
  [.commit revocation, .start 0 2, .observe 0 0, .observe 0 1, .observe 0 2, .choose 0,
    .settle 0, .apply 1 revocation, .acknowledge ⟨revocation, [1, 0]⟩,
    .repair ⟨0, some [revocation, boundSchema], [boundSchema]⟩, .answer 0, .start 1 2,
    .observe 1 0, .observe 1 1, .observe 1 2, .choose 1, .settle 1, .answer 1]

theorem acknowledged_revocation_undone : ∃ answer ∈ (replicaRun (authzProtocol threeReplicas 0)
    (.initial 0 fun _ => [boundSchema]) undoneRevocation).answers,
    ∃ m ∈ answer.known, m.change ∉ answer.record := by
  decide

end

end Keldra.Cluster
