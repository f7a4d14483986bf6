import Keldra.Consensus.StateMachine

/-!
# What a cluster-control command can do

`ClusterStep` lists every effect an accepted cluster-control command can have,
each with the guards the code checked before it.  One inversion lemma per
command shows the list is complete; the invariants of the cluster state are
then case analyses over this relation and never unfold a command again.
-/

namespace Keldra.Consensus

open Foundation

/-- Results of a cluster-control command that found its work already done. -/
def ApplyResult.isRetry : ApplyResult → Bool
  | .membershipTransitionBegun _ => true
  | .joiningNodePreparationRefreshed _ => true
  | .peerSpkiChanged _ => true
  | .jwtSigningKeyFingerprintBound _ => true
  | .erasureCodeProfileBound _ => true
  | .clusterInitialized _ => true
  | _ => false

/-- Admission of one descriptor under its ADD transition. -/
def StateMachine.admitDescriptor (s : StateMachine) (descriptor : NodeDescriptor)
    (transition : MembershipTransition) : StateMachine :=
  { s with
    clusterControl :=
      { s.clusterControl with
        usedNodeIds := s.clusterControl.usedNodeIds.insert descriptor.nodeId
        nodes := s.clusterControl.nodes.insert descriptor.nodeId descriptor
        transition := some transition } }

/-- The effects of accepted cluster-control commands, with their guards. -/
inductive ClusterStep (s : StateMachine) (id : LogId) : Command → StateMachine → ApplyResult → Prop
  | kept (command : Command) (result : ApplyResult)
      (hresult : result.isRetry = true) :
      ClusterStep s id command s result
  | initialized (clusterId : ClusterId)
      (hnone : s.clusterId = none) :
      ClusterStep s id (.initializeCluster clusterId)
        { s with
          clusterId := some clusterId
          clusterControl :=
            { s.clusterControl with activeProtocolVersion := 1, activeStorageFormat := 1 } }
        (.clusterInitialized clusterId)
  | addBegun (version : Nat) (descriptor : NodeDescriptor) (transition : MembershipTransition)
      (htransition :
        transition =
          { kind := .add
            nodeId := descriptor.nodeId
            startedLogIndex := id.index
            targetWeightMillionths := some descriptor.storageWeightMillionths })
      (hvalid : validateDescriptor descriptor = .ok ())
      (hjoining : descriptor.state = .joining)
      (hnone : s.clusterControl.transition = none)
      (hunused : s.clusterControl.usedNodeIds.contains descriptor.nodeId = false)
      (hunique : ensureDescriptorUnique s.clusterControl.nodes descriptor = .ok ()) :
      ClusterStep s id (.beginAddNode version descriptor) (s.admitDescriptor descriptor transition)
        (.membershipTransitionBegun transition)
  | removeBegun (version : Nat) (nodeId : NodeId) (descriptor : NodeDescriptor)
      (transition : MembershipTransition)
      (htransition :
        transition =
          { kind := .remove
            nodeId := nodeId
            startedLogIndex := id.index
            targetWeightMillionths := none })
      (hnone : s.clusterControl.transition = none)
      (hget : s.clusterControl.nodes.get? nodeId = some descriptor)
      (hactive : descriptor.state = .active)
      (hcount : s.clusterControl.activeNodeCount ≠ 1) :
      ClusterStep s id (.beginRemoveNode version nodeId) (s.setTransition (some transition))
        (.membershipTransitionBegun transition)
  | reweightBegun (version : Nat) (nodeId : NodeId) (descriptor : NodeDescriptor) (weight : Nat)
      (transition : MembershipTransition)
      (htransition :
        transition =
          { kind := .reweight
            nodeId := nodeId
            startedLogIndex := id.index
            targetWeightMillionths := some weight })
      (hnone : s.clusterControl.transition = none)
      (hget : s.clusterControl.nodes.get? nodeId = some descriptor)
      (hactive : descriptor.state = .active)
      (hpositive : weight ≠ 0)
      (hchanged : descriptor.storageWeightMillionths ≠ weight) :
      ClusterStep s id (.beginReweightNode version nodeId weight)
        (s.setTransition (some transition))
        (.membershipTransitionBegun transition)
  | activated (version : Nat) (transition : MembershipTransition) (descriptor : NodeDescriptor)
      (hsome : s.clusterControl.transition = some transition)
      (hkind : transition.kind = .add)
      (hget : s.clusterControl.nodes.get? transition.nodeId = some descriptor)
      (hweight :
        transition.targetWeightMillionths = some descriptor.storageWeightMillionths)
      (hjoining : descriptor.state = .joining) :
      ClusterStep s id (.completeMembershipTransition version transition.startedLogIndex)
        ((s.putDescriptor transition.nodeId
          { descriptor with state := .active, joinCapabilityHash := none }).setActivePlacement id)
        (.membershipTransitionAdvanced transition)
  | addFinished (version : Nat) (transition : MembershipTransition) (descriptor : NodeDescriptor)
      (hsome : s.clusterControl.transition = some transition)
      (hkind : transition.kind = .add)
      (hget : s.clusterControl.nodes.get? transition.nodeId = some descriptor)
      (hactive : descriptor.state = .active) :
      ClusterStep s id (.completeMembershipTransition version transition.startedLogIndex)
        (s.setTransition none)
        (.membershipTransitionFinished transition.startedLogIndex)
  | removed (version : Nat) (transition : MembershipTransition) (descriptor : NodeDescriptor)
      (hsome : s.clusterControl.transition = some transition)
      (hkind : transition.kind = .remove)
      (hget : s.clusterControl.nodes.get? transition.nodeId = some descriptor)
      (hactive : descriptor.state = .active) :
      ClusterStep s id (.completeMembershipTransition version transition.startedLogIndex)
        (((s.removeDescriptor transition.nodeId).setActivePlacement id).setTransition none)
        (.membershipTransitionFinished transition.startedLogIndex)
  | reweighted (version : Nat) (transition : MembershipTransition) (descriptor : NodeDescriptor)
      (weight : Nat)
      (hsome : s.clusterControl.transition = some transition)
      (hkind : transition.kind = .reweight)
      (hweight : transition.targetWeightMillionths = some weight)
      (hget : s.clusterControl.nodes.get? transition.nodeId = some descriptor)
      (hactive : descriptor.state = .active) :
      ClusterStep s id (.completeMembershipTransition version transition.startedLogIndex)
        (((s.putDescriptor transition.nodeId
          { descriptor with storageWeightMillionths := weight }).setActivePlacement
          id).setTransition none)
        (.membershipTransitionFinished transition.startedLogIndex)
  | refreshed (command : Command) (transition : MembershipTransition) (descriptor : NodeDescriptor)
      (pin : PeerSpkiSha256)
      (capability : JoinCapabilityHash)
      (hsome : s.clusterControl.transition = some transition)
      (hkind : transition.kind = .add)
      (hget : s.clusterControl.nodes.get? transition.nodeId = some descriptor)
      (hjoining : descriptor.state = .joining)
      (hoverlap : descriptor.overlapPeerSpkiSha256 = none)
      (hpin : validatePin pin = .ok ())
      (hcapability : validateJoinCapability capability = .ok ())
      (hpinUnique : ensurePinUnique s.clusterControl.nodes transition.nodeId pin = .ok ())
      (hcapabilityUnique : ensureJoinCapabilityUnique s.clusterControl.nodes transition.nodeId
          capability = .ok ()) :
      ClusterStep s id command (s.putDescriptor transition.nodeId
        { descriptor with currentPeerSpkiSha256 := pin, joinCapabilityHash := some capability })
        (.joiningNodePreparationRefreshed
          { descriptor with currentPeerSpkiSha256 := pin, joinCapabilityHash := some capability })
  | overlapStaged (command : Command) (nodeId : NodeId) (descriptor : NodeDescriptor)
      (overlap : PeerSpkiSha256)
      (hget : s.clusterControl.nodes.get? nodeId = some descriptor)
      (hactive : descriptor.state = .active)
      (hpin : validatePin overlap = .ok ())
      (hdiffer : descriptor.currentPeerSpkiSha256 ≠ overlap)
      (hunique : ensurePinUnique s.clusterControl.nodes nodeId overlap = .ok ()) :
      ClusterStep s id command (s.putDescriptor nodeId
        { descriptor with overlapPeerSpkiSha256 := some overlap })
        (.peerSpkiChanged { descriptor with overlapPeerSpkiSha256 := some overlap })
  | overlapPromoted (command : Command) (nodeId : NodeId) (descriptor : NodeDescriptor)
      (overlap : PeerSpkiSha256)
      (hget : s.clusterControl.nodes.get? nodeId = some descriptor)
      (hactive : descriptor.state = .active)
      (hoverlap : descriptor.overlapPeerSpkiSha256 = some overlap) :
      ClusterStep s id command (s.putDescriptor nodeId
        { descriptor with
          currentPeerSpkiSha256 := overlap
          overlapPeerSpkiSha256 := some descriptor.currentPeerSpkiSha256 })
        (.peerSpkiChanged
          { descriptor with
            currentPeerSpkiSha256 := overlap
            overlapPeerSpkiSha256 := some descriptor.currentPeerSpkiSha256 })
  | overlapCleared (command : Command) (nodeId : NodeId) (descriptor : NodeDescriptor)
      (hget : s.clusterControl.nodes.get? nodeId = some descriptor)
      (hactive : descriptor.state = .active) :
      ClusterStep s id command (s.putDescriptor nodeId
        { descriptor with overlapPeerSpkiSha256 := none })
        (.peerSpkiChanged { descriptor with overlapPeerSpkiSha256 := none })
  | jwtBound (command : Command)
      (fingerprint : JwtSigningKeyFingerprint) :
      ClusterStep s id command
        { s with
          clusterControl :=
            { s.clusterControl with jwtSigningKeyFingerprint := some fingerprint } }
        (.jwtSigningKeyFingerprintBound fingerprint)
  | profileBound (command : Command)
      (profile : ErasureCodeProfile) :
      ClusterStep s id command
        { s with clusterControl := { s.clusterControl with erasureCodeProfile := some profile } }
        (.erasureCodeProfileBound profile)

namespace StateMachine

variable {s t : StateMachine} {id : LogId} {version started : Nat}

theorem activeDescriptor_eq_ok {nodeId : NodeId} {descriptor : NodeDescriptor} :
    s.activeDescriptor nodeId = .ok descriptor ↔ validateNodeId nodeId = .ok () ∧
    s.clusterControl.nodes.get? nodeId = some descriptor ∧ descriptor.state = .active := by
  simp only [activeDescriptor, ok_rules, not_not]
  constructor
  · rintro ⟨hid, d, hget, hactive, rfl⟩
    exact ⟨hid, hget, hactive⟩
  rintro ⟨hid, hget, hactive⟩
  exact ⟨hid, descriptor, hget, hactive, rfl⟩

theorem beginAddNode_step {descriptor : NodeDescriptor} {result : ApplyResult}
    (h : perform (beginAddNode version descriptor id.index) s = (t, .ok result)) :
    ClusterStep s id (.beginAddNode version descriptor) t result := by
  simp only [beginAddNode, edit_rules, ok_rules, not_not] at h
  obtain ⟨_, hvalid, hjoining, h⟩ := h
  cases htransition : s.clusterControl.transition with
  | some =>
    simp only [htransition, edit_rules, ok_rules] at h
    obtain ⟨_, rfl, rfl⟩ := h
    exact .kept _ _ rfl
  | none =>
    simp only [htransition, edit_rules, ok_rules, Bool.not_eq_true] at h
    obtain ⟨hunused, hunique, rfl, rfl⟩ := h
    exact .addBegun version descriptor _ rfl hvalid hjoining htransition hunused hunique

theorem beginRemoveNode_step {nodeId : NodeId} {result : ApplyResult}
    (h : perform (beginRemoveNode version nodeId id.index) s = (t, .ok result)) :
    ClusterStep s id (.beginRemoveNode version nodeId) t result := by
  simp only [beginRemoveNode, edit_rules, ok_rules] at h
  obtain ⟨_, _, h⟩ := h
  cases htransition : s.clusterControl.transition with
  | some =>
    simp only [htransition, edit_rules, ok_rules] at h
    obtain ⟨_, rfl, rfl⟩ := h
    exact .kept _ _ rfl
  | none =>
    simp only [htransition, edit_rules, ok_rules, not_not] at h
    obtain ⟨descriptor, hget, hactive, hcount, rfl, rfl⟩ := h
    exact .removeBegun version nodeId descriptor _ rfl htransition hget hactive hcount

theorem beginReweightNode_step {nodeId : NodeId} {weight : Nat} {result : ApplyResult}
    (h : perform (beginReweightNode version nodeId weight id.index) s = (t, .ok result)) :
    ClusterStep s id (.beginReweightNode version nodeId weight) t result := by
  simp only [beginReweightNode, edit_rules, ok_rules] at h
  obtain ⟨_, _, hpositive, h⟩ := h
  cases htransition : s.clusterControl.transition with
  | some =>
    simp only [htransition, edit_rules, ok_rules] at h
    obtain ⟨_, rfl, rfl⟩ := h
    exact .kept _ _ rfl
  | none =>
    simp only [htransition, edit_rules, ok_rules, not_not] at h
    obtain ⟨descriptor, hget, hactive, hchanged, rfl, rfl⟩ := h
    exact .reweightBegun version nodeId descriptor weight _ rfl htransition hget
      hactive hpositive hchanged

theorem completeMembershipTransition_step {result : ApplyResult}
    (h : perform (completeMembershipTransition version started id) s = (t, .ok result)) :
    ClusterStep s id (.completeMembershipTransition version started) t result := by
  simp only [completeMembershipTransition, edit_rules, ok_rules, not_not] at h
  obtain ⟨_, transition, hsome, rfl, h⟩ := h
  cases hkind : transition.kind with
  | add =>
    simp only [hkind, edit_rules, ok_rules, not_not] at h
    obtain ⟨descriptor, hget, hweight, h⟩ := h
    cases hstate : descriptor.state with
    | joining =>
      simp only [hstate, edit_rules, ok_rules] at h
      obtain ⟨_, rfl, rfl⟩ := h
      exact .activated version transition descriptor hsome hkind hget hweight hstate
    | active =>
      simp only [hstate, edit_rules] at h
      obtain ⟨rfl, rfl⟩ := h
      exact .addFinished version transition descriptor hsome hkind hget hstate
  | remove =>
    simp only [hkind, edit_rules, ok_rules, not_or, not_not] at h
    obtain ⟨descriptor, hget, ⟨hactive, _⟩, rfl, rfl⟩ := h
    exact .removed version transition descriptor hsome hkind hget hactive
  | reweight =>
    simp only [hkind, edit_rules, ok_rules, not_not] at h
    obtain ⟨weight, hweight, descriptor, hget, hactive, rfl, rfl⟩ := h
    exact .reweighted version transition descriptor weight hsome hkind hweight hget hactive

section

variable (command : Command)

theorem refreshJoiningNodePreparation_step {nodeId : NodeId} {expectedPin : PeerSpkiSha256}
    {expectedCapability : JoinCapabilityHash} {replacementPin : PeerSpkiSha256}
    {replacementCapability : JoinCapabilityHash} {result : ApplyResult}
    (h :
    perform (refreshJoiningNodePreparation version nodeId started expectedPin
    expectedCapability replacementPin replacementCapability) s = (t, .ok result)) :
    ClusterStep s id command t result := by
  simp only [refreshJoiningNodePreparation, edit_rules, ok_rules, not_or, not_not] at h
  obtain ⟨_, _, _, hpin, _, hcapability, transition, hsome, _, ⟨hkind, rfl⟩,
    descriptor, hget, ⟨hjoining, hoverlap⟩, h⟩ := h
  split at h
  · obtain ⟨rfl, rfl⟩ := h
    exact .kept _ _ rfl
  simp only [edit_rules, ok_rules] at h
  obtain ⟨_, _, hpinUnique, hcapabilityUnique, rfl, rfl⟩ := h
  exact .refreshed command transition descriptor replacementPin replacementCapability hsome hkind
    hget hjoining (by simpa using hoverlap) hpin hcapability hpinUnique hcapabilityUnique

theorem stagePeerSpkiOverlap_step {nodeId : NodeId} {expectedCurrent overlap : PeerSpkiSha256}
    {result : ApplyResult}
    (h :
    perform (stagePeerSpkiOverlap version nodeId expectedCurrent overlap) s = (t, .ok result)) :
    ClusterStep s id command t result := by
  simp only [stagePeerSpkiOverlap, edit_rules, ok_rules, activeDescriptor_eq_ok, not_not] at h
  obtain ⟨_, _, hpin, hdiffer, _, hunique, descriptor, ⟨_, hget, hactive⟩, rfl, h⟩ := h
  cases hoverlap : descriptor.overlapPeerSpkiSha256 with
  | none =>
    simp only [hoverlap, edit_rules] at h
    obtain ⟨rfl, rfl⟩ := h
    exact .overlapStaged command nodeId descriptor overlap hget hactive hpin hdiffer hunique
  | some =>
    simp only [hoverlap, edit_rules, ok_rules] at h
    obtain ⟨_, rfl, rfl⟩ := h
    exact .kept _ _ rfl

theorem promotePeerSpkiOverlap_step {nodeId : NodeId}
    {expectedCurrent expectedOverlap : PeerSpkiSha256} {result : ApplyResult}
    (h : perform (promotePeerSpkiOverlap version nodeId expectedCurrent expectedOverlap) s =
      (t, .ok result)) :
    ClusterStep s id command t result := by
  simp only [promotePeerSpkiOverlap, edit_rules, ok_rules, activeDescriptor_eq_ok] at h
  obtain ⟨_, _, _, _, descriptor, ⟨_, hget, hactive⟩, h⟩ := h
  split at h
  · obtain ⟨rfl, rfl⟩ := h
    exact .kept _ _ rfl
  simp only [edit_rules, ok_rules, not_or, not_not] at h
  obtain ⟨⟨rfl, hoverlap⟩, rfl, rfl⟩ := h
  exact .overlapPromoted command nodeId descriptor expectedOverlap hget hactive hoverlap

theorem clearPeerSpkiOverlap_step {nodeId : NodeId}
    {expectedCurrent expectedOverlap : PeerSpkiSha256} {result : ApplyResult}
    (h : perform (clearPeerSpkiOverlap version nodeId expectedCurrent expectedOverlap) s =
      (t, .ok result)) :
    ClusterStep s id command t result := by
  simp only [clearPeerSpkiOverlap, edit_rules, ok_rules, activeDescriptor_eq_ok] at h
  obtain ⟨_, _, _, _, descriptor, ⟨_, hget, hactive⟩, _, h⟩ := h
  cases hoverlap : descriptor.overlapPeerSpkiSha256 with
  | none =>
    simp only [hoverlap, edit_rules] at h
    obtain ⟨rfl, rfl⟩ := h
    exact .kept _ _ rfl
  | some =>
    simp only [hoverlap, edit_rules, ok_rules] at h
    obtain ⟨_, rfl, rfl⟩ := h
    exact .overlapCleared command nodeId descriptor hget hactive

theorem bindJwtSigningKeyFingerprint_step {fingerprint : JwtSigningKeyFingerprint}
    {result : ApplyResult}
    (h :
    perform (bindJwtSigningKeyFingerprint version fingerprint) s = (t, .ok result)) :
    ClusterStep s id command t result := by
  simp only [bindJwtSigningKeyFingerprint, edit_rules, ok_rules] at h
  obtain ⟨_, _, h⟩ := h
  cases hbound : s.clusterControl.jwtSigningKeyFingerprint with
  | none =>
    simp only [hbound, edit_rules] at h
    obtain ⟨rfl, rfl⟩ := h
    exact .jwtBound command fingerprint
  | some =>
    simp only [hbound, edit_rules, ok_rules] at h
    obtain ⟨_, rfl, rfl⟩ := h
    exact .kept _ _ rfl

theorem bindErasureCodeProfile_step {profile : ErasureCodeProfile} {result : ApplyResult}
    (h : perform (bindErasureCodeProfile version profile) s = (t, .ok result)) :
    ClusterStep s id command t result := by
  simp only [bindErasureCodeProfile, edit_rules, ok_rules] at h
  obtain ⟨_, _, _, h⟩ := h
  cases hbound : s.clusterControl.erasureCodeProfile with
  | none =>
    simp only [hbound, edit_rules] at h
    obtain ⟨rfl, rfl⟩ := h
    exact .profileBound command profile
  | some =>
    simp only [hbound, edit_rules, ok_rules] at h
    obtain ⟨_, rfl, rfl⟩ := h
    exact .kept _ _ rfl

end

theorem initializeCluster_step {result : ApplyResult}
    {clusterId : ClusterId} (h : perform (initializeCluster clusterId) s = (t, .ok result)) :
    ClusterStep s id (.initializeCluster clusterId) t result := by
  simp only [initializeCluster, edit_rules, ok_rules] at h
  obtain ⟨_, h⟩ := h
  cases hid : s.clusterId with
  | some =>
    simp only [hid, edit_rules, ok_rules] at h
    obtain ⟨_, rfl, rfl⟩ := h
    exact .kept _ _ rfl
  | none =>
    simp only [hid, edit_rules] at h
    obtain ⟨rfl, rfl⟩ := h
    exact .initialized clusterId hid

end StateMachine

end Keldra.Consensus
