import Keldra.Index.Model
import Mathlib.Logic.Function.Basic

/-!
# Memory credits of the indexing pipeline

Every retained allocation is charged to its stage and to a shared total.  A pool
is the credits with the permits alive.  Its operations run under one mutex, so an
interleaving is a list of them; a subtraction below zero gives no result.
-/

namespace Keldra.Index

open Foundation

inductive IndexingMemoryStage where
  | hotPayload | workerScratch | preparedRows | replayInput
  | projectionAccumulator | sealScratch | orderingCatalog
deriving DecidableEq

def IndexingMemoryStage.all : List IndexingMemoryStage :=
  [hotPayload, workerScratch, preparedRows, replayInput, projectionAccumulator, sealScratch,
    orderingCatalog]

structure IndexingMemoryPermit where
  stage : IndexingMemoryStage
  bytes : Nat

structure IndexingMemoryCredits where
  totalLimitBytes : Nat
  stageLimitBytes : IndexingMemoryStage → Nat
  usedBytes : Nat
  stageUsedBytes : IndexingMemoryStage → Nat

inductive CreditRefusal where
  | replayRequired (neededBytes availableBytes : Nat)
  | invalid (error : IndexError)
  | noPermit

/-- What an operation leaves: the credits, and permits in place of its own. -/
abbrev CreditResult := Except CreditRefusal (IndexingMemoryCredits × List IndexingMemoryPermit)

namespace IndexingMemoryCredits

def new (totalLimitBytes : Nat) (limits : IndexingMemoryStage → Nat) :
    Except IndexError IndexingMemoryCredits := do
  let stageLimitBytes := IndexingMemoryStage.all.map limits
  rejectIf (totalLimitBytes = 0 ∨ 0 ∈ stageLimitBytes ∨
    (stageLimitBytes.any fun limit => limit > totalLimitBytes) = true)
    (.invalidDefinition "indexing pipeline memory limits are invalid")
  pure ⟨totalLimitBytes, limits, 0, fun _ => 0⟩

variable (self : IndexingMemoryCredits) (stage : IndexingMemoryStage) (bytes : Nat)

def stageAvailable : Nat :=
  self.stageLimitBytes stage - self.stageUsedBytes stage

def available : Nat :=
  min (self.totalLimitBytes - self.usedBytes) (self.stageAvailable stage)

def chargeStage : IndexingMemoryCredits :=
  let used := self.stageUsedBytes
  { self with stageUsedBytes := Function.update used stage (used stage + bytes) }

def releaseStage : Option IndexingMemoryCredits :=
  let used := self.stageUsedBytes
  if bytes ≤ used stage then
    some { self with stageUsedBytes := Function.update used stage (used stage - bytes) }
  else
    none

/-- Adds to the total and to the usage of a stage. -/
def charge : IndexingMemoryCredits :=
  { self with usedBytes := self.usedBytes + bytes }.chargeStage stage bytes

/-- Subtracts from the total and from the usage of a stage. -/
def release : Option IndexingMemoryCredits :=
  if bytes ≤ self.usedBytes then
    { self with usedBytes := self.usedBytes - bytes }.releaseStage stage bytes
  else
    none

def acquire : CreditResult :=
  if bytes > self.available stage then
    .error (.replayRequired bytes (self.available stage))
  else
    .ok (self.charge stage bytes, [⟨stage, bytes⟩])

variable (permit : IndexingMemoryPermit)

def growTo : CreditResult :=
  if bytes ≤ permit.bytes then
    .ok (self, [permit])
  else if bytes - permit.bytes > self.available permit.stage then
    .error (.replayRequired (bytes - permit.bytes) (self.available permit.stage))
  else
    .ok (self.charge permit.stage (bytes - permit.bytes), [{ permit with bytes }])

def shrinkTo : Option CreditResult :=
  if bytes > permit.bytes then
    some (.error (.invalid
      (.invalidDefinition "indexing memory permit cannot grow without admission")))
  else
    (self.release permit.stage (permit.bytes - bytes)).map fun state =>
      .ok (state, [{ permit with bytes }])

/-- Moves a permit to another stage; the total does not change. -/
def transfer (destination : IndexingMemoryStage) : Option CreditResult :=
  if permit.bytes > self.stageAvailable destination then
    some (.error (.replayRequired permit.bytes (self.stageAvailable destination)))
  else
    (self.releaseStage permit.stage permit.bytes).map fun state =>
      .ok (state.chargeStage destination permit.bytes, [{ permit with stage := destination }])

def drop : Option CreditResult :=
  (self.release permit.stage permit.bytes).map fun state => .ok (state, [])

end IndexingMemoryCredits

inductive PermitAction where
  | growTo (bytes : Nat)
  | shrinkTo (bytes : Nat)
  | transfer (destination : IndexingMemoryStage)
  | drop

def IndexingMemoryCredits.operate (self : IndexingMemoryCredits) (permit : IndexingMemoryPermit) :
    PermitAction → Option CreditResult
  | .growTo bytes => some (self.growTo bytes permit)
  | .shrinkTo bytes => self.shrinkTo bytes permit
  | .transfer destination => self.transfer permit destination
  | .drop => self.drop permit

/-- A permit is named by its place among those alive. -/
inductive CreditAction where
  | acquire (stage : IndexingMemoryStage) (bytes : Nat)
  | permit (place : Nat) (action : PermitAction)

structure CreditPool where
  credits : IndexingMemoryCredits
  permits : List IndexingMemoryPermit

namespace CreditPool

/-- Stores what an operation left beside the other permits. -/
def settle (pool : CreditPool) (others : List IndexingMemoryPermit) :
    CreditResult → CreditPool × Except CreditRefusal Unit
  | .ok (credits, next) => (⟨credits, next ++ others⟩, .ok ())
  | .error refusal => (pool, .error refusal)

def step (pool : CreditPool) : CreditAction → Option (CreditPool × Except CreditRefusal Unit)
  | .acquire stage bytes => some (pool.settle pool.permits (pool.credits.acquire stage bytes))
  | .permit place action =>
    match pool.permits[place]? with
    | some permit =>
      (pool.credits.operate permit action).map (pool.settle (pool.permits.eraseIdx place))
    | none => some (pool, .error .noPermit)

def run (pool : CreditPool) : List CreditAction → Option CreditPool
  | [] => some pool
  | action :: rest => (pool.step action).bind fun result => result.1.run rest

end CreditPool

/-! The total and the stages are the accounts of a pool; the total is `none`. -/

namespace IndexingMemoryCredits

def limit (self : IndexingMemoryCredits) : Option IndexingMemoryStage → Nat
  | none => self.totalLimitBytes
  | some stage => self.stageLimitBytes stage

def usage (self : IndexingMemoryCredits) : Option IndexingMemoryStage → Nat
  | none => self.usedBytes
  | some stage => self.stageUsedBytes stage

end IndexingMemoryCredits

/-- What the permits of an account hold. -/
def held (account : Option IndexingMemoryStage) (permits : List IndexingMemoryPermit) : Nat :=
  ((permits.filter fun permit => account.all (permit.stage = ·)).map (·.bytes)).sum

/-- Every account uses what its permits hold, within its limit. -/
structure Conserved (bound : Option IndexingMemoryStage → Nat) (credits : IndexingMemoryCredits)
    (permits : List IndexingMemoryPermit) : Prop where
  limit_eq : credits.limit = bound
  usage_eq : ∀ account, credits.usage account = held account permits
  usage_le : ∀ account, credits.usage account ≤ bound account

theorem held_cons {account : Option IndexingMemoryStage} {others : List IndexingMemoryPermit} :
    held account (⟨stage, bytes⟩ :: others) =
    (if account.all (stage = ·) then bytes else 0) + held account others := by
  by_cases h : account.all (stage = ·)
  · simp [held, h]
  · simp [held, h]

theorem held_eraseIdx {place : Nat} {account : Option IndexingMemoryStage}
    {permits : List IndexingMemoryPermit} (h : permits[place]? = some permit) :
    held account (permit :: permits.eraseIdx place) = held account permits := by
  obtain ⟨hplace, rfl⟩ := List.getElem?_eq_some_iff.mp h
  exact (((List.getElem_cons_eraseIdx_perm hplace).filter _).map _).sum_nat

namespace Conserved

open IndexingMemoryCredits

theorem cons_zero {bound : Option IndexingMemoryStage → Nat} {credits : IndexingMemoryCredits}
    {others : List IndexingMemoryPermit}
    (stage : IndexingMemoryStage) : Conserved bound credits (⟨stage, 0⟩ :: others) ↔
    Conserved bound credits others := by
  constructor
  all_goals
    rintro ⟨hlimit, husage, hle⟩
    exact ⟨hlimit, by simpa [held_cons] using husage, hle⟩

/-- Charging an available amount pays for a permit's growth. -/
theorem charge {bound : Option IndexingMemoryStage → Nat} {credits : IndexingMemoryCredits}
    {others : List IndexingMemoryPermit}
    (h : Conserved bound credits (⟨stage, bytes⟩ :: others)) (more : Nat)
    (hroom : more ≤ credits.available stage) :
    Conserved bound (credits.charge stage more) (⟨stage, bytes + more⟩ :: others) := by
  obtain ⟨rfl, husage, hle⟩ := h
  have hroom := le_min_iff.mp hroom
  refine ⟨rfl, fun account => ?_, fun account => ?_⟩
  all_goals
    have hle := hle account
    simp only [held_cons] at husage ⊢
    all_goals
      simp only [IndexingMemoryCredits.charge, chargeStage, stageAvailable, usage, limit,
        Function.update_apply] at *
      grind

/-- A part of a permit is released without underflow. -/
theorem release {bound : Option IndexingMemoryStage → Nat} {credits : IndexingMemoryCredits}
    {others : List IndexingMemoryPermit}
    (h : Conserved bound credits (⟨stage, bytes⟩ :: others)) (hless : less ≤ bytes) :
    ∃ next, credits.release stage less = some next ∧
    Conserved bound next (⟨stage, bytes - less⟩ :: others) := by
  obtain ⟨rfl, husage, hle⟩ := h
  have htotal := husage none
  have hstage := husage (some stage)
  simp only [held_cons, Option.all_none, Option.all_some, decide_true, if_true] at htotal hstage
  have hused : less ≤ credits.usedBytes := by grind [usage]
  have hstageUsed : less ≤ credits.stageUsedBytes stage := by grind [usage]
  refine ⟨_, (if_pos hused).trans (if_pos hstageUsed), rfl, fun account => ?_, fun account => ?_⟩
  all_goals
    simp only [held_cons] at husage ⊢
    all_goals
      simp only [usage, Function.update_apply] at *
      grind

theorem transfer {bound : Option IndexingMemoryStage → Nat} {credits : IndexingMemoryCredits}
    {others : List IndexingMemoryPermit}
    (h : Conserved bound credits (permit :: others))
    (destination : IndexingMemoryStage)
    (hroom : permit.bytes ≤ credits.stageAvailable destination) :
    ∃ next, credits.releaseStage permit.stage permit.bytes = some next ∧
    Conserved bound (next.chargeStage destination permit.bytes)
    ({ permit with stage := destination } :: others) := by
  obtain ⟨rfl, husage, hle⟩ := h
  obtain ⟨stage, bytes⟩ := permit
  have hstage := husage (some stage)
  simp only [held_cons, Option.all_some, decide_true, if_true] at hstage
  have hstageUsed : bytes ≤ credits.stageUsedBytes stage := by grind [usage]
  refine ⟨_, if_pos hstageUsed, rfl, fun account => ?_, fun account => ?_⟩
  all_goals
    have hle := hle account
    simp only [held_cons] at husage ⊢
    cases account
    all_goals
      simp only [chargeStage, stageAvailable, usage, limit, Function.update_apply] at *
      grind

/-- No operation on a permit underflows; what it leaves is conserved. -/
theorem operate {bound : Option IndexingMemoryStage → Nat} {credits : IndexingMemoryCredits}
    {others : List IndexingMemoryPermit}
    (h : Conserved bound credits (permit :: others)) (action : PermitAction) :
    ∃ result, credits.operate permit action = some result ∧
    ∀ left, result = .ok left → Conserved bound left.1 (left.2 ++ others) := by
  cases action with
  | growTo bytes =>
    refine ⟨_, rfl, fun left hleft => ?_⟩
    unfold growTo at hleft
    split at hleft
    · cases hleft
      exact h
    split at hleft
    · cases hleft
    cases hleft
    have hmore := h.charge (bytes - permit.bytes) (by omega)
    rwa [Nat.add_sub_of_le (by omega)] at hmore
  | shrinkTo bytes =>
    simp only [IndexingMemoryCredits.operate, shrinkTo]
    split
    · exact ⟨_, rfl, nofun⟩
    obtain ⟨next, hnext, hconserved⟩ := h.release (Nat.sub_le permit.bytes bytes)
    rw [hnext]
    refine ⟨_, rfl, fun left hleft => ?_⟩
    cases hleft
    rwa [Nat.sub_sub_self (by omega)] at hconserved
  | transfer destination =>
    simp only [IndexingMemoryCredits.operate, IndexingMemoryCredits.transfer]
    split
    · exact ⟨_, rfl, nofun⟩
    obtain ⟨next, hnext, hconserved⟩ := h.transfer destination (by omega)
    rw [hnext]
    refine ⟨_, rfl, fun left hleft => ?_⟩
    cases hleft
    exact hconserved
  | drop =>
    obtain ⟨next, hnext, hconserved⟩ := h.release (Nat.le_refl permit.bytes)
    refine ⟨_, by rw [IndexingMemoryCredits.operate, drop, hnext]; rfl, fun left hleft => ?_⟩
    cases hleft
    rwa [Nat.sub_self, cons_zero] at hconserved

variable {pool : CreditPool}

/-- A step of the pool gives a result; a refused one changes nothing. -/
theorem step {bound : Option IndexingMemoryStage → Nat}
    (h : Conserved bound pool.credits pool.permits) (action : CreditAction) :
    ∃ result, pool.step action = some result ∧ Conserved bound result.1.credits result.1.permits ∧
    ∀ refusal, result.2 = .error refusal → result.1 = pool := by
  -- every result is stored by `settle`, which keeps the pool of a refused operation
  have hsettle : ∀ others result, (∀ left, result = .ok left → Conserved bound left.1 (left.2 ++
    others)) → Conserved bound (pool.settle others result).1.credits (pool.settle others
    result).1.permits ∧ ∀ refusal, (pool.settle others result).2 = .error refusal → (pool.settle
    others result).1 = pool := by
    intro others result hresult
    cases result with
    | ok left => exact ⟨hresult left rfl, nofun⟩
    | error refusal => exact ⟨h, fun _ _ => rfl⟩
  cases action with
  | acquire stage bytes =>
    refine ⟨_, rfl, hsettle _ _ fun left hleft => ?_⟩
    unfold acquire at hleft
    split at hleft
    · cases hleft
    cases hleft
    have hmore := ((cons_zero stage).mpr h).charge bytes (by omega)
    rwa [Nat.zero_add] at hmore
  | permit place action =>
    simp only [CreditPool.step]
    cases hplace : pool.permits[place]? with
    | none => exact ⟨_, rfl, h, fun _ _ => rfl⟩
    | some permit =>
      have hpermit : Conserved bound pool.credits (permit :: pool.permits.eraseIdx place) :=
        ⟨h.limit_eq, fun account => (h.usage_eq account).trans (held_eraseIdx hplace).symm,
          h.usage_le⟩
      obtain ⟨result, hresult, hleft⟩ := hpermit.operate action
      exact ⟨_, by simp only [hresult, Option.map_some], hsettle _ result hleft⟩

theorem run {bound : Option IndexingMemoryStage → Nat}
    (h : Conserved bound pool.credits pool.permits) (actions : List CreditAction) :
    ∃ last, pool.run actions = some last ∧ Conserved bound last.credits last.permits := by
  induction actions generalizing pool with
  | nil => exact ⟨pool, rfl, h⟩
  | cons action rest ih =>
    obtain ⟨_, hstep, hnext, _⟩ := h.step action
    obtain ⟨last, hrun, hlast⟩ := ih hnext
    exact ⟨last, by rw [CreditPool.run, hstep]; exact hrun, hlast⟩

end Conserved

/-- However the operations of a pool interleave, no subtraction underflows, every usage is
what the permits alive hold and within its limit, and a refused operation changes nothing. -/
theorem memory_credits_conserved
    (total : Nat)
    (limits : IndexingMemoryStage → Nat)
    (credits : IndexingMemoryCredits)
    (hnew : IndexingMemoryCredits.new total limits = .ok credits)
    (actions : List CreditAction) :
    ∃ pool,
      CreditPool.run ⟨credits, []⟩ actions = some pool ∧
      pool.credits.usedBytes = held none pool.permits ∧
      pool.credits.usedBytes ≤ total ∧
      (∀ stage,
        pool.credits.stageUsedBytes stage = held (some stage) pool.permits ∧
        pool.credits.stageUsedBytes stage ≤ limits stage) ∧
      ∀ action, ∃ result,
        pool.step action = some result ∧
        ∀ refusal, result.2 = .error refusal → result.1 = pool := by
  simp only [IndexingMemoryCredits.new, bind_eq_ok, rejectIf_eq_ok, exists_const] at hnew
  obtain ⟨_, hnew⟩ := hnew
  cases hnew
  have hstart : Conserved (IndexingMemoryCredits.limit ⟨total, limits, 0, fun _ => 0⟩)
      (CreditPool.mk ⟨total, limits, 0, fun _ => 0⟩ []).credits [] := by
    refine ⟨rfl, fun account => ?_, fun account => ?_⟩
    · cases account <;> rfl
    · cases account <;> exact Nat.zero_le _
  obtain ⟨pool, hrun, hpool⟩ := hstart.run actions
  refine ⟨pool, hrun, hpool.usage_eq none, hpool.usage_le none,
    fun stage => ⟨hpool.usage_eq (some stage), hpool.usage_le (some stage)⟩, fun action => ?_⟩
  obtain ⟨result, hstep, _, hrefused⟩ := hpool.step action
  exact ⟨result, hstep, hrefused⟩

/-- A permit grows and moves to another stage while a second one is taken. -/
def sharedPool : List CreditAction :=
  [.acquire .hotPayload 4, .permit 0 (.growTo 6), .permit 0 (.transfer .replayInput),
    .acquire .hotPayload 3]

theorem memory_credits_conserved_one :
    ∃ pool, CreditPool.run ⟨⟨10, fun _ => 6, 0, fun _ => 0⟩, []⟩ sharedPool = some pool ∧
      pool.credits.usedBytes = held none pool.permits ∧
      pool.permits.map IndexingMemoryPermit.bytes = [3, 6] := by
  obtain ⟨pool, hrun, hused, _⟩ := memory_credits_conserved 10 (fun _ => 6) _ rfl sharedPool
  refine ⟨pool, hrun, hused, ?_⟩
  have halive : (CreditPool.run ⟨⟨10, fun _ => 6, 0, fun _ => 0⟩, []⟩ sharedPool).map
      (fun pool => pool.permits.map IndexingMemoryPermit.bytes) = some [3, 6] := by
    decide
  rw [hrun] at halive
  exact Option.some.inj halive

end Keldra.Index
