import Mathlib.Order.Nat
import Steel.Chunk.StatusWork
import Steel.Lib.Threads

/-!
# Claims, publications and waiters stay in step

At most one claim is not published, and it is for the status after the published one. While there is
such a claim the started work is its status, or what its producer is about to publish; otherwise the
started work is the published status.
-/

namespace Steel

open Threads Option Function

/-! ### Ranks -/

theorem statusRank_injective : Injective statusRank := by
  intro left right h
  cases left with
  | none => cases right with
    | none => rfl
    | some status => cases h
  | some left => cases right with
    | none => cases h
    | some right =>
      have hindex := congrArg ChunkStatus.fromIndex (Nat.succ.inj h)
      rwa [ChunkStatus.fromIndex_getIndex, ChunkStatus.fromIndex_getIndex] at hindex

theorem statusRank_parent (status : ChunkStatus) :
    statusRank status.parent + 1 = statusRank (some status) := by
  cases status <;> rfl

theorem statusRank_parent_lt (status : ChunkStatus) :
    statusRank status.parent < statusRank (some status) := by
  have := statusRank_parent status
  omega

theorem statusRank_empty_le (status : ChunkStatus) :
    statusRank (some .empty) ≤ statusRank (some status) :=
  Nat.succ_le_succ (Nat.zero_le _)

/-! ### Claims -/

namespace ProducerStage

/-- The status of a claim that is not published. -/
def openClaim : ProducerStage → Option ChunkStatus
  | .working status => some status
  | .marking status _ => some status
  | .exchanging status _ _ => some status
  | .publishing status _ => some status
  | .abandoning status => some status
  | .rollingBack status _ => some status
  | _ => none

/-- The status of a claim that is published and not dropped yet. -/
def closedClaim : ProducerStage → Option ChunkStatus
  | .notifying status => some status
  | .published status => some status
  | .dropping status => some status
  | _ => none

/-- The started work while the claim is not published. -/
def started : ProducerStage → Option ChunkStatus
  | .publishing status publication => some (publication.target status)
  | stage => stage.openClaim

/-- What a producer remembers of earlier operations. -/
def Remembers (published : Option ChunkStatus) : ProducerStage → Prop
  | .marking status (.stored _) => status = .empty
  | .exchanging status (.stored _) current => status = .empty ∧ current = some status
  | .exchanging status .generated current => current = some status
  | .publishing status (.stored _) => status = .empty
  | .rollingBack _ rollback => rollback = published
  | _ => True

def claim (stage : ProducerStage) : Option ChunkStatus := stage.openClaim.or stage.closedClaim

theorem rank_le_started {stage : ProducerStage} {status : ChunkStatus}
    {published : Option ChunkStatus} (hremembers : stage.Remembers published)
    (hopen : stage.openClaim = some status) :
    statusRank (some status) ≤ statusRank stage.started := by
  cases stage with
  | publishing claimed publication =>
    cases hopen
    cases publication with
    | generated => exact le_rfl
    | stored loaded =>
      cases hremembers
      exact statusRank_empty_le loaded
  | _ => exact hopen ▸ le_rfl

end ProducerStage

open ProducerStage

/-- What a producer at a stage relies on. `owner` is the producer whose claim is not published. -/
structure Fits (published started : Option ChunkStatus) (owner : Option ℕ) (producer : ℕ)
    (stage : ProducerStage) : Prop where
  owns : ∀ status, stage.openClaim = some status →
    owner = some producer ∧ published = status.parent ∧ started = stage.started
  closed : ∀ status, stage.closedClaim = some status →
    statusRank (some status) ≤ statusRank published
  remembers : stage.Remembers published

namespace Fits

variable {published published' started started' : Option ChunkStatus} {owner owner' : Option ℕ}
  {producer : ℕ} {stage : ProducerStage} {status : ChunkStatus}

/-- Only the owner is concerned by what other producers do, as long as no status is withdrawn. -/
theorem of_not_owner (h : Fits published started owner producer stage)
    (howner : owner ≠ some producer) (hle : statusRank published ≤ statusRank published') :
    Fits published' started' owner' producer stage := by
  have hnone : stage.openClaim = none := by
    by_contra hopen
    obtain ⟨status, hstatus⟩ := ne_none_iff_exists'.mp hopen
    exact howner (h.owns status hstatus).1
  refine ⟨?_, fun status hstatus => (h.closed status hstatus).trans hle, ?_⟩
  · intro status hstatus
    rw [hnone] at hstatus
    cases hstatus
  · cases stage with
    | idle | notifying | published | dropping | waking => trivial
    | _ => cases hnone

/-- A claim that is not published is for a status above the published one. -/
theorem lt_of_open (h : Fits published started owner producer stage)
    (hopen : stage.openClaim = some status) :
    statusRank published < statusRank (some status) := by
  rw [(h.owns status hopen).2.1]
  exact statusRank_parent_lt status

theorem lt_started (h : Fits published started owner producer stage)
    (hopen : stage.openClaim = some status) : statusRank published < statusRank started := by
  rw [(h.owns status hopen).2.2]
  exact (h.lt_of_open hopen).trans_le (rank_le_started h.remembers hopen)

end Fits

namespace StatusWork

structure Claims (owner : Option ℕ) (work : StatusWork) : Prop where
  fits : ∀ producer, Fits work.publishedStatus work.startedWork owner producer
    (work.producers producer)
  settled : owner = none → work.startedWork = work.publishedStatus
  owned : ∀ producer, owner = some producer → (work.producers producer).openClaim ≠ none
  closed_unique : ∀ producer other status, (work.producers producer).closedClaim = some status →
    (work.producers other).closedClaim = some status → producer = other

theorem new_claims (highestAllowedStatus : Option ChunkStatus) :
    Claims none (new highestAllowedStatus) where
  fits _ :=
    { owns := fun _ h => by cases h
      closed := fun _ h => by cases h
      remembers := trivial }
  settled _ := rfl
  owned _ h := by cases h
  closed_unique _ _ _ h := by cases h

namespace Claims

variable {owner : Option ℕ} {work after : StatusWork} {producer : ℕ} {status : ChunkStatus}

/-- The published status never exceeds the started work. -/
theorem published_le_started (h : Claims owner work) :
    statusRank work.publishedStatus ≤ statusRank work.startedWork := by
  cases owner with
  | none => exact (congrArg statusRank (h.settled rfl)).ge
  | some producer =>
    obtain ⟨status, hstatus⟩ := ne_none_iff_exists'.mp (h.owned producer rfl)
    exact ((h.fits producer).lt_started hstatus).le

/-- Nobody owns work that is no further than what is published. -/
theorem owner_eq_none (h : Claims owner work)
    (hle : statusRank work.startedWork ≤ statusRank work.publishedStatus) : owner = none := by
  cases owner with
  | none => rfl
  | some producer =>
    obtain ⟨status, hstatus⟩ := ne_none_iff_exists'.mp (h.owned producer rfl)
    exact absurd hle ((h.fits producer).lt_started hstatus).not_ge

variable {stage : ProducerStage}

/-- Published claims stay apart when a step adds none. -/
theorem closed_unique_update (h : Claims owner work)
    (hclosed : ∀ status, stage.closedClaim = some status →
      (work.producers producer).closedClaim = some status) (first second : ℕ) (status : ChunkStatus)
    (hfirst : (update work.producers producer stage first).closedClaim = some status)
    (hsecond : (update work.producers producer stage second).closedClaim = some status) :
    first = second := by
  have himp := forall_update (fun other (stage : ProducerStage) => ∀ status,
    stage.closedClaim = some status → (work.producers other).closedClaim = some status) hclosed
    fun _ _ _ => id
  exact h.closed_unique first second status (himp first status hfirst) (himp second status hsecond)

theorem fits_of_stage (h : Claims owner work) (hstage : work.producers producer = stage) :
    Fits work.publishedStatus work.startedWork owner producer stage := hstage ▸ h.fits producer

theorem not_owner (_ : Claims owner work) (howner : owner = some producer) {other : ℕ}
    (hne : other ≠ producer) : owner ≠ some other := by
  rw [howner]
  simpa using hne.symm

/-- The owner moves on and keeps its claim. -/
theorem moveOwner (h : Claims owner work) (stage : ProducerStage)
    (hstage : (work.producers producer).openClaim = some status)
    (hopen : stage.openClaim = some status) (hclosed : stage.closedClaim = none)
    (hstarted : after.startedWork = stage.started)
    (hremembers : stage.Remembers work.publishedStatus)
    (hpublished : after.publishedStatus = work.publishedStatus)
    (hproducers : after.producers = update work.producers producer stage) :
    Claims owner after := by
  obtain ⟨howner, hparent, -⟩ := (h.fits producer).owns status hstage
  have hfits : Fits after.publishedStatus after.startedWork owner producer stage := by
    rw [hpublished]
    refine ⟨fun claimed hclaimed => ?_, fun claimed hclaimed => ?_, hremembers⟩
    · rw [hopen] at hclaimed
      cases hclaimed
      exact ⟨howner, hparent, hstarted⟩
    · rw [hclosed] at hclaimed
      cases hclaimed
  refine
    { fits := ?_
      settled := fun hnone => ?_
      owned := ?_
      closed_unique := ?_ }
  · rw [hproducers]
    refine forall_update (Fits after.publishedStatus after.startedWork owner) hfits ?_
    intro other hne
    exact (h.fits other).of_not_owner (h.not_owner howner hne) (congrArg statusRank hpublished).ge
  · rw [hnone] at howner
    cases howner
  · intro other hother
    rw [howner, Option.some.injEq] at hother
    subst hother
    rw [hproducers, update_self, hopen]
    simp
  · rw [hproducers]
    refine h.closed_unique_update fun claimed hclaimed => ?_
    rw [hclosed] at hclaimed
    cases hclaimed

/-- A producer without an unpublished claim moves on, and leaves or drops a published one. -/
theorem moveOther (h : Claims owner work)
    (hstage : (work.producers producer).openClaim = none) (hopen : stage.openClaim = none)
    (hclosed : ∀ status, stage.closedClaim = some status →
      (work.producers producer).closedClaim = some status)
    (hremembers : stage.Remembers work.publishedStatus) :
    Claims owner (work.setProducer producer stage) where
  fits := by
    refine forall_update (Fits work.publishedStatus work.startedWork owner) ?_
      fun other _ => h.fits other
    refine ⟨fun status hstatus => ?_, fun status hstatus => ?_, hremembers⟩
    · rw [hopen] at hstatus
      cases hstatus
    · exact (h.fits producer).closed status (hclosed status hstatus)
  settled := h.settled
  owned other hother := by
    have hne : other ≠ producer := by
      intro heq
      subst heq
      exact h.owned other hother hstage
    change (update work.producers producer stage other).openClaim ≠ none
    rw [update_of_ne hne]
    exact h.owned other hother
  closed_unique := h.closed_unique_update hclosed

/-- Notifications change nothing about claims. -/
theorem notifyWaiters (h : Claims owner work) : Claims owner work.notifyWaiters :=
  ⟨h.fits, h.settled, h.owned, h.closed_unique⟩

theorem claim (h : Claims owner work)
    (hparent : statusRank status.parent ≤ statusRank work.publishedStatus)
    (hstarted : work.startedWork = status.parent) :
    Claims (some producer)
      ({ work with startedWork := some status }.setProducer producer (.working status)) := by
  have hnone : owner = none := h.owner_eq_none (hstarted ▸ hparent)
  have hpublished : work.publishedStatus = status.parent :=
    (h.settled hnone).symm.trans hstarted
  refine
    { fits := ?_
      settled := fun hsettled => by cases hsettled
      owned := ?_
      closed_unique := ?_ }
  · refine forall_update (Fits work.publishedStatus (some status) (some producer)) ?_ ?_
    · refine ⟨fun claimed hclaimed => ?_, fun claimed hclaimed => ?_, trivial⟩
      · cases hclaimed
        exact ⟨rfl, hpublished, rfl⟩
      · cases hclaimed
    · exact fun other _ => (h.fits other).of_not_owner (by simp [hnone]) le_rfl
  · intro other hother
    cases hother
    change (update work.producers producer (.working status) producer).openClaim ≠ none
    rw [update_self]
    exact some_ne_none status
  · exact h.closed_unique_update fun claimed hclaimed => by cases hclaimed

/-- The owner publishes what it started. -/
theorem publish (h : Claims owner work) {target : ChunkStatus}
    (hstage : (work.producers producer).openClaim = some status)
    (hstarted : work.startedWork = some target)
    (htarget : statusRank (some status) ≤ statusRank (some target)) :
    Claims none
      ({ work with publishedStatus := some target }.setProducer producer (.notifying status)) := by
  have hfits := h.fits producer
  obtain ⟨howner, -, -⟩ := hfits.owns status hstage
  have hlt : statusRank work.publishedStatus < statusRank (some status) := hfits.lt_of_open hstage
  -- A claim that was published before is for a lower status.
  have hother : ∀ other, (work.producers other).closedClaim ≠ some status := fun other hclosed =>
    absurd ((h.fits other).closed status hclosed) hlt.not_ge
  refine
    { fits := ?_
      settled := fun _ => hstarted
      owned := fun _ hother => by cases hother
      closed_unique := ?_ }
  · refine forall_update (Fits (some target) work.startedWork none) ?_ ?_
    · refine ⟨fun claimed hclaimed => ?_, fun claimed hclaimed => ?_, trivial⟩
      · cases hclaimed
      · cases hclaimed
        exact htarget
    · exact fun other hne => (h.fits other).of_not_owner (h.not_owner howner hne)
        (hlt.le.trans htarget)
  · have hnew : ∀ claimed, (ProducerStage.notifying status).closedClaim = some claimed →
        claimed = status := fun _ hclaimed => (Option.some.inj hclaimed).symm
    have hcases := forall_update (fun other (stage : ProducerStage) => ∀ claimed,
      stage.closedClaim = some claimed → other = producer ∧ claimed = status ∨
        (work.producers other).closedClaim = some claimed)
      (fun claimed hclaimed => Or.inl ⟨rfl, hnew claimed hclaimed⟩)
      fun _ _ _ hclaimed => Or.inr hclaimed
    intro first second claimed hfirst hsecond
    obtain ⟨rfl, rfl⟩ | hfirstOld := hcases first claimed hfirst
    · obtain ⟨rfl, -⟩ | hsecondOld := hcases second _ hsecond
      · rfl
      · exact absurd hsecondOld (hother second)
    · obtain ⟨rfl, rfl⟩ | hsecondOld := hcases second claimed hsecond
      · exact absurd hfirstOld (hother first)
      · exact h.closed_unique first second claimed hfirstOld hsecondOld

/-- The owner rolls its claim back. -/
theorem rollBack (h : Claims owner work)
    (hstage : (work.producers producer).openClaim = some status) :
    Claims none
      ({ work with startedWork := work.publishedStatus }.setProducer producer .waking) := by
  obtain ⟨howner, -, -⟩ := (h.fits producer).owns status hstage
  refine
    { fits := ?_
      settled := fun _ => rfl
      owned := fun _ hother => by cases hother
      closed_unique := ?_ }
  · refine forall_update (Fits work.publishedStatus work.publishedStatus none) ?_ ?_
    · refine ⟨fun claimed hclaimed => ?_, fun claimed hclaimed => ?_, trivial⟩
      · cases hclaimed
      · cases hclaimed
    · exact fun other hne => (h.fits other).of_not_owner (h.not_owner howner hne) le_rfl
  · exact h.closed_unique_update fun claimed hclaimed => by cases hclaimed

/-- Every step of a producer keeps the claims in order, with the next owner. -/
theorem producerStep (h : Claims owner work) (hstep : ProducerStep work after) :
    ∃ owner', Claims owner' after := by
  cases hstep with
  | claim producer status hidle hparent hclaimed =>
    have hstarted : work.startedWork = status.parent := by
      unfold claimStatusWork at hclaimed
      split at hclaimed
      · assumption
      · split at hclaimed <;> cases hclaimed
    have hresult : (work.claimStatusWork status).2 = some status := by
      rw [claimStatusWork, if_pos hstarted]
    rw [hresult]
    exact ⟨_, h.claim hparent hstarted⟩
  | @finish producer status hstage =>
    have hstarted := ((h.fits_of_stage hstage).owns status rfl).2.2
    exact ⟨_, h.moveOwner (.marking status .generated) (congrArg openClaim hstage) rfl rfl hstarted
      trivial rfl rfl⟩
  | store producer loaded hstage hunpublished =>
    have hstarted := ((h.fits_of_stage hstage).owns .empty rfl).2.2
    exact ⟨_, h.moveOwner (.marking .empty (.stored loaded)) (congrArg openClaim hstage) rfl rfl
      hstarted rfl rfl rfl⟩
  | @loadStarted producer status publication hstage =>
    have hfits := h.fits_of_stage hstage
    have hstarted := (hfits.owns status rfl).2.2
    refine ⟨_, h.moveOwner (.exchanging status publication work.startedWork)
      (congrArg openClaim hstage) rfl rfl hstarted ?_ rfl rfl⟩
    cases publication with
    | generated => exact hstarted
    | stored loaded => exact ⟨hfits.remembers, hstarted⟩
  | @markCovered producer status publication current hstage hcovered =>
    have hfits := h.fits_of_stage hstage
    have hstarted := (hfits.owns status rfl).2.2
    cases publication with
    | generated =>
      exact ⟨_, h.moveOwner (.publishing status .generated) (congrArg openClaim hstage) rfl rfl
        hstarted trivial rfl rfl⟩
    | stored loaded =>
      obtain ⟨rfl, rfl⟩ := hfits.remembers
      have hloaded : some loaded = some .empty :=
        statusRank_injective (le_antisymm hcovered (statusRank_empty_le loaded))
      exact ⟨_, h.moveOwner (.publishing .empty (.stored loaded)) (congrArg openClaim hstage) rfl
        rfl (hstarted.trans hloaded.symm) rfl rfl rfl⟩
  | @exchange producer status publication current hstage hbelow hcurrent =>
    have hremembers := (h.fits_of_stage hstage).remembers
    refine ⟨_, h.moveOwner (.publishing status publication) (congrArg openClaim hstage) rfl rfl rfl
      ?_ rfl rfl⟩
    cases publication with
    | generated => trivial
    | stored loaded => exact hremembers.1
  | @exchangeFailed producer status publication current hstage hbelow hcurrent =>
    have hfits := h.fits_of_stage hstage
    have hstarted := (hfits.owns status rfl).2.2
    -- The started work is the claimed status, as it was when it was loaded.
    have hsame : work.startedWork = current := by
      cases publication with
      | generated => exact hstarted.trans hfits.remembers.symm
      | stored loaded => exact hstarted.trans hfits.remembers.2.symm
    exact absurd hsame hcurrent
  | @publishGenerated producer status hstage =>
    have hfits := h.fits_of_stage hstage
    rw [if_pos (hfits.lt_of_open rfl)]
    exact ⟨_, h.publish (congrArg openClaim hstage) (hfits.owns status rfl).2.2 le_rfl⟩
  | @publishStored producer status loaded hstage =>
    have hfits := h.fits_of_stage hstage
    cases hfits.remembers
    exact ⟨_, h.publish (congrArg openClaim hstage) (hfits.owns .empty rfl).2.2
      (statusRank_empty_le loaded)⟩
  | notify producer hstage =>
    refine ⟨_, h.notifyWaiters.moveOther (congrArg openClaim hstage) rfl ?_ trivial⟩
    exact fun _ hclosed => (congrArg closedClaim hstage).trans hclosed
  | @abandon producer status hstage =>
    have hstarted := ((h.fits_of_stage hstage).owns status rfl).2.2
    exact ⟨_, h.moveOwner (.abandoning status) (congrArg openClaim hstage) rfl rfl hstarted trivial
      rfl rfl⟩
  | drop producer hstage =>
    refine ⟨_, h.moveOther (congrArg openClaim hstage) rfl ?_ trivial⟩
    exact fun _ hclosed => (congrArg closedClaim hstage).trans hclosed
  | releasePublished producer hstage hpublished =>
    obtain hstage | hstage := hstage
    · exact absurd hpublished ((h.fits_of_stage hstage).lt_of_open rfl).not_ge
    · exact ⟨_, h.moveOther (congrArg openClaim hstage) rfl (fun _ hclosed => by cases hclosed)
        trivial⟩
  | @releaseUnpublished producer status hstage hunpublished =>
    obtain hstage | hstage := hstage
    · have hstarted := ((h.fits_of_stage hstage).owns status rfl).2.2
      exact ⟨_, h.moveOwner (.rollingBack status work.publishedStatus) (congrArg openClaim hstage)
        rfl rfl hstarted rfl rfl rfl⟩
    · exact absurd ((h.fits_of_stage hstage).closed status rfl) hunpublished.not_ge
  | rollBack producer hstage hcurrent =>
    cases (h.fits_of_stage hstage).remembers
    exact ⟨_, h.rollBack (congrArg openClaim hstage)⟩
  | @rollBackFailed producer status rollback hstage hcurrent =>
    exact absurd ((h.fits_of_stage hstage).owns status rfl).2.2 hcurrent
  | wake producer hstage =>
    exact ⟨_, h.notifyWaiters.moveOther (congrArg openClaim hstage) rfl
      (fun _ hclosed => by cases hclosed) trivial⟩

end Claims

/-! ### Waiters -/

def IsNotifying (stage : ProducerStage) : Prop := ∃ status, stage = .notifying status

variable (work : StatusWork)

/-- The status is not published, or the notification of a publication is under way. -/
def Unpublished (status : ChunkStatus) : Prop :=
  statusRank work.publishedStatus < statusRank (some status) ∨ Any work.producers IsNotifying

/-- Work covers the status, or the wake-up of a rollback is under way. -/
def Covered (status : ChunkStatus) : Prop :=
  statusRank (some status) ≤ statusRank work.startedWork ∨ Any work.producers (· = .waking)

/-- What a waiter without a notification has seen is still so. -/
def Expects : WaiterStage → Prop
  | .unpublished status false => work.Unpublished status
  | .allowed status false => work.Unpublished status ∧ work.wokenDisallowed status = false
  | .parked status false =>
    work.Unpublished status ∧ work.wokenDisallowed status = false ∧ work.Covered status
  | _ => True

structure Waits (work : StatusWork) : Prop where
  expects : ∀ waiter, work.Expects (work.waiters waiter)
  woken : ∀ status, work.wokenDisallowed status → work.isStatusDisallowed status

theorem new_waits (highestAllowedStatus : Option ChunkStatus) :
    Waits (new highestAllowedStatus) where
  expects _ := trivial
  woken _ h := by cases h

theorem expects_notify (stage : WaiterStage) : work.Expects stage.notify := by
  cases stage <;> trivial

section Waits

variable {work after : StatusWork} {stage : WaiterStage}

theorem Expects.mono (h : work.Expects stage)
    (hunpublished : ∀ status, work.Unpublished status → after.Unpublished status)
    (hcovered : ∀ status, work.Covered status → after.Covered status)
    (hwoken : ∀ status, work.wokenDisallowed status = false →
      after.wokenDisallowed status = false) : after.Expects stage := by
  cases stage with
  | unpublished status notified =>
    cases notified with
    | true => trivial
    | false => exact hunpublished status h
  | allowed status notified =>
    cases notified with
    | true => trivial
    | false => exact ⟨hunpublished status h.1, hwoken status h.2⟩
  | parked status notified =>
    cases notified with
    | true => trivial
    | false => exact ⟨hunpublished status h.1, hwoken status h.2.1, hcovered status h.2.2⟩
  | _ => trivial

theorem Waits.mono (h : work.Waits) (hwaiters : after.waiters = work.waiters)
    (hunpublished : ∀ status, work.Unpublished status → after.Unpublished status)
    (hcovered : ∀ status, work.Covered status → after.Covered status)
    (hwoken : after.wokenDisallowed = work.wokenDisallowed)
    (hallowed : after.highestAllowedStatus = work.highestAllowedStatus) : after.Waits := by
  constructor
  · intro waiter
    rw [hwaiters]
    exact (h.expects waiter).mono hunpublished hcovered fun status hstatus => by rwa [hwoken]
  · intro status hstatus
    rw [hwoken] at hstatus
    rw [isStatusDisallowed, hallowed]
    exact h.woken status hstatus

theorem Waits.notifyWaiters (h : work.Waits) : work.notifyWaiters.Waits where
  expects _ := expects_notify _ _
  woken status hstatus := (Bool.or_eq_true _ _ ▸ hstatus).elim (h.woken status) id

/-- A producer moves on between stages that no waiter looks at. -/
theorem Waits.setProducer (h : work.Waits) {producer : ℕ} {stage : ProducerStage}
    (hnotifying : ¬ IsNotifying (work.producers producer))
    (hwaking : work.producers producer ≠ .waking) : (work.setProducer producer stage).Waits :=
  h.mono rfl
    (fun _ hunpublished => hunpublished.imp_right fun hany => hany.update (absurd · hnotifying))
    (fun _ hcovered => hcovered.imp_right fun hany => hany.update (absurd · hwaking)) rfl rfl

theorem Waits.producerStep {owner : Option ℕ} (h : work.Waits) (hclaims : Claims owner work)
    (hstep : ProducerStep work after) : after.Waits := by
  cases hstep with
  | claim producer status hidle hparent hclaimed =>
    refine h.mono rfl ?_ ?_ rfl rfl
    · exact fun _ hunpublished => hunpublished.imp_right fun hany =>
        hany.update (by simp [hidle, IsNotifying])
    · intro waited hcovered
      refine hcovered.imp (fun hle => hle.trans ?_) fun hany => hany.update (by simp [hidle])
      change statusRank work.startedWork ≤ statusRank (work.claimStatusWork status).2
      unfold claimStatusWork
      split
      case isTrue hstarted =>
        rw [hstarted]
        exact (statusRank_parent_lt status).le
      case isFalse => split <;> exact le_rfl
  | @exchange producer status publication current hstage hbelow hcurrent =>
    refine h.mono rfl ?_ ?_ rfl rfl
    · exact fun _ hunpublished => hunpublished.imp_right fun hany =>
        hany.update (by simp [hstage, IsNotifying])
    · refine fun _ hcovered => hcovered.imp (fun hle => hle.trans ?_) fun hany =>
        hany.update (by simp [hstage])
      rw [hcurrent]
      exact hbelow.le
  | @publishGenerated producer status hstage =>
    rw [if_pos ((hclaims.fits_of_stage hstage).lt_of_open rfl)]
    exact h.mono rfl (fun _ _ => Or.inr (.of_update ⟨status, rfl⟩))
      (fun _ hcovered => hcovered.imp_right fun hany => hany.update (by simp [hstage])) rfl rfl
  | @publishStored producer status loaded hstage =>
    exact h.mono rfl (fun _ _ => Or.inr (.of_update ⟨status, rfl⟩))
      (fun _ hcovered => hcovered.imp_right fun hany => hany.update (by simp [hstage])) rfl rfl
  | rollBack producer hstage hcurrent =>
    exact h.mono rfl (fun _ hunpublished => hunpublished.imp_right fun hany =>
      hany.update (by simp [hstage, IsNotifying])) (fun _ _ => Or.inr (.of_update rfl)) rfl rfl
  | notify =>
    -- The notification that was under way has reached every waiter.
    exact ⟨fun _ => expects_notify _ _, h.notifyWaiters.woken⟩
  | wake => exact ⟨fun _ => expects_notify _ _, h.notifyWaiters.woken⟩
  | releasePublished producer hstage =>
    obtain hstage | hstage := hstage <;>
      exact h.setProducer (by simp [hstage, IsNotifying]) (by simp [hstage])
  | releaseUnpublished producer hstage =>
    obtain hstage | hstage := hstage <;>
      exact h.setProducer (by simp [hstage, IsNotifying]) (by simp [hstage])
  | finish producer hstage | store producer loaded hstage | loadStarted producer hstage
  | markCovered producer hstage | exchangeFailed producer hstage | abandon producer hstage
  | drop producer hstage | rollBackFailed producer hstage =>
    exact h.setProducer (by simp [hstage, IsNotifying]) (by simp [hstage])

/-- A waiter moves on to a stage with expectations that hold. -/
theorem Waits.setWaiter (h : work.Waits) {waiter : ℕ} (hstage : work.Expects stage) :
    (work.setWaiter waiter stage).Waits where
  expects := forall_update (fun _ (stage : WaiterStage) => work.Expects stage) hstage
    fun other _ => h.expects other
  woken := h.woken

/-- A waiter that goes to sleep has checked everything it waits for. -/
theorem Waits.waiterStep (h : work.Waits) (hstep : WaiterStep work after) : after.Waits := by
  cases hstep with
  | create waiter status hidle => exact h.setWaiter trivial
  | @loadPublished waiter status notified hstage =>
    apply h.setWaiter
    split
    · trivial
    · cases notified with
      | true => trivial
      | false => exact Or.inl (not_le.mp ‹_›)
  | @loadAllowed waiter status notified hstage =>
    apply h.setWaiter
    split
    · trivial
    case isFalse hallowed =>
      cases notified with
      | true => trivial
      | false =>
        have hexpects := h.expects waiter
        rw [hstage] at hexpects
        exact ⟨hexpects, Bool.eq_false_iff.mpr fun hwoken => hallowed (h.woken status hwoken)⟩
  | @loadStarted waiter status notified hstage =>
    apply h.setWaiter
    split
    case isTrue hcovers =>
      cases notified with
      | true => trivial
      | false =>
        have hexpects := h.expects waiter
        rw [hstage] at hexpects
        exact ⟨hexpects.1, hexpects.2, Or.inl (of_decide_eq_true hcovers)⟩
    · trivial
  | resume waiter hstage => exact h.setWaiter trivial

theorem Waits.levelStep (h : work.Waits) (hstep : LevelStep work after) : after.Waits := by
  cases hstep with
  | updateAllowed highestAllowedStatus =>
    constructor
    · exact fun waiter => (h.expects waiter).mono (fun _ => id) (fun _ => id)
        fun status hstatus => by simp [hstatus]
    · exact fun status hstatus => (Bool.and_eq_true _ _ ▸ hstatus).2
  | wakeAllWatchers => exact h.notifyWaiters

end Waits

/-! ### Runs -/

section Runs

variable {work after : StatusWork}

theorem Reached.consistent (h : Reached work) : (∃ owner, Claims owner work) ∧ work.Waits := by
  induction h with
  | new highestAllowedStatus =>
    exact ⟨⟨none, new_claims highestAllowedStatus⟩, new_waits highestAllowedStatus⟩
  | step _ hstep ih =>
    obtain ⟨⟨owner, hclaims⟩, hwaits⟩ := ih
    cases hstep with
    | producer hstep => exact ⟨hclaims.producerStep hstep, hwaits.producerStep hclaims hstep⟩
    | waiter hstep =>
      refine ⟨⟨owner, ?_⟩, hwaits.waiterStep hstep⟩
      cases hstep <;>
        exact ⟨hclaims.fits, hclaims.settled, hclaims.owned, hclaims.closed_unique⟩
    | level hstep =>
      refine ⟨⟨owner, ?_⟩, hwaits.levelStep hstep⟩
      cases hstep <;>
        exact ⟨hclaims.fits, hclaims.settled, hclaims.owned, hclaims.closed_unique⟩

variable {owner : Option ℕ} {producer : ℕ} {status : ChunkStatus}

/-- The published status only grows. -/
theorem Claims.published_le (h : Claims owner work) (hstep : Step work after) :
    statusRank work.publishedStatus ≤ statusRank after.publishedStatus := by
  cases hstep with
  | producer hstep =>
    cases hstep with
    | publishGenerated producer hstage =>
      have hlt := (h.fits_of_stage hstage).lt_of_open rfl
      rw [if_pos hlt]
      exact hlt.le
    | publishStored producer hstage =>
      have hfits := h.fits_of_stage hstage
      have hlt := hfits.lt_started rfl
      rw [(hfits.owns _ rfl).2.2] at hlt
      exact hlt.le
    | _ => exact le_rfl
  | waiter hstep | level hstep => cases hstep <;> exact le_rfl

/-- Two producers never hold claims on one status. -/
theorem Claims.unique (h : Claims owner work) {other : ℕ}
    (hproducer : (work.producers producer).claim = some status)
    (hother : (work.producers other).claim = some status) : producer = other := by
  have hcases : ∀ producer, (work.producers producer).claim = some status →
      (work.producers producer).openClaim = some status ∨
        (work.producers producer).closedClaim = some status := by
    intro producer hclaim
    obtain hopen | ⟨-, hclosed⟩ := or_eq_some_iff.mp hclaim
    · exact Or.inl hopen
    · exact Or.inr hclosed
  -- A claim that is published and one that is not are on different sides of the published status.
  have hapart : ∀ first second, (work.producers first).openClaim = some status →
      (work.producers second).closedClaim ≠ some status := fun first second hopen hclosed =>
    absurd ((h.fits second).closed status hclosed) ((h.fits first).lt_of_open hopen).not_ge
  obtain hopen | hclosed := hcases producer hproducer
  · obtain hopenOther | hclosedOther := hcases other hother
    · have howner := ((h.fits producer).owns status hopen).1
      have hownerOther := ((h.fits other).owns status hopenOther).1
      exact Option.some.inj (howner.symm.trans hownerOther)
    · exact absurd hclosedOther (hapart producer other hopen)
  · obtain hopenOther | hclosedOther := hcases other hother
    · exact absurd hclosed (hapart other producer hopenOther)
    · exact h.closed_unique producer other status hclosed hclosedOther

/-- A claim after its parent is published: it succeeds, or work has gone at least as far. -/
theorem Claims.claim_cases (h : Claims owner work)
    (hparent : statusRank status.parent ≤ statusRank work.publishedStatus) :
    (work.claimStatusWork status).1 = .claimed ∧ work.startedWork = status.parent ∨
      (work.claimStatusWork status).1 = .alreadyStarted := by
  unfold claimStatusWork
  split
  case isTrue hstarted => exact Or.inl ⟨rfl, hstarted⟩
  case isFalse hne =>
    have hle := hparent.trans h.published_le_started
    have hrank := statusRank_parent status
    have hlt : statusRank status.parent ≠ statusRank work.startedWork := fun heq =>
      hne (statusRank_injective heq.symm)
    rw [if_pos (by omega)]
    exact Or.inr rfl

/-- A status that can be claimed is above the published one, and nobody has a claim on it. -/
theorem Claims.unclaimed (h : Claims owner work)
    (hparent : statusRank status.parent ≤ statusRank work.publishedStatus)
    (hstarted : work.startedWork = status.parent) :
    statusRank work.publishedStatus < statusRank (some status) ∧
      ∀ producer, (work.producers producer).claim ≠ some status := by
  have hnone : owner = none := h.owner_eq_none (hstarted ▸ hparent)
  have hlt : statusRank work.publishedStatus < statusRank (some status) := by
    rw [← h.settled hnone, hstarted]
    exact statusRank_parent_lt status
  refine ⟨hlt, fun producer hclaim => ?_⟩
  obtain hopen | ⟨-, hclosed⟩ := or_eq_some_iff.mp hclaim
  · exact absurd (((h.fits producer).owns status hopen).1.symm.trans hnone) (by simp)
  · exact absurd ((h.fits producer).closed status hclosed) hlt.not_ge

/-- A claim that is rolled back leaves the published status, and can be made again. -/
theorem Claims.claimed_of_rollingBack (h : Claims owner work) {rollback : Option ChunkStatus}
    (hstage : work.producers producer = .rollingBack status rollback) :
    work.startedWork = some status ∧ rollback = work.publishedStatus ∧
      ({ work with startedWork := rollback }.claimStatusWork status).1 = .claimed := by
  have hfits := h.fits_of_stage hstage
  obtain ⟨-, hparent, hstarted⟩ := hfits.owns status rfl
  have hrollback : rollback = work.publishedStatus := hfits.remembers
  refine ⟨hstarted, hrollback, ?_⟩
  rw [claimStatusWork, if_pos (hrollback.trans hparent)]

/-- While nothing is under way, a waiter sleeps only for a status that a producer works on. -/
theorem Waits.parked_cases (h : work.Waits) (hclaims : Claims owner work) {waiter : ℕ}
    (hstage : work.waiters waiter = .parked status false)
    (hnotifying : ¬ Any work.producers IsNotifying) (hwaking : ¬ Any work.producers (· = .waking)) :
    statusRank work.publishedStatus < statusRank (some status) ∧
      work.wokenDisallowed status = false ∧
      ∃ producer, (work.producers producer).openClaim ≠ none ∧
        statusRank (some status) ≤ statusRank (work.producers producer).started := by
  have hexpects := h.expects waiter
  rw [hstage] at hexpects
  obtain ⟨hunpublished, hwoken, hcovered⟩ := hexpects
  have hlt := hunpublished.resolve_right hnotifying
  have hle := hcovered.resolve_right hwaking
  refine ⟨hlt, hwoken, ?_⟩
  cases owner with
  | none =>
    rw [hclaims.settled rfl] at hle
    exact absurd hle hlt.not_ge
  | some producer =>
    have hopen := hclaims.owned producer rfl
    obtain ⟨claimed, hclaimed⟩ := ne_none_iff_exists'.mp hopen
    refine ⟨producer, hopen, ?_⟩
    rw [← ((hclaims.fits producer).owns claimed hclaimed).2.2]
    exact hle

/-- Producers and waiters of one holder under every interleaving of their atomic operations. -/
theorem reached_statusWork (h : Reached work) :
    statusRank work.publishedStatus ≤ statusRank work.startedWork ∧
    (∀ after, Step work after →
      statusRank work.publishedStatus ≤ statusRank after.publishedStatus) ∧
    (∀ producer other status, (work.producers producer).claim = some status →
      (work.producers other).claim = some status → producer = other) ∧
    (∀ status, statusRank status.parent ≤ statusRank work.publishedStatus →
      (work.claimStatusWork status).1 ≠ .panicked ∧
      ((work.claimStatusWork status).1 = .claimed →
        statusRank work.publishedStatus < statusRank (some status) ∧
        ∀ producer, (work.producers producer).claim ≠ some status)) ∧
    (∀ producer status, work.producers producer = .abandoning status →
      statusRank work.publishedStatus < statusRank (some status)) ∧
    (∀ producer status rollback, work.producers producer = .rollingBack status rollback →
      work.startedWork = some status ∧ rollback = work.publishedStatus ∧
      ({ work with startedWork := rollback }.claimStatusWork status).1 = .claimed) ∧
    ∀ waiter status, work.waiters waiter = .parked status false →
      ¬ Any work.producers IsNotifying → ¬ Any work.producers (· = .waking) →
      statusRank work.publishedStatus < statusRank (some status) ∧
      work.wokenDisallowed status = false ∧
      ∃ producer, (work.producers producer).openClaim ≠ none ∧
        statusRank (some status) ≤ statusRank (work.producers producer).started := by
  obtain ⟨⟨owner, hclaims⟩, hwaits⟩ := h.consistent
  refine ⟨hclaims.published_le_started, fun _ => hclaims.published_le,
    fun _ _ _ => hclaims.unique, ?_, ?_, fun _ _ _ => hclaims.claimed_of_rollingBack,
    fun _ _ => hwaits.parked_cases hclaims⟩
  · intro status hparent
    obtain ⟨hclaimed, hstarted⟩ | hstarted := hclaims.claim_cases hparent
    · exact ⟨by simp [hclaimed], fun _ => hclaims.unclaimed hparent hstarted⟩
    · exact ⟨by simp [hstarted], fun hclaimed => absurd (hstarted.symm.trans hclaimed) (by simp)⟩
  · exact fun producer status hstage => (hclaims.fits_of_stage hstage).lt_of_open rfl

end Runs

/-- A caller waits for a status whose producer is at work. -/
theorem reached_statusWork_waiting :
    ∃ work, Reached work ∧ work.waiters 0 = .parked .empty false ∧
      statusRank work.publishedStatus < statusRank (some .empty) ∧
      work.wokenDisallowed .empty = false := by
  have hclaimed := (Reached.new (some .full)).step (.producer (.claim 0 .empty rfl le_rfl rfl))
  have hcreated := hclaimed.step (.waiter (.create 0 .empty rfl))
  have hunpublished := hcreated.step (.waiter (.loadPublished 0 rfl))
  have hallowed := hunpublished.step (.waiter (.loadAllowed 0 rfl))
  have hparked := hallowed.step (.waiter (.loadStarted 0 rfl))
  have hwaiting := (reached_statusWork hparked).2.2.2.2.2.2 0 .empty rfl ?_ ?_
  · exact ⟨_, hparked, rfl, hwaiting.1, hwaiting.2.1⟩
  · rintro ⟨_ | _, _, hstage⟩ <;> cases hstage
  · rintro ⟨_ | _, hstage⟩ <;> cases hstage

end StatusWork

end Steel
