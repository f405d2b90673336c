import Steel.Chunk.ChunkPersistence
import Steel.Proof.StatusWorkRun

/-!
# What the stored copy of a chunk lacks is noted

At every time a change that is not in the stored copy is noted: by the dirty flag, by a thread that
is going to set it, or in what the save task holds. A holder that is removed has nothing noted.

A publication is noted by the flag that its producer set before. A save that read the status earlier
takes that flag away, which is why saves are to take the flag at a current status only.
-/

namespace Steel.ChunkPersistence

open Threads Function

variable {K V : Type} {holder after : ChunkPersistence K V}

def UpToDate (holder : ChunkPersistence K V) : Prop :=
  ∃ status, holder.publishedStatus = some status ∧ holder.stored = some ⟨holder.data, status⟩

/-- The flag is set, or some thread is going to set it. -/
def Noted (holder : ChunkPersistence K V) : Prop :=
  holder.dirty = true ∨ Any holder.writers (· = .written) ∨
    ∃ status, holder.producer = .working status

/-- What holds of the save task if nothing has been noted since it took the flag. -/
def SaveCurrent (holder : ChunkPersistence K V) : SaveStage K V → Prop
  | .taken status dirty =>
    holder.publishedStatus = some status ∧ (dirty = false → holder.UpToDate)
  | .reading status dirty snapshot =>
    holder.publishedStatus = some status ∧
      (∀ key value, snapshot key = some value → value = holder.data key) ∧
      (dirty = false → holder.UpToDate)
  | .assembled _ dirty none => dirty = false → holder.UpToDate
  | .assembled _ dirty (some prepared) =>
    holder.publishedStatus = some prepared.status ∧ prepared.data = holder.data ∧
      (dirty = false → holder.UpToDate)
  | .storing prepared =>
    holder.publishedStatus = some prepared.status ∧ prepared.data = holder.data
  | .remarking => True
  | .retrying => True
  | _ => holder.UpToDate

def Checked : SaveStage K V → Prop
  | .idle => False
  | .spawned => False
  | .preparing => False
  | _ => True

structure Recorded (holder : ChunkPersistence K V) : Prop where
  noted : holder.Noted ∨ holder.SaveCurrent holder.save
  unpublished : ∀ status, holder.producer = .working status →
    statusRank holder.publishedStatus < statusRank (some status)
  marked : ∀ status, holder.producer = .marked status → holder.dirty = true
  savable : Checked holder.save → holder.Savable

theorem recorded_loaded (chunk : StoredChunk K V) : Recorded (loaded chunk) where
  noted := Or.inr ⟨chunk.status, rfl, rfl⟩
  unpublished := fun _ h => nomatch h
  marked := fun _ h => nomatch h
  savable := fun h => h.elim

theorem recorded_generated (data : K → V) (stored : Option (StoredChunk K V)) :
    Recorded (generated data stored) where
  noted := Or.inl (Or.inl rfl)
  unpublished := fun _ h => nomatch h
  marked := fun _ h => nomatch h
  savable := fun h => h.elim

/-! ### Writers, producers and the scheduler -/

theorem Noted.of_written {writer : ℕ} : (holder.setWriter writer .written).Noted :=
  Or.inr (Or.inl (.of_update rfl))

theorem Noted.setWriter {writer : ℕ} {stage : WriterStage} (h : holder.Noted)
    (hstage : holder.writers writer ≠ .written) : (holder.setWriter writer stage).Noted := by
  obtain hdirty | hwriter | hproducer := h
  · exact Or.inl hdirty
  · exact Or.inr (Or.inl (hwriter.update fun hwritten => absurd hwritten hstage))
  · exact Or.inr (Or.inr hproducer)

theorem Recorded.setWriter {writer : ℕ} {stage : WriterStage} (h : holder.Recorded)
    (hstage : holder.writers writer ≠ .written) : (holder.setWriter writer stage).Recorded where
  noted := h.noted.imp_left fun hnoted => hnoted.setWriter hstage
  unpublished := h.unpublished
  marked := h.marked
  savable := h.savable

theorem Recorded.writer [DecidableEq K] (h : holder.Recorded) (hstep : WriterStep holder after) :
    after.Recorded := by
  cases hstep with
  | reference writer hplace hstage | release writer hstage => exact h.setWriter (by simp [hstage])
  | write writer key value hstage =>
    exact {
      noted := Or.inl .of_written
      unpublished := h.unpublished
      marked := h.marked
      savable := h.savable }
  | markDirty writer hstage =>
    exact {
      noted := Or.inl (Or.inl rfl)
      unpublished := h.unpublished
      marked := fun _ _ => rfl
      savable := h.savable }

theorem Recorded.setProducer {stage : GenerationStage} (h : holder.Recorded)
    (hbefore : ∀ status, holder.producer ≠ .working status)
    (hworking : ∀ status, stage ≠ .working status) (hmarked : ∀ status, stage ≠ .marked status) :
    Recorded { holder with producer := stage } where
  noted := by
    obtain (hdirty | hwriter | ⟨status, hproducer⟩) | hcurrent := h.noted
    · exact Or.inl (Or.inl hdirty)
    · exact Or.inl (Or.inr (Or.inl hwriter))
    · exact absurd hproducer (hbefore status)
    · exact Or.inr hcurrent
  unpublished := fun status hstage => absurd hstage (hworking status)
  marked := fun status hstage => absurd hstage (hmarked status)
  savable := h.savable

theorem savable_publishGeneratedStatus (h : holder.Savable) (status : ChunkStatus) :
    (holder.publishGeneratedStatus status).Savable := by
  unfold publishGeneratedStatus
  split
  · next hlt => exact h.trans hlt.le
  · exact h

theorem publishGeneratedStatus_dirty (status : ChunkStatus) :
    (holder.publishGeneratedStatus status).dirty = holder.dirty := by
  unfold publishGeneratedStatus
  split <;> rfl

theorem publishGeneratedStatus_save (status : ChunkStatus) :
    (holder.publishGeneratedStatus status).save = holder.save := by
  unfold publishGeneratedStatus
  split <;> rfl

theorem Recorded.producer [DecidableEq K] (h : holder.Recorded)
    (hstep : ProducerStep holder after) : after.Recorded := by
  cases hstep with
  | reference hplace hstage =>
    exact h.setProducer (by simp [hstage]) (by simp) (by simp)
  | release hstage =>
    exact h.setProducer (by simp [hstage]) (by simp) (by simp)
  | claim status hstage hparent =>
    refine {
      noted := Or.inl (Or.inr (Or.inr ⟨status, rfl⟩))
      unpublished := ?_
      marked := fun _ hmarked => nomatch hmarked
      savable := h.savable }
    intro claimed hclaimed
    cases hclaimed
    change statusRank holder.publishedStatus < _
    rw [hparent]
    exact statusRank_parent_lt status
  | @write key value status hstage =>
    exact {
      noted := Or.inl (Or.inr (Or.inr ⟨status, hstage⟩))
      unpublished := h.unpublished
      marked := h.marked
      savable := h.savable }
  | @finish status hstage =>
    rw [if_pos (h.unpublished status hstage)]
    exact {
      noted := Or.inl (Or.inl rfl)
      unpublished := fun _ hworking => nomatch hworking
      marked := fun _ _ => rfl
      savable := h.savable }
  | @publish status hstage =>
    have hdirty : (holder.publishGeneratedStatus status).dirty = true :=
      (publishGeneratedStatus_dirty status).trans (h.marked status hstage)
    refine {
      noted := Or.inl (Or.inl hdirty)
      unpublished := fun _ hworking => nomatch hworking
      marked := fun _ _ => hdirty
      savable := ?_ }
    intro hchecked
    rw [publishGeneratedStatus_save] at hchecked
    exact savable_publishGeneratedStatus (h.savable hchecked) status

theorem Recorded.move (h : holder.Recorded) (lifecycle : SaveLifecycle) (place : HolderPlace) :
    Recorded { holder with lifecycle := lifecycle, place := place } :=
  { noted := h.noted, unpublished := h.unpublished, marked := h.marked, savable := h.savable }

theorem Recorded.scheduler (h : holder.Recorded) (hstep : SchedulerStep holder after) :
    after.Recorded := by
  cases hstep with
  | beginUnloading => exact h.move _ _
  | removeActive => exact h.move _ _
  | insertUnloading => exact h.move _ _
  | leaveUnloading | removeUnloading | reviveFromUnloading | insertActive => exact h.move _ _

/-! ### Saves -/

theorem Recorded.setSave {stage : SaveStage K V} (h : holder.Recorded)
    (hcurrent : holder.SaveCurrent holder.save → holder.SaveCurrent stage)
    (hsavable : Checked stage → holder.Savable) : Recorded { holder with save := stage } where
  noted := h.noted.imp_right hcurrent
  unpublished := h.unpublished
  marked := h.marked
  savable := hsavable

theorem endSavePreparation_save : holder.endSavePreparation.2.save = holder.save := by
  unfold endSavePreparation
  split <;> rfl

theorem Recorded.endSavePreparation (h : holder.Recorded) :
    holder.endSavePreparation.2.Recorded := by
  unfold ChunkPersistence.endSavePreparation
  split
  · exact h.move .unloading holder.place
  · exact h

theorem recorded_marked (hrecorded : holder.Recorded) :
    Recorded { holder.markDirty with save := .idle } where
  noted := Or.inl (Or.inl rfl)
  unpublished := hrecorded.unpublished
  marked := fun _ _ => rfl
  savable := fun h => h.elim

variable {status : ChunkStatus} {dirty : Bool} {prepared : Option (StoredChunk K V)}

theorem Recorded.takeDirty (h : holder.Recorded) (hstage : holder.save = .statusRead status)
    (hcurrent : holder.TakesCurrent (.takeDirty status)) :
    Recorded { holder with dirty := false, save := .taken status holder.dirty } where
  noted := by
    by_cases hdirty : holder.dirty = true
    · exact Or.inr ⟨hcurrent.1, fun hclean => absurd (hclean.symm.trans hdirty) (by decide)⟩
    · obtain (hset | hwriter | hproducer) | hupToDate := h.noted
      · exact absurd hset hdirty
      · exact Or.inl (Or.inr (Or.inl hwriter))
      · exact Or.inl (Or.inr (Or.inr hproducer))
      · rw [hstage] at hupToDate
        exact Or.inr ⟨hcurrent.1, fun _ => hupToDate⟩
  unpublished := h.unpublished
  marked := fun claimed hmarked => absurd hmarked (hcurrent.2 claimed)
  savable := fun _ => h.savable (by rw [hstage]; trivial)

theorem SaveCurrent.afterPreparation (h : holder.SaveCurrent (.assembled status dirty prepared))
    (kept : Bool) :
    holder.SaveCurrent (afterPreparation dirty (if kept then prepared else none)) := by
  have hclean : dirty = false → holder.UpToDate := by
    cases prepared with
    | none => exact h
    | some prepared => exact h.2.2
  have hdiscarded : holder.SaveCurrent (ChunkPersistence.afterPreparation dirty none) := by
    cases dirty with
    | false => exact hclean rfl
    | true => trivial
  cases kept with
  | false => exact hdiscarded
  | true =>
    cases prepared with
    | none => exact hdiscarded
    | some prepared => exact ⟨h.1, h.2.1⟩

theorem Recorded.finish (h : holder.Recorded)
    (hstage : holder.save = .assembled status dirty prepared) (kept : Bool) : Recorded { holder with
      save := ChunkPersistence.afterPreparation dirty (if kept then prepared else none) } := by
  apply h.setSave
  · intro hcurrent
    rw [hstage] at hcurrent
    exact hcurrent.afterPreparation kept
  · intro _
    exact h.savable (by rw [hstage]; trivial)

theorem SaveCurrent.snapshot [DecidableEq K] {snapshot : K → Option V}
    (h : holder.SaveCurrent (.reading status dirty snapshot)) (key : K) : holder.SaveCurrent
      (.reading status dirty (update snapshot key (some (holder.data key)))) := by
  refine ⟨h.1, ?_, h.2.2⟩
  intro other value hvalue
  by_cases heq : other = key
  · subst heq
    rw [update_self] at hvalue
    exact (Option.some.inj hvalue).symm
  · rw [update_of_ne heq] at hvalue
    exact h.2.1 other value hvalue

theorem SaveCurrent.assemble {snapshot : K → Option V} {data : K → V}
    (h : holder.SaveCurrent (.reading status dirty snapshot))
    (hdata : ∀ key, snapshot key = some (data key)) :
    holder.SaveCurrent (.assembled status dirty (some ⟨data, status⟩)) :=
  ⟨h.1, funext fun key => h.2.1 key (data key) (hdata key), h.2.2⟩

theorem Recorded.save [DecidableEq K] {event : SaveEvent} (h : holder.Recorded)
    (hstep : SaveStep holder event after) (hcurrent : holder.TakesCurrent event) :
    after.Recorded := by
  cases hstep with
  | spawn hplace hunreferenced =>
    exact h.setSave (fun hidle => by rwa [hunreferenced.save] at hidle) fun h => h.elim
  | remove => exact h.move holder.lifecycle _
  | tryBeginSavePreparation hstage hlifecycle =>
    exact (h.move .preparing holder.place).setSave (fun hspawned => by rwa [hstage] at hspawned)
      fun h => h.elim
  | refuse hstage hlifecycle =>
    exact h.setSave (fun hspawned => by rwa [hstage] at hspawned) fun h => h.elim
  | tryChunk hstage hsavable =>
    exact h.setSave (fun hpreparing => by rwa [hstage] at hpreparing) fun _ => hsavable
  | bail hstage hsavable =>
    refine h.endSavePreparation.setSave (fun hpreparing => ?_) fun h => h.elim
    rw [endSavePreparation_save, hstage] at hpreparing
    exact hpreparing
  | readStatus hstage hpublished =>
    exact h.setSave (fun hchecked => by rwa [hstage] at hchecked)
      fun _ => h.savable (by rw [hstage]; trivial)
  | takeDirty hstage => exact h.takeDirty hstage hcurrent
  | prepare hstage =>
    refine h.setSave (fun htaken => ?_) fun _ => h.savable (by rw [hstage]; trivial)
    rw [hstage] at htaken
    exact ⟨htaken.1, fun _ _ hnone => absurd hnone.symm (Option.some_ne_none _), htaken.2⟩
  | skip hstage =>
    refine h.setSave (fun htaken => ?_) fun _ => h.savable (by rw [hstage]; trivial)
    rw [hstage] at htaken
    exact htaken.2
  | snapshot key hstage =>
    refine h.setSave (fun hreading => ?_) fun _ => h.savable (by rw [hstage]; trivial)
    rw [hstage] at hreading
    exact hreading.snapshot key
  | assemble data hstage hdata =>
    refine h.setSave (fun hreading => ?_) fun _ => h.savable (by rw [hstage]; trivial)
    rw [hstage] at hreading
    exact hreading.assemble hdata
  | abandon hstage =>
    refine h.setSave (fun hreading => ?_) fun _ => h.savable (by rw [hstage]; trivial)
    rw [hstage] at hreading
    exact hreading.2.2
  | finish hstage =>
    exact h.endSavePreparation.finish (endSavePreparation_save.trans hstage) _
  | remark hstage => exact recorded_marked h
  | @store prepared hstage =>
    refine {
      noted := ?_
      unpublished := h.unpublished
      marked := h.marked
      savable := fun h => h.elim }
    refine h.noted.imp_right fun hstoring => ?_
    rw [hstage] at hstoring
    exact ⟨prepared.status, hstoring.1, by rw [← hstoring.2]⟩
  | fail hstage =>
    exact h.setSave (fun _ => trivial) fun _ => h.savable (by rw [hstage]; trivial)
  | retry hstage =>
    rw [if_pos (h.savable (by rw [hstage]; trivial))]
    exact recorded_marked h

/-! ### Runs -/

theorem Reached.recorded [DecidableEq K] (h : Reached TakesCurrent holder) : holder.Recorded := by
  induction h with
  | loaded chunk => exact recorded_loaded chunk
  | generated data stored => exact recorded_generated data stored
  | step _ hstep hcondition ih =>
    cases hstep with
    | writer hstep => exact ih.writer hstep
    | producer hstep => exact ih.producer hstep
    | scheduler hstep => exact ih.scheduler hstep
    | save hstep => exact ih.save hstep hcondition

theorem Unreferenced.dirty_of_noted (h : holder.Unreferenced) (hnoted : holder.Noted) :
    holder.dirty = true := by
  obtain hdirty | hwriter | ⟨status, hproducer⟩ := hnoted
  · exact hdirty
  · exact absurd hwriter (not_any h.writers (by decide))
  · rw [h.producer] at hproducer
    cases hproducer

/-- A holder with a status from `StructureStarts` on is removed when its stored copy has its data
and its published status, provided that every save takes the dirty flag at a current status. -/
theorem reached_removable_upToDate [DecidableEq K] (h : Reached TakesCurrent holder)
    (hremovable : holder.Removable) (hsavable : holder.Savable) :
    ∃ status, holder.publishedStatus = some status ∧
      holder.stored = some ⟨holder.data, status⟩ := by
  obtain hnoted | hcurrent := h.recorded.noted
  · have hdirty := hremovable.unreferenced.dirty_of_noted hnoted
    exact absurd ⟨hsavable, hdirty⟩ hremovable.clean
  · rw [hremovable.unreferenced.save] at hcurrent
    exact hcurrent

/-- A chunk is changed, unloaded, saved and removed. -/
theorem reached_removable_upToDate_saved :
    ∃ holder : ChunkPersistence Unit Bool, Reached TakesCurrent holder ∧ holder.Removable ∧
      ∃ status, holder.publishedStatus = some status ∧
        holder.stored = some ⟨holder.data, status⟩ := by
  have hloaded : Reached TakesCurrent (loaded ⟨fun _ : Unit => false, .structureStarts⟩) :=
    .loaded _
  have hreferenced := hloaded.step (.writer (.reference 0 (.inl rfl) rfl)) trivial
  have hwritten := hreferenced.step (.writer (.write 0 () true (by decide))) trivial
  have hmarked := hwritten.step (.writer (.markDirty 0 rfl)) trivial
  have hreleased := hmarked.step (.writer (.release 0 rfl)) trivial
  have hclosing := hreleased.step (.scheduler (.beginUnloading rfl rfl)) trivial
  have hdetached := hclosing.step (.scheduler (.removeActive rfl)) trivial
  have hsettling := hdetached.step (.scheduler (.insertUnloading rfl)) trivial
  have hunloading := hsettling.step (.scheduler (.leaveUnloading rfl)) trivial
  have hspawned := hunloading.step
    (.save (.spawn rfl ⟨by rintro (_ | _) <;> rfl, rfl, rfl⟩)) trivial
  have hpreparing := hspawned.step (.save (.tryBeginSavePreparation rfl rfl)) trivial
  have hchecked := hpreparing.step (.save (.tryChunk rfl (by decide))) trivial
  have hread := hchecked.step (.save (.readStatus rfl rfl)) trivial
  have htaken := hread.step (.save (.takeDirty rfl)) ⟨rfl, by rintro _ ⟨⟩⟩
  have hreading := htaken.step (.save (.prepare rfl)) trivial
  have hsnapshot := hreading.step (.save (.snapshot () rfl)) trivial
  have hassembled := hsnapshot.step (.save (.assemble (fun _ => true) rfl fun _ => rfl)) trivial
  have hfinished := hassembled.step (.save (.finish rfl)) trivial
  have hstored := hfinished.step (.save (.store rfl)) trivial
  refine ⟨_, hstored, ?hremovable, reached_removable_upToDate hstored ?hremovable (by decide)⟩
  exact ⟨rfl, ⟨by rintro (_ | _) <;> rfl, rfl, rfl⟩, by decide⟩

/-- A save waits while the holder is revived and unloaded again. Then it reads the status, takes the
flag that the producer of the next status has just set, and stores the chunk with the old status;
nothing notes that the producer publishes after this. -/
theorem reached_removable_staleStatus :
    ∃ holder : ChunkPersistence Unit Bool, Reached (fun _ _ => True) holder ∧ holder.Removable ∧
      holder.publishedStatus = some .structureReferences ∧
      holder.stored = some ⟨holder.data, .structureStarts⟩ := by
  have hloaded :
      Reached (fun _ _ => True) (loaded ⟨fun _ : Unit => false, .structureStarts⟩) := .loaded _
  have hreferenced := hloaded.step (.writer (.reference 0 (.inl rfl) rfl)) trivial
  have hwritten := hreferenced.step (.writer (.write 0 () true (by decide))) trivial
  have hmarked := hwritten.step (.writer (.markDirty 0 rfl)) trivial
  have hreleased := hmarked.step (.writer (.release 0 rfl)) trivial
  have hclosing := hreleased.step (.scheduler (.beginUnloading rfl rfl)) trivial
  have hdetached := hclosing.step (.scheduler (.removeActive rfl)) trivial
  have hsettling := hdetached.step (.scheduler (.insertUnloading rfl)) trivial
  have hunloading := hsettling.step (.scheduler (.leaveUnloading rfl)) trivial
  have hspawned := hunloading.step
    (.save (.spawn rfl ⟨by rintro (_ | _) <;> rfl, rfl, rfl⟩)) trivial
  have hreviving := hspawned.step (.scheduler (.removeUnloading rfl)) trivial
  have hrevived := hreviving.step (.scheduler (.reviveFromUnloading rfl)) trivial
  have hactive := hrevived.step (.scheduler (.insertActive rfl)) trivial
  have hreferenced := hactive.step (.producer (.reference rfl rfl)) trivial
  have hworking := hreferenced.step (.producer (.claim .structureReferences rfl rfl)) trivial
  have hwritten := hworking.step (.producer (.write () false rfl)) trivial
  have hclosing := hwritten.step (.scheduler (.beginUnloading rfl rfl)) trivial
  have hdetached := hclosing.step (.scheduler (.removeActive rfl)) trivial
  have hsettling := hdetached.step (.scheduler (.insertUnloading rfl)) trivial
  have hunloading := hsettling.step (.scheduler (.leaveUnloading rfl)) trivial
  have hpreparing := hunloading.step (.save (.tryBeginSavePreparation rfl rfl)) trivial
  have hchecked := hpreparing.step (.save (.tryChunk rfl (by decide))) trivial
  have hread := hchecked.step (.save (.readStatus rfl rfl)) trivial
  have hmarked := hread.step (.producer (.finish rfl)) trivial
  have htaken := hmarked.step (.save (.takeDirty rfl)) trivial
  have hreading := htaken.step (.save (.prepare rfl)) trivial
  have hsnapshot := hreading.step (.save (.snapshot () rfl)) trivial
  have hassembled := hsnapshot.step (.save (.assemble (fun _ => false) rfl fun _ => rfl)) trivial
  have hfinished := hassembled.step (.save (.finish rfl)) trivial
  have hpublished := hfinished.step (.producer (.publish rfl)) trivial
  have hreleased := hpublished.step (.producer (.release rfl)) trivial
  have hstored := hreleased.step (.save (.store rfl)) trivial
  exact ⟨_, hstored, ⟨rfl, ⟨by rintro (_ | _) <;> rfl, rfl, rfl⟩, by decide⟩, rfl, rfl⟩

end Steel.ChunkPersistence
