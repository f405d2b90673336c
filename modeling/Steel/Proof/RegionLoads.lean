import Steel.Proof.RegionRun

/-!
# Loads that finish after a save

A load reads an entry and its payload under the region lock, decodes without it, and takes the lock
again to clear the entry if the payload was corrupt. It recognizes a save in between by comparing
entries. A save that puts an equal entry into the table, by reusing the sectors for a payload of the
same size and status, is not recognized.
-/

namespace Steel

open List

namespace RegionManager

def noFaults : Faults := { opening := false, creating := none, data := none, header := none }

def SectionAligned (minY height : Int) : Prop :=
  0 < height ∧ height.tmod 16 = 0 ∧ minY.tmod 16 = 0

def openEntry (manager : RegionManager) (pos : ChunkPos) : Option ChunkEntry :=
  (manager.regions.lookup (RegionPos.fromChunk pos.x pos.y)).map fun handle =>
    handle.header.entries pos.regionIndex

def savedEntry (manager : RegionManager) (pos : ChunkPos) (status : ChunkStatus)
    (compressed : List UInt8) (faults : Faults) : Option ChunkEntry :=
  match (manager.saveChunkData pos status compressed faults).1,
      (manager.getOrOpen (RegionPos.fromChunk pos.x pos.y) faults).1 with
  | .ok true, .ok handle =>
    some ⟨handle.placement pos.regionIndex (divCeil compressed.length sectorSize),
      compressed.length, status⟩
  | _, _ => none

/-- A load between its two halves, and when it read. -/
structure PendingLoad where
  pos : ChunkPos
  compressed : List UInt8
  entry : ChunkEntry
  readAt : ℕ

structure CompletedSave where
  pos : ChunkPos
  entry : ChunkEntry
  completedAt : ℕ

/-- The manager with the loads that are decoding and the saves so far, which the clock counts. -/
structure Loading where
  manager : RegionManager
  loads : List PendingLoad
  saves : List CompletedSave
  clock : ℕ

/-- What happens under one acquisition of the region lock, and the end of a load without one. -/
inductive Event where
  | saveChunkData (pos : ChunkPos) (status : ChunkStatus) (compressed : List UInt8)
      (faults : Faults)
  | readChunk (pos : ChunkPos) (minY height : Int)
  | finishLoad (index : ℕ) (decoded : Except String Unit) (fault : WriteFault)
  | abandonLoad (index : ℕ)
  | acquireChunk (pos : ChunkPos) (faults : Faults)
  | releaseChunk (pos : ChunkPos) (fault : WriteFault)
  | flushAll (iteration : HashMap.IterationOrder RegionPos RegionHandle)
      (faults : RegionPos → WriteFault)
  | closeAll (iteration : HashMap.IterationOrder RegionPos RegionHandle)
      (faults : RegionPos → WriteFault)

namespace Loading

def start (manager : RegionManager) : Loading := { manager, loads := [], saves := [], clock := 0 }

def setManager (state : Loading) (manager : RegionManager) : Loading := { state with manager }

def noteSave (state : Loading) (pos : ChunkPos) : Option ChunkEntry → Loading
  | none => state
  | some entry =>
    { state with
      saves := ⟨pos, entry, state.clock⟩ :: state.saves
      clock := state.clock + 1 }

/-- A load that found a payload starts to decode it. -/
def noteRead (state : Loading) (pos : ChunkPos) :
    Except IoError (Option (List UInt8 × ChunkEntry)) → Loading
  | .ok (some (compressed, entry)) =>
    { state with loads := ⟨pos, compressed, entry, state.clock⟩ :: state.loads }
  | .ok none => state
  | .error _ => state

def dropLoad (state : Loading) (index : ℕ) : Loading :=
  { state with loads := state.loads.eraseIdx index }

def finish (state : Loading) (index : ℕ) (decoded : Except String Unit) (fault : WriteFault) :
    Loading :=
  match state.loads[index]? with
  | none => state
  | some load => (state.dropLoad index).setManager
      (state.manager.finishLoad load.pos load.compressed load.entry decoded fault).2

def step (state : Loading) : Event → Loading
  | .saveChunkData pos status compressed faults =>
    (state.noteSave pos (state.manager.savedEntry pos status compressed faults)).setManager
      (state.manager.saveChunkData pos status compressed faults).2
  | .readChunk pos minY height => state.noteRead pos (state.manager.readChunk pos minY height)
  | .finishLoad index decoded fault => state.finish index decoded fault
  | .abandonLoad index => state.dropLoad index
  | .acquireChunk pos faults => state.setManager (state.manager.acquireChunk pos faults).2
  | .releaseChunk pos fault => state.setManager (state.manager.releaseChunk pos fault).2
  | .flushAll iteration faults => state.setManager (state.manager.flushAll iteration faults).2
  | .closeAll iteration faults => state.setManager (state.manager.closeAll iteration faults).2

/-- The states of the runs in which every event is allowed. -/
inductive Reached (allowed : Loading → Event → Prop) : Loading → Prop
  | start (manager : RegionManager) : Reached allowed (start manager)
  | step {state : Loading} (event : Event) (h : Reached allowed state)
      (hallowed : allowed state event) : Reached allowed (state.step event)

/-- A save does not put the entry into the table that a load of the same chunk has read and is
still decoding. -/
def SavesChangeEntries (state : Loading) : Event → Prop
  | .saveChunkData pos status compressed faults =>
    ∀ load ∈ state.loads, load.pos = pos →
      state.manager.savedEntry pos status compressed faults ≠ some load.entry
  | _ => True

/-- The saves since a load's read have put other entries into the table. -/
structure Recognizable (state : Loading) : Prop where
  saved : ∀ save ∈ state.saves, save.completedAt < state.clock
  differs : ∀ load ∈ state.loads, ∀ save ∈ state.saves, save.pos = load.pos →
    load.readAt ≤ save.completedAt → save.entry ≠ load.entry

variable {state : Loading}

theorem Recognizable.setManager (h : state.Recognizable) (manager : RegionManager) :
    (state.setManager manager).Recognizable := ⟨h.saved, h.differs⟩

theorem Recognizable.noteSave (h : state.Recognizable) {pos : ChunkPos}
    {saved : Option ChunkEntry}
    (hchange : ∀ load ∈ state.loads, load.pos = pos → saved ≠ some load.entry) :
    (state.noteSave pos saved).Recognizable := by
  cases saved with
  | none => exact h
  | some entry =>
    constructor
    · intro save hsave
      rcases mem_cons.mp hsave with rfl | hsave
      · exact Nat.lt_succ_self _
      · exact (h.saved save hsave).trans (Nat.lt_succ_self _)
    · intro load hload save hsave hpos hafter
      rcases mem_cons.mp hsave with rfl | hsave
      · intro heq
        exact hchange load hload hpos.symm (congrArg some heq)
      · exact h.differs load hload save hsave hpos hafter

theorem Recognizable.noteRead (h : state.Recognizable) (pos : ChunkPos)
    (read : Except IoError (Option (List UInt8 × ChunkEntry))) :
    (state.noteRead pos read).Recognizable := by
  match read with
  | .error _ => exact h
  | .ok none => exact h
  | .ok (some (compressed, entry)) =>
    refine ⟨h.saved, ?_⟩
    intro load hload save hsave hpos hafter
    rcases mem_cons.mp hload with rfl | hload
    · exact absurd (h.saved save hsave) (Nat.not_lt.mpr hafter)
    · exact h.differs load hload save hsave hpos hafter

theorem Recognizable.dropLoad (h : state.Recognizable) (index : ℕ) :
    (state.dropLoad index).Recognizable :=
  ⟨h.saved, fun load hload => h.differs load (mem_of_mem_eraseIdx hload)⟩

theorem Recognizable.finish (h : state.Recognizable) (index : ℕ) (decoded : Except String Unit)
    (fault : WriteFault) : (state.finish index decoded fault).Recognizable := by
  unfold Loading.finish
  split
  · exact h
  · exact (h.dropLoad index).setManager _

theorem Reached.recognizable (h : Reached SavesChangeEntries state) : state.Recognizable := by
  induction h with
  | start manager =>
    constructor
    · intro save hsave
      cases hsave
    · intro load hload
      cases hload
  | step event h hallowed ih =>
    cases event with
    | saveChunkData pos status compressed faults => exact (ih.noteSave hallowed).setManager _
    | readChunk pos minY height => exact ih.noteRead pos _
    | finishLoad index decoded fault => exact ih.finish index decoded fault
    | abandonLoad index => exact ih.dropLoad index
    | acquireChunk pos faults => exact ih.setManager _
    | releaseChunk pos fault => exact ih.setManager _
    | flushAll iteration faults | closeAll iteration faults => exact ih.setManager _

end Loading

/-! ### Finishing a load -/

theorem openEntry_setHandle (manager : RegionManager) (pos : ChunkPos) (handle : RegionHandle) :
    (manager.setHandle (RegionPos.fromChunk pos.x pos.y) handle).openEntry pos =
      some (handle.header.entries pos.regionIndex) := by
  rw [openEntry, setHandle, Finmap.lookup_insert]
  rfl

variable {entry : ChunkEntry} {pos : ChunkPos} {manager : RegionManager}

theorem openEntry_finishLoad {current : ChunkEntry}
    (hcurrent : manager.openEntry pos = some current) (hne : current ≠ entry)
    (compressed : List UInt8) (decoded : Except String Unit) (fault : WriteFault) :
    (manager.finishLoad pos compressed entry decoded fault).2.openEntry pos = some current := by
  cases decoded with
  | ok result => exact hcurrent
  | error error =>
    obtain ⟨handle, hhandle, hentry⟩ := Option.map_eq_some_iff.mp hcurrent
    have hkept : manager.clearCorruptChunkIfUnchanged (RegionPos.fromChunk pos.x pos.y)
        pos.regionIndex entry fault =
          (.ok false, manager.setHandle (RegionPos.fromChunk pos.x pos.y) handle) := by
      unfold clearCorruptChunkIfUnchanged RegionHandle.clearEntry
      rw [hhandle]
      dsimp only
      rw [if_pos (by rw [hentry]; exact hne)]
    unfold finishLoad
    dsimp only
    rw [hkept, openEntry_setHandle, hentry]

theorem openEntry_finishLoad_cleared (hcurrent : manager.openEntry pos = some entry)
    (compressed : List UInt8) (error : String) :
    (manager.finishLoad pos compressed entry (.error error) none).2.openEntry pos =
      some .empty := by
  obtain ⟨handle, hhandle, hentry⟩ := Option.map_eq_some_iff.mp hcurrent
  unfold finishLoad clearCorruptChunkIfUnchanged RegionHandle.clearEntry
  rw [hhandle]
  dsimp only
  rw [if_neg (not_not.mpr hentry)]
  dsimp only [RegionHandle.writeHeader]
  rw [openEntry_setHandle]
  dsimp only
  rw [RegionHeader.setEntry_self]

/-! ### Saving into an open region -/

section Open

variable {manager : RegionManager} (pos : ChunkPos) {handle : RegionHandle}
  (hopen : manager.regions.lookup (RegionPos.fromChunk pos.x pos.y) = some handle)

include hopen

theorem getOrOpen_of_open (faults : Faults) :
    manager.getOrOpen (RegionPos.fromChunk pos.x pos.y) faults = (.ok handle, manager) := by
  rw [getOrOpen, hopen]

theorem saveChunkData_of_open (status : ChunkStatus) {compressed : List UInt8}
    (hencode : encodeChunk compressed = .ok compressed) :
    manager.saveChunkData pos status compressed noFaults =
      (.ok true, manager.setHandle (RegionPos.fromChunk pos.x pos.y)
        { (handle.storeChunk pos.regionIndex status compressed none).2 with
          headerDirty := true }) := by
  have hmem : RegionPos.fromChunk pos.x pos.y ∈ manager.regions :=
    Finmap.mem_of_lookup_eq_some hopen
  unfold saveChunkData
  rw [hencode]
  dsimp only
  rw [getOrOpen_of_open pos hopen]
  dsimp only [noFaults]
  rw [RegionHandle.storeChunk_none handle _ status compressed rfl rfl]
  dsimp only
  rw [if_neg (by simp [hmem])]

theorem savedEntry_of_open (status : ChunkStatus) {compressed : List UInt8}
    (hencode : encodeChunk compressed = .ok compressed) :
    manager.savedEntry pos status compressed noFaults =
      some ⟨handle.placement pos.regionIndex (divCeil compressed.length sectorSize),
        compressed.length, status⟩ := by
  rw [savedEntry, saveChunkData_of_open pos hopen status hencode, getOrOpen_of_open pos hopen]

theorem readChunk_of_open {payloads : ChunkIndex → Option (List UInt8)} {payload : List UInt8}
    (hintact : handle.Intact payloads) (hpayload : payloads pos.regionIndex = some payload)
    {minY height : Int} (haligned : SectionAligned minY height) :
    manager.readChunk pos minY height =
      .ok (some (payload, handle.header.entries pos.regionIndex)) := by
  obtain ⟨hexists, hsize, hread⟩ := hintact.held pos.regionIndex payload hpayload
  have hstop := hintact.placed.stop _ hexists
  have hlt := hintact.fileSectors_lt
  have hvalid : RegionHandle.validateChunkEntry (handle.header.entries pos.regionIndex)
      handle.fileSectors = .ok () :=
    RegionHandle.validateChunkEntry_eq_ok.mpr ⟨hintact.placed.start _ hexists,
      hintact.placed.size _ hexists, by omega, hstop⟩
  have hrange : ¬(height ≤ 0 ∨ height.tmod 16 ≠ 0 ∨ minY.tmod 16 ≠ 0) := by
    rw [not_or, not_or, not_not, not_not, not_le]
    exact haligned
  unfold readChunk
  rw [if_neg hrange, hopen]
  dsimp only
  rw [hexists, hvalid, RegionHandle.readChunkData, hsize, hread]
  rfl

end Open

namespace Loading

variable {state : Loading} {handle : RegionHandle} {payload : List UInt8}

theorem manager_finishLoad {index : ℕ} {load : PendingLoad}
    (hload : state.loads[index]? = some load) (decoded : Except String Unit) (fault : WriteFault) :
    (state.step (.finishLoad index decoded fault)).manager =
      (state.manager.finishLoad load.pos load.compressed load.entry decoded fault).2 := by
  rw [step, finish, hload]
  rfl

/-- In every run whose saves change the entries that loads of their chunk are decoding, a load
never clears an entry that was put into the table after it read. -/
theorem reached_finishLoad_keepsSaved {state : Loading} (h : Reached SavesChangeEntries state)
    {index : ℕ} {load : PendingLoad} (hload : state.loads[index]? = some load)
    {save : CompletedSave} (hsave : save ∈ state.saves) (hpos : save.pos = load.pos)
    (hafter : load.readAt ≤ save.completedAt)
    (hentry : state.manager.openEntry load.pos = some save.entry) (decoded : Except String Unit)
    (fault : WriteFault) :
    (state.step (.finishLoad index decoded fault)).manager.openEntry load.pos =
      some save.entry := by
  have hne := h.recognizable.differs load (mem_of_getElem? hload) save hsave hpos hafter
  rw [manager_finishLoad hload]
  exact openEntry_finishLoad hentry hne load.compressed decoded fault

theorem step_save_of_open (pos : ChunkPos)
    (hopen : state.manager.regions.lookup (RegionPos.fromChunk pos.x pos.y) = some handle)
    (status : ChunkStatus) {compressed : List UInt8}
    (hencode : encodeChunk compressed = .ok compressed) :
    state.step (.saveChunkData pos status compressed noFaults) =
      { manager := state.manager.setHandle (RegionPos.fromChunk pos.x pos.y)
          { (handle.storeChunk pos.regionIndex status compressed none).2 with headerDirty := true }
        loads := state.loads
        saves := ⟨pos, ⟨handle.placement pos.regionIndex (divCeil compressed.length sectorSize),
          compressed.length, status⟩, state.clock⟩ :: state.saves
        clock := state.clock + 1 } := by
  rw [step, savedEntry_of_open pos hopen status hencode,
    saveChunkData_of_open pos hopen status hencode]
  rfl

theorem step_read_of_open {pos : ChunkPos} {payloads : ChunkIndex → Option (List UInt8)}
    (hopen : state.manager.regions.lookup (RegionPos.fromChunk pos.x pos.y) = some handle)
    (hintact : handle.Intact payloads) (hpayload : payloads pos.regionIndex = some payload) :
    state.step (.readChunk pos 0 16) =
      { manager := state.manager
        loads := ⟨pos, payload, handle.header.entries pos.regionIndex, state.clock⟩ :: state.loads
        saves := state.saves
        clock := state.clock } := by
  rw [step, readChunk_of_open pos hopen hintact hpayload ⟨by decide, rfl, rfl⟩]
  rfl

def firstSaved : Loading :=
  ((start (.new fun _ => none)).step (.acquireChunk ⟨0, 0⟩ noFaults)).step
    (.saveChunkData ⟨0, 0⟩ .full [40, 181, 47, 253] noFaults)

/-- The region's handle then: the file has the data, and only the table in memory has the entry. -/
def firstHandle : RegionHandle :=
  { file := RegionHandle.emptyFile.writeAt (firstDataSector * sectorSize)
      (RegionHandle.padToSector [40, 181, 47, 253])
    header := RegionHeader.new.setEntry 0 ⟨firstDataSector, 4, .full⟩
    loadedChunkCount := 1
    headerDirty := true
    fileSectors := 4 }

theorem acquired_open : ((start (.new fun _ => none)).step
    (.acquireChunk ⟨0, 0⟩ noFaults)).manager.regions.lookup (RegionPos.fromChunk 0 0) =
      some ⟨RegionHandle.emptyFile, .new, 1, false, firstDataSector⟩ := by
  simp [step, start, setManager, acquireChunk, getOrOpen, openRegion, createRegion, new, noFaults,
    setHandle, RegionHandle.created]

theorem acquired_placement :
    (⟨RegionHandle.emptyFile, .new, 1, false, firstDataSector⟩ : RegionHandle).placement 0
      (divCeil ([40, 181, 47, 253] : List UInt8).length sectorSize) = firstDataSector :=
  RegionHandle.placement_created 0 (by decide)

theorem firstSaved_eq : firstSaved.loads = [] ∧ firstSaved.clock = 1 ∧
    firstSaved.manager.regions.lookup (RegionPos.fromChunk 0 0) = some firstHandle := by
  have hindex : (⟨0, 0⟩ : ChunkPos).regionIndex = 0 := rfl
  have hsaved := step_save_of_open ⟨0, 0⟩ acquired_open .full
    (rfl : encodeChunk [40, 181, 47, 253] = _)
  rw [firstSaved, hsaved, hindex]
  refine ⟨rfl, rfl, ?_⟩
  rw [setHandle, Finmap.lookup_insert,
    RegionHandle.storeChunk_none _ _ .full _ rfl acquired_placement.symm]
  rfl

theorem firstHandle_intact :
    firstHandle.Intact (Function.update (fun _ => none) 0 (some [40, 181, 47, 253])) := by
  have hcounted : (⟨RegionHandle.emptyFile, .new, 1, false, firstDataSector⟩ : RegionHandle).Intact
      fun _ => none := RegionHandle.created_intact.counted 1 false
  have hsaved := hcounted.saved 0 .full (rfl : encodeChunk [40, 181, 47, 253] = _) (by decide)
    (by rw [acquired_placement]; decide)
  rw [RegionHandle.storeChunk_none _ _ .full _ rfl acquired_placement.symm] at hsaved
  exact hsaved.counted 1 true

theorem firstSaved_reached : Reached SavesChangeEntries firstSaved := by
  refine .step _ (.step _ (.start _) trivial) ?_
  intro load hload
  cases hload

/-- The chunk is saved again while its first payload is being decoded. -/
def overtaken (payload : List UInt8) : Loading :=
  (firstSaved.step (.readChunk ⟨0, 0⟩ 0 16)).step (.saveChunkData ⟨0, 0⟩ .full payload noFaults)

theorem overtaken_open (hencode : encodeChunk payload = .ok payload)
    (hfits : divCeil payload.length sectorSize ≤ 1) :
    (overtaken payload).loads = [⟨⟨0, 0⟩, [40, 181, 47, 253], ⟨3, 4, .full⟩, 1⟩] ∧
    ⟨⟨0, 0⟩, ⟨3, payload.length, .full⟩, 1⟩ ∈ (overtaken payload).saves ∧
    (overtaken payload).manager.openEntry ⟨0, 0⟩ = some ⟨3, payload.length, .full⟩ ∧
    (payload.length ≠ 4 → Reached SavesChangeEntries (overtaken payload)) := by
  obtain ⟨hloads, hclock, hopen⟩ := firstSaved_eq
  have hindex : (⟨0, 0⟩ : ChunkPos).regionIndex = 0 := rfl
  have hentry : firstHandle.header.entries 0 = ⟨3, 4, .full⟩ := RegionHeader.setEntry_self _ _ _
  have hread : firstSaved.step (.readChunk ⟨0, 0⟩ 0 16) = _ :=
    step_read_of_open hopen firstHandle_intact (Function.update_self _ _ _)
  rw [hindex, hentry, hloads, hclock] at hread
  have hplace : firstHandle.placement 0 (divCeil payload.length sectorSize) = 3 := by
    unfold RegionHandle.placement
    dsimp only
    rw [hentry, if_pos ⟨rfl, hfits⟩]
  have hopen' : (firstSaved.step (.readChunk ⟨0, 0⟩ 0 16)).manager.regions.lookup
      (RegionPos.fromChunk 0 0) = some firstHandle := by
    rw [hread]
    exact hopen
  have hsaved := step_save_of_open ⟨0, 0⟩ hopen' .full hencode
  rw [hindex, hplace] at hsaved
  refine ⟨?_, ?_, ?_, ?_⟩
  · rw [overtaken, hsaved, hread]
  · rw [overtaken, hsaved, hread]
    exact mem_cons_self
  · rw [overtaken, hsaved, openEntry_setHandle _ ⟨0, 0⟩, hindex,
      RegionHandle.storeChunk_none _ _ .full payload rfl hplace.symm]
    dsimp only
    rw [RegionHeader.setEntry_self]
  · intro hsize
    refine .step _ (.step _ firstSaved_reached trivial) ?_
    intro load hload _ heq
    rw [savedEntry_of_open ⟨0, 0⟩ hopen' .full hencode, hindex, hplace] at heq
    rw [hread, mem_singleton] at hload
    rw [hload] at heq
    have hlength := congrArg ChunkEntry.sizeBytes (Option.some.inj heq)
    exact hsize hlength

/-- A save that gives the chunk another size is recognized. -/
theorem reached_finishLoad_keepsSaved_longer :
    ((overtaken [40, 181, 47, 253, 0]).step
      (.finishLoad 0 (.error "zstd decode failed") none)).manager.openEntry ⟨0, 0⟩ =
        some ⟨3, 5, .full⟩ := by
  obtain ⟨hloads, hsave, hentry, hreached⟩ :=
    overtaken_open (rfl : encodeChunk [40, 181, 47, 253, 0] = _) (by decide)
  have hload : (overtaken [40, 181, 47, 253, 0]).loads[0]? =
      some ⟨⟨0, 0⟩, [40, 181, 47, 253], ⟨3, 4, .full⟩, 1⟩ := by
    rw [hloads]
    rfl
  exact reached_finishLoad_keepsSaved (hreached (by decide)) hload hsave rfl le_rfl hentry _ _

/-- A payload of the same size is saved while the old one is being decoded, and the load that finds
the old one corrupt clears the entry of the new one. -/
theorem finishLoad_clearsSaved :
    Reached (fun _ _ => True) (overtaken [40, 181, 47, 254]) ∧
    (overtaken [40, 181, 47, 254]).loads[0]? =
      some ⟨⟨0, 0⟩, [40, 181, 47, 253], ⟨3, 4, .full⟩, 1⟩ ∧
    ⟨⟨0, 0⟩, ⟨3, 4, .full⟩, 1⟩ ∈ (overtaken [40, 181, 47, 254]).saves ∧
    (overtaken [40, 181, 47, 254]).manager.openEntry ⟨0, 0⟩ = some ⟨3, 4, .full⟩ ∧
    ((overtaken [40, 181, 47, 254]).step
      (.finishLoad 0 (.error "zstd decode failed") none)).manager.openEntry ⟨0, 0⟩ =
        some .empty := by
  obtain ⟨hloads, hsave, hentry, -⟩ :=
    overtaken_open (rfl : encodeChunk [40, 181, 47, 254] = _) (by decide)
  have hload : (overtaken [40, 181, 47, 254]).loads[0]? =
      some ⟨⟨0, 0⟩, [40, 181, 47, 253], ⟨3, 4, .full⟩, 1⟩ := by
    rw [hloads]
    rfl
  refine ⟨?_, hload, hsave, hentry, ?_⟩
  · exact .step _ (.step _ (.step _ (.step _ (.start _) trivial) trivial) trivial) trivial
  · rw [manager_finishLoad hload]
    exact openEntry_finishLoad_cleared hentry [40, 181, 47, 253] "zstd decode failed"

end Loading

end RegionManager

end Steel
