import Steel.Proof.RegionLoads

/-!
# The region store without failures

When every write succeeds, the regions hold a map from chunks to payloads with their status. What an
operation sees of a region is the handle that is open, or the one that opening the file would give;
closing a region and opening it again gives the same table and the same data.
-/

namespace Steel

open Function List

namespace RegionHandle

/-- A handle whose file can be opened again: with its own table, or with the one in the file if that
is up to date. -/
structure Durable (handle : RegionHandle) (payloads : ChunkIndex → Option (List UInt8)) : Prop where
  intact : handle.Intact payloads
  fits : ∀ index, (handle.header.entries index).Fits
  synced : handle.headerDirty = false → ∃ tableBytes,
    handle.file.readExact fileHeaderSize chunkTableSize = some tableBytes ∧
      RegionHeader.fromBytes tableBytes = .ok handle.header

variable {handle : RegionHandle} {payloads : ChunkIndex → Option (List UInt8)}

theorem created_durable : created.Durable fun _ => none := by
  have hfits : ∀ index, (RegionHeader.new.entries index).Fits := fun _ => ChunkEntry.fits_empty
  refine ⟨created_intact, hfits, ?_⟩
  intro _
  refine ⟨RegionHeader.new.toBytes, ?_, RegionHeader.fromBytes_toBytes_of_fits hfits⟩
  have hheader : fileHeaderBytes.length = fileHeaderSize := rfl
  have htable := RegionHeader.length_toBytes .new
  change ByteFile.readExact (fileHeaderBytes ++ RegionHeader.new.toBytes) _ _ = _
  unfold ByteFile.readExact
  dsimp only
  rw [drop_left' hheader, ← htable, take_length, if_pos rfl]

theorem opened_durable {file : ByteFile} (hopen : openFile file = .ok (.opened handle))
    (hfile : divCeil file.length sectorSize < 4294967296) :
    handle.Durable handle.heldPayload := by
  refine ⟨opened_intact hopen hfile, ?_, ?_⟩
  · obtain ⟨_, tableBytes, header, -, -, -, -, hheader, -, rfl⟩ := openFile_eq_opened.mp hopen
    intro index
    exact ChunkEntry.fits_of_fromBytes (RegionHeader.fromBytes_eq_ok.mp hheader index)
  · obtain ⟨_, tableBytes, header, -, -, -, htable, hheader, -, rfl⟩ :=
      openFile_eq_opened.mp hopen
    exact fun _ => ⟨tableBytes, htable, hheader⟩

theorem Durable.reopens (h : handle.Durable payloads) (hclean : handle.headerDirty = false) :
    openFile handle.file = .ok (.opened { handle with loadedChunkCount := 0 }) := by
  obtain ⟨tableBytes, htable, hheader⟩ := h.synced hclean
  obtain ⟨headerBytes, hopening, hmagic, hversion⟩ := h.intact.opened.opening
  have hsectors : divCeil handle.file.length sectorSize % 4294967296 = handle.fileSectors := by
    rw [← h.intact.fileSectors_eq, Nat.mod_eq_of_lt h.intact.fileSectors_lt]
  rw [openFile_eq_opened]
  refine ⟨headerBytes, tableBytes, handle.header, hopening, hmagic, hversion, htable, hheader,
    ?_, ?_⟩
  · rw [hsectors]
    exact (validateRegionEntries_eq_ok h.intact.fileSectors_lt).mpr h.intact.placed
  · rw [hsectors, ← hclean]

theorem Durable.counted (h : handle.Durable payloads) (loadedChunkCount : ℕ) :
    ({ handle with loadedChunkCount }).Durable payloads :=
  ⟨h.intact.counted _ _, h.fits, h.synced⟩

theorem durable_written (hintact : handle.Intact payloads)
    (hfits : ∀ index, (handle.header.entries index).Fits) (headerDirty : Bool) :
    ({ (handle.writeHeader none).2 with headerDirty }).Durable payloads := by
  obtain ⟨-, -, -, -, htable⟩ := hintact.opening_written
  refine ⟨(hintact.writeHeader none).counted _ _, hfits, ?_⟩
  exact fun _ => ⟨handle.header.toBytes, htable, RegionHeader.fromBytes_toBytes_of_fits hfits⟩

theorem Durable.saved (h : handle.Durable payloads) (index : ChunkIndex) (status : ChunkStatus)
    {compressed : List UInt8} (hsize : compressed.length < maxChunkSize) (hframe : compressed ≠ [])
    (hbound : handle.placement index (divCeil compressed.length sectorSize) +
      divCeil compressed.length sectorSize < 4294967296) :
    (handle.storeChunk index status compressed none).2.Intact
        (Function.update payloads index (some compressed)) ∧
      (∀ other,
        ((handle.storeChunk index status compressed none).2.header.entries other).Fits) := by
  refine ⟨h.intact.saved index status (encodeChunk_of_le hsize.le) hframe hbound, ?_⟩
  rw [storeChunk_none handle index status compressed rfl rfl]
  exact RegionHeader.fits_setEntry h.fits index
    (h.intact.savedEntry_fits index status hsize hframe hbound)

theorem Durable.cleared {handle' : RegionHandle} {index : ChunkIndex} {expected : ChunkEntry}
    (h : handle.Durable payloads)
    (hclear : handle.clearEntry index expected none = (.ok true, handle')) :
    handle'.Durable (Function.update payloads index none) := by
  have hintact := h.intact.cleared hclear
  rcases clearEntry_cases hclear with ⟨hresult, -⟩ | ⟨-, -, rfl⟩ | ⟨persisted, hresult, -⟩
  · cases hresult
  · have hfits := RegionHeader.fits_setEntry h.fits index ChunkEntry.fits_empty
    exact durable_written (h.intact.entryCleared index) hfits false
  · cases hresult

theorem clearEntry_outcome (handle : RegionHandle) (index : ChunkIndex) (expected : ChunkEntry) :
    handle.clearEntry index expected none = (.ok false, handle) ∨
      ∃ cleared, handle.clearEntry index expected none = (.ok true, cleared) := by
  unfold clearEntry
  split_ifs with hchanged
  · exact .inl rfl
  · exact .inr ⟨_, rfl⟩

end RegionHandle

namespace RegionManager

section Handles

abbrev regionOf (pos : ChunkPos) : RegionPos := RegionPos.fromChunk pos.x pos.y

variable {manager manager' : RegionManager} {pos : ChunkPos} {regionPos : RegionPos}
  {handle : RegionHandle}

theorem index_ne {other : ChunkPos} (hregion : regionOf other = regionOf pos) (hne : other ≠ pos) :
    other.regionIndex ≠ pos.regionIndex := fun hindex =>
  hne (ChunkPos.eq_of_region hregion hindex)

/-- The given handles are the ones in the map, one for each region. -/
structure Listed (manager : RegionManager) (handles : List (RegionPos × RegionHandle)) : Prop where
  nodup : (handles.map Prod.fst).Nodup
  lookup : ∀ entry ∈ handles, manager.regions.lookup entry.1 = some entry.2

theorem listed_toList (iteration : HashMap.IterationOrder RegionPos RegionHandle)
    (manager : RegionManager) : manager.Listed (iteration.toList manager.regions) := by
  have hiterates := iteration.iterates manager.regions
  exact ⟨hiterates.nodup, fun entry hentry => (hiterates.mem_iff entry.1 entry.2).mp hentry⟩

theorem Listed.tail {rest : List (RegionPos × RegionHandle)}
    (h : manager.Listed ((regionPos, handle) :: rest))
    (hother : ∀ other, other ≠ regionPos →
      manager'.regions.lookup other = manager.regions.lookup other) : manager'.Listed rest := by
  obtain ⟨hfirst, hrest⟩ := nodup_cons.mp h.nodup
  refine ⟨hrest, ?_⟩
  intro entry hentry
  rw [hother entry.1, h.lookup entry (mem_cons_of_mem _ hentry)]
  intro heq
  exact hfirst (mem_map.mpr ⟨entry, hentry, heq⟩)

theorem lookup_setHandle_of_ne {other : RegionPos} (hne : other ≠ regionPos) :
    (manager.setHandle regionPos handle).regions.lookup other =
      manager.regions.lookup other := Finmap.lookup_insert_of_ne _ hne

theorem lookup_closeHandle_of_ne {other : RegionPos} (hne : other ≠ regionPos) :
    (manager.closeHandle regionPos handle).regions.lookup other =
      manager.regions.lookup other := Finmap.lookup_erase_ne hne

end Handles

variable {manager manager' : RegionManager} {regionPos other : RegionPos} {handle : RegionHandle}

def openResult : Option ByteFile → Except IoError RegionHandle
  | none => .ok .created
  | some file =>
    match RegionHandle.openFile file with
    | .error error => .error error
    | .ok (.otherVersion _) => .ok .created
    | .ok (.opened handle) => .ok handle

def seen (manager : RegionManager) (regionPos : RegionPos) : Except IoError RegionHandle :=
  match manager.regions.lookup regionPos with
  | some handle => .ok handle
  | none => openResult (manager.files regionPos)

theorem seen_of_lookup (h : manager.regions.lookup regionPos = some handle) :
    manager.seen regionPos = .ok handle := by
  rw [seen, h]

theorem seen_congr (hlookup : manager'.regions.lookup regionPos = manager.regions.lookup regionPos)
    (hfile : manager'.files regionPos = manager.files regionPos) :
    manager'.seen regionPos = manager.seen regionPos := by
  rw [seen, seen, hlookup, hfile]

theorem seen_setHandle_self : (manager.setHandle regionPos handle).seen regionPos = .ok handle :=
  seen_of_lookup (Finmap.lookup_insert _)

theorem seen_setHandle_of_ne (hne : other ≠ regionPos) :
    (manager.setHandle regionPos handle).seen other = manager.seen other :=
  seen_congr (lookup_setHandle_of_ne hne) rfl

theorem seen_closeHandle_self :
    (manager.closeHandle regionPos handle).seen regionPos = openResult (some handle.file) := by
  rw [seen, closeHandle]
  dsimp only
  rw [Finmap.lookup_erase, update_self]

theorem seen_closeHandle_of_ne (hne : other ≠ regionPos) :
    (manager.closeHandle regionPos handle).seen other = manager.seen other :=
  seen_congr (lookup_closeHandle_of_ne hne) (update_of_ne hne _ _)

theorem openRegion_noFaults (manager : RegionManager) (regionPos : RegionPos) :
    (∃ error, openResult (manager.files regionPos) = .error error ∧
      manager.openRegion regionPos noFaults = (.error error, manager)) ∨
    ∃ handle opened, openResult (manager.files regionPos) = .ok handle ∧
      manager.openRegion regionPos noFaults = (.ok handle, opened) ∧
      opened.regions = manager.regions ∧
      ∀ other, other ≠ regionPos → opened.files other = manager.files other := by
  simp only [openRegion, openResult, createRegion, noFaults, Bool.false_eq_true, if_false]
  cases hfile : manager.files regionPos with
  | none => exact .inr ⟨_, _, rfl, rfl, rfl, fun _ _ => rfl⟩
  | some file =>
    dsimp only
    cases RegionHandle.openFile file with
    | error error => exact .inl ⟨error, rfl, rfl⟩
    | ok opening =>
      cases opening with
      | opened handle => exact .inr ⟨_, _, rfl, rfl, rfl, fun _ _ => rfl⟩
      | otherVersion version =>
        exact .inr ⟨_, _, rfl, rfl, rfl, fun other hne => update_of_ne hne _ _⟩

theorem getOrOpen_noFaults (manager : RegionManager) (regionPos : RegionPos) :
    (∃ error, manager.seen regionPos = .error error ∧
      manager.getOrOpen regionPos noFaults = (.error error, manager)) ∨
    ∃ handle opened, manager.seen regionPos = .ok handle ∧
      manager.getOrOpen regionPos noFaults = (.ok handle, opened) ∧
      opened.regions.lookup regionPos = some handle ∧
      ∀ other, other ≠ regionPos → opened.seen other = manager.seen other := by
  unfold getOrOpen
  cases hlookup : manager.regions.lookup regionPos with
  | some handle =>
    exact .inr ⟨handle, manager, seen_of_lookup hlookup, rfl, hlookup, fun _ _ => rfl⟩
  | none =>
    have hseen : manager.seen regionPos = openResult (manager.files regionPos) := by
      rw [seen, hlookup]
    rw [hseen]
    rcases openRegion_noFaults manager regionPos with
      ⟨error, hresult, hopen⟩ | ⟨handle, opened, hresult, hopen, hregions, hfiles⟩
    · rw [hopen]
      exact .inl ⟨error, hresult, rfl⟩
    · rw [hopen]
      refine .inr ⟨handle, _, hresult, rfl, Finmap.lookup_insert _, fun other hne => ?_⟩
      rw [seen_setHandle_of_ne hne]
      exact seen_congr (by rw [hregions]) (hfiles other hne)

/-! ### The stored chunks -/

section Stored

variable {P : Type} (codec : ChunkCodec P)

abbrev Stored (P : Type) := ChunkPos → Option (P × ChunkStatus)

def Serves (stored : Stored P) (regionPos : RegionPos) (handle : RegionHandle) : Prop :=
  ∃ payloads, handle.Durable payloads ∧
    ∀ pos payload status, regionOf pos = regionPos → stored pos = some (payload, status) →
      payloads pos.regionIndex = some (codec.encode payload) ∧
        (handle.header.entries pos.regionIndex).status = status

/-- Every region that can be seen has its chunks, and every region with a chunk can be seen. -/
structure Holds (manager : RegionManager) (stored : Stored P) : Prop where
  serves : ∀ regionPos handle, manager.seen regionPos = .ok handle →
    Serves codec stored regionPos handle
  opens : ∀ pos, stored pos ≠ none → ∃ handle, manager.seen (regionOf pos) = .ok handle

variable {codec} {stored stored' : Stored P}

theorem Serves.congr (h : Serves codec stored regionPos handle)
    (hsame : ∀ pos, regionOf pos = regionPos → stored' pos = stored pos) :
    Serves codec stored' regionPos handle := by
  obtain ⟨payloads, hdurable, hserves⟩ := h
  refine ⟨payloads, hdurable, ?_⟩
  intro pos payload status hregion hstored
  rw [hsame pos hregion] at hstored
  exact hserves pos payload status hregion hstored

theorem Holds.replace (h : Holds codec manager stored)
    (hseen : manager'.seen regionPos = .ok handle)
    (hother : ∀ other, other ≠ regionPos → manager'.seen other = manager.seen other)
    (hserves : Serves codec stored' regionPos handle)
    (hsame : ∀ pos, regionOf pos ≠ regionPos → stored' pos = stored pos) :
    Holds codec manager' stored' := by
  refine ⟨?_, ?_⟩
  · intro other found hfound
    by_cases heq : other = regionPos
    · rw [heq, hseen] at hfound
      obtain rfl := Except.ok.inj hfound
      rw [heq]
      exact hserves
    · rw [hother other heq] at hfound
      exact (h.serves other found hfound).congr fun pos hpos => hsame pos (hpos ▸ heq)
  · intro pos hstored
    by_cases heq : regionOf pos = regionPos
    · rw [heq]
      exact ⟨handle, hseen⟩
    · rw [hsame pos heq] at hstored
      rw [hother _ heq]
      exact h.opens pos hstored

theorem Holds.keep (h : Holds codec manager stored)
    (hseen : manager'.seen regionPos = .ok handle)
    (hother : ∀ other, other ≠ regionPos → manager'.seen other = manager.seen other)
    (hserves : Serves codec stored regionPos handle) : Holds codec manager' stored :=
  h.replace hseen hother hserves fun _ _ => rfl

theorem Serves.counted (h : Serves codec stored regionPos handle) (loadedChunkCount : ℕ) :
    Serves codec stored regionPos { handle with loadedChunkCount } := by
  obtain ⟨payloads, hdurable, hserves⟩ := h
  exact ⟨payloads, hdurable.counted loadedChunkCount, hserves⟩

theorem Serves.written (h : Serves codec stored regionPos handle) (headerDirty : Bool) :
    Serves codec stored regionPos { (handle.writeHeader none).2 with headerDirty } := by
  obtain ⟨payloads, hdurable, hserves⟩ := h
  exact ⟨payloads, RegionHandle.durable_written hdurable.intact hdurable.fits headerDirty, hserves⟩

theorem Serves.openResult_file (h : Serves codec stored regionPos handle)
    (hclean : handle.headerDirty = false) :
    openResult (some handle.file) = .ok { handle with loadedChunkCount := 0 } := by
  obtain ⟨payloads, hdurable, -⟩ := h
  rw [openResult, hdurable.reopens hclean]

def store (stored : Stored P) (pos : ChunkPos) (payload : P) (status : ChunkStatus) : Stored P :=
  Function.update stored pos (some (payload, status))

variable {pos : ChunkPos} {payload : P}

variable {handle' : RegionHandle} {compressed : List UInt8} {minY height : Int}
  {files : RegionPos → Option ByteFile}

theorem Serves.afterSave (h : Serves codec stored (regionOf pos) handle)
    (status : ChunkStatus) (hsize : (codec.encode payload).length < maxChunkSize)
    (hbound : handle.placement pos.regionIndex
        (divCeil (codec.encode payload).length sectorSize) +
      divCeil (codec.encode payload).length sectorSize < 4294967296)
    (hstore : handle.storeChunk pos.regionIndex status
      (codec.encode payload) none = (.ok (), handle')) :
    Serves codec (store stored pos payload status) (regionOf pos)
        { handle' with headerDirty := true } ∧
      Serves codec (store stored pos payload status) (regionOf pos)
        { (handle'.writeHeader none).2 with headerDirty := false } := by
  obtain ⟨payloads, hdurable, hserves⟩ := h
  obtain ⟨hintact, hfits⟩ := hdurable.saved pos.regionIndex status hsize
    (codec.encode_ne_nil payload) hbound
  have hentries : ∀ other, handle'.header.entries other = if other = pos.regionIndex then
      ⟨handle.placement pos.regionIndex (divCeil (codec.encode payload).length sectorSize),
        (codec.encode payload).length, status⟩ else handle.header.entries other := by
    intro other
    rw [RegionHandle.storeChunk_none handle _ status _ rfl rfl, Prod.mk.injEq] at hstore
    rw [← hstore.2]
    by_cases heq : other = pos.regionIndex
    · rw [if_pos heq, heq, RegionHeader.setEntry_self]
    · rw [if_neg heq, RegionHeader.setEntry_of_ne _ heq]
  rw [hstore] at hintact hfits
  -- the chunks of the region after the save
  have hafter : ∀ p payload' status', regionOf p = regionOf pos →
      store stored pos payload status p = some (payload', status') →
      Function.update payloads pos.regionIndex (some (codec.encode payload)) p.regionIndex =
          some (codec.encode payload') ∧
        (handle'.header.entries p.regionIndex).status = status' := by
    intro p payload' status' hregion hstored
    rw [store, update_apply] at hstored
    rw [hentries]
    by_cases heq : p = pos
    · rw [if_pos heq, Option.some.injEq, Prod.mk.injEq] at hstored
      rw [heq, update_self, if_pos rfl, hstored.1]
      exact ⟨rfl, hstored.2⟩
    · rw [if_neg heq] at hstored
      have hindex := index_ne hregion heq
      rw [update_of_ne hindex, if_neg hindex]
      exact hserves p payload' status' hregion hstored
  refine ⟨⟨_, ⟨hintact.counted _ _, hfits, fun hclean => absurd hclean Bool.noConfusion⟩, hafter⟩,
    ⟨_, RegionHandle.durable_written hintact hfits false, hafter⟩⟩

/-! ### Operations -/

theorem Holds.of_seen (h : Holds codec manager stored)
    (hseen : ∀ regionPos, manager'.seen regionPos = manager.seen regionPos) :
    Holds codec manager' stored := by
  refine ⟨?_, ?_⟩
  · intro regionPos handle hhandle
    rw [hseen] at hhandle
    exact h.serves regionPos handle hhandle
  · intro pos hstored
    rw [hseen]
    exact h.opens pos hstored

theorem Holds.setHandle (h : Holds codec manager stored)
    (hserves : Serves codec stored regionPos handle) :
    Holds codec (manager.setHandle regionPos handle) stored :=
  h.keep seen_setHandle_self (fun _ hne => seen_setHandle_of_ne hne) hserves

theorem Holds.closeHandle (h : Holds codec manager stored)
    (hserves : Serves codec stored' regionPos handle) (hclean : handle.headerDirty = false)
    (hsame : ∀ pos, regionOf pos ≠ regionPos → stored' pos = stored pos) :
    Holds codec (manager.closeHandle regionPos handle) stored' := by
  refine h.replace ?_ (fun _ hne => seen_closeHandle_of_ne hne) (hserves.counted 0) hsame
  rw [seen_closeHandle_self]
  exact hserves.openResult_file hclean

theorem Holds.acquireChunk (h : Holds codec manager stored) (pos : ChunkPos) :
    Holds codec (manager.acquireChunk pos noFaults).2 stored := by
  unfold RegionManager.acquireChunk
  dsimp only
  rcases getOrOpen_noFaults manager (regionOf pos) with
    ⟨error, -, hget⟩ | ⟨handle, opened, hseen, hget, hlookup, hother⟩
  · rw [hget]
    exact h
  · rw [hget]
    refine h.keep seen_setHandle_self (fun other hne => ?_) ((h.serves _ _ hseen).counted _)
    rw [seen_setHandle_of_ne hne, hother other hne]

theorem saveChunkData_noFaults (manager : RegionManager) (pos : ChunkPos) (status : ChunkStatus)
    (hencode : encodeChunk compressed = .ok compressed) :
    (∃ error, manager.seen (regionOf pos) = .error error ∧
      manager.saveChunkData pos status compressed noFaults = (.error error, manager)) ∨
    ∃ (handle : RegionHandle) (opened : RegionManager) (handle' : RegionHandle),
      manager.seen (regionOf pos) = .ok handle ∧
      (∀ other, other ≠ regionOf pos → opened.seen other = manager.seen other) ∧
      handle.storeChunk pos.regionIndex status compressed none = (.ok (), handle') ∧
      (manager.saveChunkData pos status compressed noFaults =
          (.ok true, opened.closeHandle (regionOf pos) (handle'.writeHeader none).2) ∨
        manager.saveChunkData pos status compressed noFaults =
          (.ok true, opened.setHandle (regionOf pos) { handle' with headerDirty := true })) := by
  unfold saveChunkData
  rw [hencode]
  dsimp only
  rcases getOrOpen_noFaults manager (regionOf pos) with
    ⟨error, hseen, hget⟩ | ⟨handle, opened, hseen, hget, -, hother⟩
  · rw [hget]
    exact .inl ⟨error, hseen, rfl⟩
  · refine .inr ⟨handle, opened, _, hseen, hother,
      RegionHandle.storeChunk_none handle _ status compressed rfl rfl, ?_⟩
    rw [hget]
    dsimp only [noFaults]
    rw [RegionHandle.storeChunk_none handle _ status compressed rfl rfl]
    dsimp only
    split_ifs with hclose
    · exact .inl rfl
    · exact .inr rfl

def storedAfterSave (stored : Stored P) (pos : ChunkPos) (payload : P) (status : ChunkStatus)
    (result : Except IoError Bool) : Stored P :=
  match result with
  | .ok true => store stored pos payload status
  | _ => stored

def SectorsFit (manager : RegionManager) (pos : ChunkPos) (compressed : List UInt8) : Prop :=
  ∀ handle, manager.seen (regionOf pos) = .ok handle →
    handle.placement pos.regionIndex (divCeil compressed.length sectorSize) +
      divCeil compressed.length sectorSize < 4294967296

theorem Holds.saveChunkData (h : Holds codec manager stored) (pos : ChunkPos) (status : ChunkStatus)
    (hsize : (codec.encode payload).length < maxChunkSize)
    (hfit : SectorsFit manager pos (codec.encode payload)) :
    Holds codec (manager.saveChunkData pos status (codec.encode payload) noFaults).2
      (storedAfterSave stored pos payload status
        (manager.saveChunkData pos status (codec.encode payload) noFaults).1) := by
  have hsame : ∀ p, regionOf p ≠ regionOf pos →
      store stored pos payload status p = stored p := by
    intro p hregion
    exact update_of_ne (fun heq => hregion (by rw [heq])) _ _
  rcases saveChunkData_noFaults manager pos status
      (RegionHandle.encodeChunk_of_le hsize.le) with
    ⟨error, -, hsave⟩ | ⟨handle, opened, handle', hseen, hother, hstore, hsave | hsave⟩
  · rw [hsave]
    exact h
  · obtain ⟨-, hwritten⟩ := (h.serves _ _ hseen).afterSave status hsize (hfit handle hseen) hstore
    rw [hsave]
    refine h.replace ?_ (fun other hne => ?_) (hwritten.counted 0) hsame
    · rw [seen_closeHandle_self]
      exact hwritten.openResult_file rfl
    · rw [seen_closeHandle_of_ne hne, hother other hne]
  · obtain ⟨hmarked, -⟩ := (h.serves _ _ hseen).afterSave status hsize (hfit handle hseen) hstore
    rw [hsave]
    refine h.replace seen_setHandle_self (fun other hne => ?_) hmarked hsame
    rw [seen_setHandle_of_ne hne, hother other hne]

theorem Holds.releaseChunk (h : Holds codec manager stored) (pos : ChunkPos) :
    Holds codec (manager.releaseChunk pos none).2 stored := by
  unfold RegionManager.releaseChunk
  dsimp only
  cases hlookup : manager.regions.lookup (regionOf pos) with
  | none => exact h
  | some handle =>
    have hserves := (h.serves _ _ (seen_of_lookup hlookup)).counted (handle.loadedChunkCount - 1)
    dsimp only
    split_ifs with hcount hclean
    · exact h.setHandle hserves
    · exact h.closeHandle hserves (by simpa using hclean) fun _ _ => rfl
    · have hwritten := h.closeHandle (hserves.written false) rfl fun _ _ => rfl
      exact hwritten.of_seen fun _ => rfl

theorem Holds.flushHandles (handles : List (RegionPos × RegionHandle)) {manager : RegionManager}
    (h : Holds codec manager stored) (hlisted : manager.Listed handles) :
    Holds codec (RegionManager.flushHandles (fun _ => none) handles manager).2 stored := by
  induction handles generalizing manager with
  | nil => exact h
  | cons entry rest ih =>
    obtain ⟨regionPos, handle⟩ := entry
    have hserves := h.serves _ _
      (seen_of_lookup (hlisted.lookup (regionPos, handle) mem_cons_self))
    rw [RegionManager.flushHandles]
    split_ifs with hdirty
    · exact ih (h.setHandle (hserves.written false))
        (hlisted.tail fun _ hne => lookup_setHandle_of_ne hne)
    · exact ih h (hlisted.tail fun _ _ => rfl)

theorem Holds.closeHandles (handles : List (RegionPos × RegionHandle)) {manager : RegionManager}
    (h : Holds codec manager stored) (hlisted : manager.Listed handles) :
    Holds codec (RegionManager.closeHandles (fun _ => none) handles manager).2 stored := by
  induction handles generalizing manager with
  | nil => exact h
  | cons entry rest ih =>
    obtain ⟨regionPos, handle⟩ := entry
    have hserves := h.serves _ _
      (seen_of_lookup (hlisted.lookup (regionPos, handle) mem_cons_self))
    rw [RegionManager.closeHandles]
    split_ifs with hdirty
    · have hclosed := h.closeHandle (hserves.written false) rfl fun _ _ => rfl
      exact ih (hclosed.of_seen fun _ => rfl)
        (hlisted.tail fun _ hne => lookup_closeHandle_of_ne hne)
    · exact ih (h.closeHandle hserves (by simpa using hdirty) fun _ _ => rfl)
        (hlisted.tail fun _ hne => lookup_closeHandle_of_ne hne)

/-! ### Loads -/

theorem Holds.loadChunk_stored (h : Holds codec manager stored)
    (hopen : manager.regions.lookup (regionOf pos) = some handle) {status : ChunkStatus}
    (hstored : stored pos = some (payload, status)) (haligned : SectionAligned minY height)
    (fault : WriteFault) :
    manager.loadChunk codec pos minY height fault = (.ok (some (payload, status)), manager) := by
  obtain ⟨payloads, hdurable, hserves⟩ := h.serves _ _ (seen_of_lookup hopen)
  obtain ⟨hpayload, hstatus⟩ := hserves pos payload status rfl hstored
  rw [RegionManager.loadChunk, readChunk_of_open pos hopen hdurable.intact hpayload haligned]
  dsimp only
  rw [codec.decode_encode]
  dsimp only
  rw [hstatus]

theorem Serves.afterClear (h : Serves codec stored (regionOf pos) handle)
    (hnone : stored pos = none) {expected : ChunkEntry}
    (hclear : handle.clearEntry pos.regionIndex expected none = (.ok true, handle')) :
    Serves codec stored (regionOf pos) handle' := by
  obtain ⟨payloads, hdurable, hserves⟩ := h
  refine ⟨_, hdurable.cleared hclear, ?_⟩
  intro p payload status hregion hstored
  have hne : p ≠ pos := by
    rintro rfl
    rw [hnone] at hstored
    cases hstored
  have hindex := index_ne hregion hne
  obtain ⟨hpayload, hstatus⟩ := hserves p payload status hregion hstored
  rw [update_of_ne hindex]
  refine ⟨hpayload, ?_⟩
  rcases RegionHandle.clearEntry_cases hclear with
    ⟨hresult, -⟩ | ⟨-, -, rfl⟩ | ⟨persisted, hresult, -⟩
  · cases hresult
  · dsimp only
    rw [RegionHeader.setEntry_of_ne _ hindex]
    exact hstatus
  · cases hresult

theorem readChunk_some {entry : ChunkEntry}
    (hread : manager.readChunk pos minY height = .ok (some (compressed, entry))) :
    SectionAligned minY height ∧ ∃ handle, manager.regions.lookup (regionOf pos) = some handle := by
  unfold readChunk at hread
  split_ifs at hread with hrange
  cases hlookup : manager.regions.lookup (regionOf pos) with
  | none =>
    rw [hlookup] at hread
    cases hread
  | some handle =>
    rw [not_or, not_or, not_not, not_not, not_le] at hrange
    exact ⟨hrange, handle, rfl⟩

theorem Holds.loadChunk (h : Holds codec manager stored) (pos : ChunkPos) (minY height : Int) :
    Holds codec (manager.loadChunk codec pos minY height none).2 stored := by
  unfold RegionManager.loadChunk
  cases hread : manager.readChunk pos minY height with
  | error error => exact h
  | ok found =>
    rcases found with - | ⟨compressed, entry⟩
    · exact h
    · obtain ⟨haligned, handle, hopen⟩ := readChunk_some hread
      have hserves := h.serves _ _ (seen_of_lookup hopen)
      dsimp only
      cases hdecode : codec.decode compressed with
      | ok payload => exact h
      | error error =>
        have hnone : stored pos = none := by
          cases hstored : stored pos with
          | none => rfl
          | some value =>
            obtain ⟨payloads, hdurable, hpayloads⟩ := hserves
            obtain ⟨hpayload, -⟩ := hpayloads pos value.1 value.2 rfl hstored
            rw [readChunk_of_open pos hopen hdurable.intact hpayload haligned] at hread
            simp only [Except.ok.injEq, Option.some.injEq, Prod.mk.injEq] at hread
            rw [← hread.1, codec.decode_encode] at hdecode
            cases hdecode
        simp only [finishLoad, clearCorruptChunkIfUnchanged, hopen]
        rcases RegionHandle.clearEntry_outcome handle pos.regionIndex entry with
          hclear | ⟨cleared, hclear⟩
        · rw [hclear]
          exact h.setHandle hserves
        · rw [hclear]
          exact h.setHandle (hserves.afterClear hnone hclear)

/-! ### Runs -/

/-- An operation of the manager. The open regions may be visited in a different order each time. -/
inductive StoreOperation (P : Type) where
  | acquireChunk (pos : ChunkPos)
  | saveChunkData (pos : ChunkPos) (status : ChunkStatus) (payload : P)
  | loadChunk (pos : ChunkPos) (minY height : Int)
  | releaseChunk (pos : ChunkPos)
  | flushAll (iteration : HashMap.IterationOrder RegionPos RegionHandle)
  | closeAll (iteration : HashMap.IterationOrder RegionPos RegionHandle)

def perform (codec : ChunkCodec P) (manager : RegionManager) (stored : Stored P) :
    StoreOperation P → RegionManager × Stored P
  | .acquireChunk pos => ((manager.acquireChunk pos noFaults).2, stored)
  | .saveChunkData pos status payload =>
    let (result, manager) := manager.saveChunkData pos status (codec.encode payload) noFaults
    (manager, storedAfterSave stored pos payload status result)
  | .loadChunk pos minY height => ((manager.loadChunk codec pos minY height none).2, stored)
  | .releaseChunk pos => ((manager.releaseChunk pos none).2, stored)
  | .flushAll iteration => ((manager.flushAll iteration fun _ => none).2, stored)
  | .closeAll iteration => ((manager.closeAll iteration fun _ => none).2, stored)

/-- Payloads are shorter than `2 ^ 24` bytes, and sector numbers smaller than `2 ^ 32`. -/
def Permitted (codec : ChunkCodec P) (manager : RegionManager) : StoreOperation P → Prop
  | .saveChunkData pos _ payload => (codec.encode payload).length < 2 ^ 24 ∧
      SectorsFit manager pos (codec.encode payload)
  | _ => True

/-- Runs without failures, from the files of a directory, with what they stored. -/
inductive StoreReached (codec : ChunkCodec P) (files : RegionPos → Option ByteFile) :
    RegionManager → Stored P → Prop
  | new : StoreReached codec files (.new files) fun _ => none
  | perform {manager : RegionManager} {stored : Stored P} (operation : StoreOperation P)
      (h : StoreReached codec files manager stored)
      (hpermitted : Permitted codec manager operation) :
      StoreReached codec files (manager.perform codec stored operation).1
        (manager.perform codec stored operation).2

theorem Holds.perform (h : Holds codec manager stored) {operation : StoreOperation P}
    (hpermitted : Permitted codec manager operation) :
    Holds codec (manager.perform codec stored operation).1
      (manager.perform codec stored operation).2 := by
  cases operation with
  | acquireChunk pos => exact h.acquireChunk pos
  | saveChunkData pos status payload =>
    exact h.saveChunkData pos status hpermitted.1 hpermitted.2
  | loadChunk pos minY height => exact h.loadChunk pos minY height
  | releaseChunk pos => exact h.releaseChunk pos
  | flushAll iteration => exact h.flushHandles _ (listed_toList iteration manager)
  | closeAll iteration => exact h.closeHandles _ (listed_toList iteration manager)

def FilesFit (files : RegionPos → Option ByteFile) : Prop :=
  ∀ regionPos file, files regionPos = some file → divCeil file.length sectorSize < 4294967296

theorem holds_new (codec : ChunkCodec P) (hfiles : FilesFit files) :
    Holds codec (.new files) fun _ => none := by
  refine ⟨?_, fun pos hstored => absurd rfl hstored⟩
  intro regionPos handle hseen
  have hdurable : ∃ payloads, handle.Durable payloads := by
    rw [seen, new, Finmap.lookup_empty] at hseen
    dsimp only at hseen
    cases hfile : files regionPos with
    | none =>
      rw [hfile] at hseen
      obtain rfl := Except.ok.inj hseen
      exact ⟨_, RegionHandle.created_durable⟩
    | some file =>
      rw [hfile, openResult] at hseen
      cases hopen : RegionHandle.openFile file with
      | error error =>
        rw [hopen] at hseen
        cases hseen
      | ok opening =>
        rw [hopen] at hseen
        cases opening with
        | opened found =>
          obtain rfl := Except.ok.inj hseen
          exact ⟨_, RegionHandle.opened_durable hopen (hfiles regionPos file hfile)⟩
        | otherVersion version =>
          obtain rfl := Except.ok.inj hseen
          exact ⟨_, RegionHandle.created_durable⟩
  obtain ⟨payloads, hpayloads⟩ := hdurable
  exact ⟨payloads, hpayloads, fun pos payload status _ hstored =>
    absurd hstored (Option.some_ne_none _).symm⟩

theorem StoreReached.holds (hfiles : FilesFit files) (h : StoreReached codec files manager stored) :
    Holds codec manager stored := by
  induction h with
  | new => exact holds_new codec hfiles
  | perform operation _ hpermitted ih => exact ih.perform hpermitted

/-- After any run, a load of a chunk whose region is open yields what was last saved for it. A
region that is closed can be acquired, and then the load yields the same. -/
theorem storeReached_loadChunk {files : RegionPos → Option ByteFile} (hfiles : FilesFit files)
    (h : StoreReached codec files manager stored) {pos : ChunkPos} {payload : P}
    {status : ChunkStatus} (hstored : stored pos = some (payload, status)) {minY height : Int}
    (haligned : SectionAligned minY height) :
    (regionOf pos ∈ manager.regions →
      (manager.loadChunk codec pos minY height none).1 = .ok (some (payload, status))) ∧
    (manager.acquireChunk pos noFaults).1 = .ok true ∧
    ((manager.acquireChunk pos noFaults).2.loadChunk codec pos minY height none).1 =
      .ok (some (payload, status)) := by
  have hholds := h.holds hfiles
  refine ⟨?_, ?_⟩
  · intro hmem
    obtain ⟨handle, hopen⟩ := Finmap.mem_iff.mp hmem
    rw [hholds.loadChunk_stored hopen hstored haligned]
  · have hacquired := hholds.acquireChunk pos
    obtain ⟨handle, hseen⟩ := hholds.opens pos (by rw [hstored]; exact Option.some_ne_none _)
    rcases getOrOpen_noFaults manager (regionOf pos) with
      ⟨error, herror, -⟩ | ⟨found, opened, hfound, hget, -, -⟩
    · rw [hseen] at herror
      cases herror
    · obtain ⟨payloads, hdurable, hserves⟩ := hholds.serves _ _ hfound
      obtain ⟨hpayload, -⟩ := hserves pos payload status rfl hstored
      have hexists := (hdurable.intact.held _ _ hpayload).1
      have hacquire : manager.acquireChunk pos noFaults = (.ok true, opened.setHandle (regionOf pos)
          { found with loadedChunkCount := found.loadedChunkCount + 1 }) := by
        rw [RegionManager.acquireChunk, hget, ← hexists]
      rw [hacquire] at hacquired ⊢
      refine ⟨rfl, ?_⟩
      rw [hacquired.loadChunk_stored (Finmap.lookup_insert _) hstored haligned]

end Stored

theorem flushHandles_clean (handles : List (RegionPos × RegionHandle)) {manager : RegionManager}
    (h : ∀ pos handle, manager.regions.lookup pos = some handle → handle.headerDirty = true →
      (pos, handle) ∈ handles) {pos : RegionPos} {handle : RegionHandle}
    (hlookup : (flushHandles (fun _ => none) handles manager).2.regions.lookup pos = some handle) :
    handle.headerDirty = false := by
  induction handles generalizing manager with
  | nil => simpa using mt (h pos handle hlookup) not_mem_nil
  | cons entry rest ih =>
    obtain ⟨first, firstHandle⟩ := entry
    rw [flushHandles] at hlookup
    split_ifs at hlookup with hdirty
    · refine ih (fun pos handle hfound hset => ?_) hlookup
      by_cases heq : pos = first
      · rw [heq, setHandle, Finmap.lookup_insert] at hfound
        cases hfound
        cases hset
      · rw [lookup_setHandle_of_ne heq] at hfound
        simpa [heq] using h pos handle hfound hset
    · refine ih (fun pos handle hfound hset => ?_) hlookup
      refine (mem_cons.mp (h pos handle hfound hset)).resolve_left ?_
      rintro ⟨⟩
      exact hdirty hset

theorem closeHandles_of_clean (faults : RegionPos → WriteFault)
    {handles : List (RegionPos × RegionHandle)} (manager : RegionManager)
    (h : ∀ entry ∈ handles, entry.2.headerDirty = false) :
    closeHandles faults handles manager = closeHandles (fun _ => none) handles manager := by
  induction handles generalizing manager with
  | nil => rfl
  | cons entry rest ih =>
    have hclean := h entry mem_cons_self
    simp [closeHandles, hclean, ih _ fun other hother => h other (mem_cons_of_mem _ hother)]

/-- Once all tables are flushed, a close writes nothing, so faults make no difference to it. -/
theorem closeAll_of_flushed (manager : RegionManager)
    (iteration iteration' : HashMap.IterationOrder RegionPos RegionHandle)
    (faults : RegionPos → WriteFault) :
    (manager.flushAll iteration fun _ => none).2.closeAll iteration' faults =
      (manager.flushAll iteration fun _ => none).2.closeAll iteration' fun _ => none := by
  refine closeHandles_of_clean faults _ fun entry hentry => ?_
  have hiterates := iteration.iterates manager.regions
  have hlookup := ((iteration'.iterates _).mem_iff entry.1 entry.2).mp hentry
  exact flushHandles_clean _
    (fun pos handle hfound _ => (hiterates.mem_iff pos handle).mpr hfound) hlookup

def byteCodec : ChunkCodec UInt8 where
  encode byte := [byte]
  decode
    | [byte] => .ok byte
    | _ => .error "not one byte"
  decode_encode _ := rfl
  encode_ne_nil _ := cons_ne_nil _ _

theorem saveChunkData_first (pos : ChunkPos) (status : ChunkStatus) {compressed : List UInt8}
    (hencode : encodeChunk compressed = .ok compressed) :
    ∃ handle, (new fun _ => none).saveChunkData pos status compressed noFaults =
      (.ok true, ((new fun _ => none).setHandle (regionOf pos) .created).closeHandle (regionOf pos)
        handle) := by
  unfold saveChunkData
  rw [hencode]
  dsimp only
  have hget : (new fun _ => none).getOrOpen (regionOf pos) noFaults =
      (.ok .created, (new fun _ => none).setHandle (regionOf pos) .created) := rfl
  rw [hget]
  dsimp only [noFaults]
  rw [RegionHandle.storeChunk_none .created _ status compressed rfl rfl]
  dsimp only
  have hclosed : regionOf pos ∉ (new fun _ => none).regions := Finmap.notMem_empty
  rw [if_pos ⟨decide_eq_true hclosed, rfl⟩]
  exact ⟨_, rfl⟩

theorem storeReached_first (pos : ChunkPos) (byte : UInt8) (status : ChunkStatus) :
    ∃ handle, StoreReached byteCodec (fun _ => none)
      (((new fun _ => none).setHandle (regionOf pos) .created).closeHandle (regionOf pos) handle)
      (store (fun _ => none) pos byte status) := by
  have hlength : [byte].length = 1 := rfl
  have hsize : [byte].length < maxChunkSize := by
    rw [hlength]
    decide
  obtain ⟨handle, hsave⟩ := saveChunkData_first pos status
    (RegionHandle.encodeChunk_of_le hsize.le)
  have hfit : SectorsFit (new fun _ => none) pos [byte] := by
    intro found hfound
    obtain rfl := Except.ok.inj hfound
    rw [hlength, RegionHandle.placement_created _ (by decide)]
    decide
  have hnew : StoreReached byteCodec (fun _ => none) (new fun _ => none) fun _ => none := .new
  have hreached := hnew.perform (.saveChunkData pos status byte) ⟨hsize, hfit⟩
  simp only [perform, byteCodec, hsave] at hreached
  exact ⟨handle, hreached⟩

theorem storeReached_loadChunk_first : ∃ (manager : RegionManager) (stored : Stored UInt8),
    FilesFit (fun _ => none) ∧ StoreReached byteCodec (fun _ => none) manager stored ∧
      stored ⟨0, 0⟩ = some (7, .full) ∧
      ((manager.acquireChunk ⟨0, 0⟩ noFaults).2.loadChunk byteCodec ⟨0, 0⟩ 0 16 none).1 =
        .ok (some (7, .full)) := by
  obtain ⟨handle, hreached⟩ := storeReached_first ⟨0, 0⟩ 7 .full
  have hfiles : FilesFit fun _ => none := fun _ _ hfile => nomatch hfile
  have hstored := update_self (⟨0, 0⟩ : ChunkPos)
    (some ((7 : UInt8), ChunkStatus.full)) fun _ => none
  exact ⟨_, _, hfiles, hreached, hstored,
    (storeReached_loadChunk hfiles hreached hstored ⟨by decide, rfl, rfl⟩).2.2⟩

/-- A load without an acquired region yields nothing, whatever was saved. -/
theorem loadChunk_notAcquired : ∃ (manager : RegionManager) (stored : Stored UInt8),
    StoreReached byteCodec (fun _ => none) manager stored ∧ stored ⟨0, 0⟩ = some (7, .full) ∧
      (manager.loadChunk byteCodec ⟨0, 0⟩ 0 16 none).1 = .ok none := by
  obtain ⟨handle, hreached⟩ := storeReached_first ⟨0, 0⟩ 7 .full
  refine ⟨_, _, hreached, update_self _ _ _, ?_⟩
  rw [loadChunk, readChunk, if_neg (by decide)]
  dsimp only [closeHandle]
  rw [Finmap.lookup_erase]

end RegionManager

end Steel
