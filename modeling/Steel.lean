import Steel.Proof.PaletteRoundTrip
import Steel.Proof.TicketExpiry
import Steel.Proof.TickListSave
import Steel.Proof.NeighborUpdaterRun
import Steel.Proof.PlayerAreaRun
import Steel.Proof.PlayerTrackingRun
import Steel.Proof.ChunkPersistenceRun
import Steel.Proof.RegionStore
import Steel.Proof.SignatureCacheRun
import Steel.Proof.MessageChainRun
import Steel.Proof.IncomingTaskRun
import Steel.Proof.PermissionResolution
import Steel.Proof.RunBatchRun
import Steel.Proof.FullNeighborhoodRun
import Steel.Proof.TicketSave
import Steel.Utils.SpiralAround
import Steel.Proof.SectionRun
import Steel.Proof.ReadUtf
import Steel.Proof.PlayerMapRun
import Steel.Proof.WorkGateRun
import Steel.Proof.CraftingTaken
import Steel.Proof.ManhattanOrder
import Steel.Proof.BreadthFirst
import Steel.Proof.RequestLeases
import Steel.Proof.SkySourcesRun
import Steel.Proof.ExecutionQueue
import Steel.Player.BatchPacing
import Steel.Proof.MessageWindow
import Steel.World.StructurePlacement
import Steel.Utils.BlockUtil
import Steel.World.BoxOctree
import Steel.Redstone.WireEvaluator
import Steel.Redstone.PistonStructure
import Steel.Proof.PacketSafety
import Steel.Proof.Suggestions
import Steel.Proof.NbtPathSet
import Steel.Login.Authentication
import Steel.Entity.OrderedIds
import Steel.Chunk.RandomTickSections
