import KanekFs.Dict.Live
import KanekFs.Dict.Map
import KanekFs.Dict.Ownership
import KanekFs.Hash.Xxh
import KanekFs.Map.Find
import KanekFs.Map.SetExtent
import KanekFs.Map.Complete
import KanekFs.Map.Inside
import KanekFs.Map.Grow
import KanekFs.Map.Calls
import KanekFs.Mkfs.BlockMap
import KanekFs.Mkfs.Regions
import KanekFs.Super.Verify
import KanekFs.Super.Encode
import KanekFs.Super.Umount
import KanekFs.Super.Life
import KanekFs.Page.Transparency
import KanekFs.Page.Coherence
import KanekFs.Page.Sync
import KanekFs.Page.Failure
import KanekFs.Page.Durability
import KanekFs.Cache.NoDrop
import KanekFs.Cache.Barrier
import KanekFs.Cache.Lookup
import KanekFs.Cache.Transfer
import KanekFs.Cache.Lru
import KanekFs.Cache.Section
import KanekFs.Cache.Refinement
import KanekFs.Page.Concurrent
import KanekFs.Slots.Records
import KanekFs.Slots.Count
import KanekFs.Slots.SlotCache
import KanekFs.Config.Assignments
import KanekFs.Config.Comments
import KanekFs.Gc.Sweep
import KanekFs.Gc.Realloc
import KanekFs.Mkfs.ValidateSize
import KanekFs.Mkfs.ParseOpts
