import TensorAlloc.MovableUnit
import TensorAlloc.FreeExact
import TensorAlloc.FreeSparse
import TensorAlloc.Init
import TensorAlloc.Find
import TensorAlloc.Slab
import TensorAlloc.Links
import TensorAlloc.Flags
import TensorAlloc.Windows
import TensorAlloc.SparseIndex
import TensorAlloc.Stream
import TensorAlloc.SparseTable
import TensorAlloc.Marks
import TensorAlloc.Dispatch
import TensorAlloc.Counter
import TensorAlloc.Boot
import TensorAlloc.Borrow
import TensorAlloc.Lend
import TensorAlloc.SearchMode
import TensorAlloc.LruCache
import TensorAlloc.DebugLimit
import TensorAlloc.Hotplug
import TensorAlloc.FreeArray
import TensorAlloc.Sizes
import TensorAlloc.Admission
import TensorAlloc.Postprocess
import TensorAlloc.SlabAddress
import TensorAlloc.LinearSpace
import TensorAlloc.SequenceSplit
import TensorAlloc.Reuse
import TensorAlloc.TableFill
import TensorAlloc.RegionBoot
import TensorAlloc.SparseRuns
import TensorAlloc.RangeRuns
import TensorAlloc.ListWalk
import TensorAlloc.RegionGrow
import TensorAlloc.Bitmap
import TensorAlloc.RegionLinks
import TensorAlloc.RequestRuns
