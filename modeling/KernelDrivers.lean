import KernelDrivers.Fat.NameRun
import KernelDrivers.Fat.CloseQueue
import KernelDrivers.Fat.TeardownRun
import KernelDrivers.Fat.DirentRun
import KernelDrivers.Awe.Session
import KernelDrivers.ImDisk.Queue
import KernelDrivers.ImDisk.ParallelRun
import KernelDrivers.Fat.PagingRun
import KernelDrivers.Fat.CleanupRun
import KernelDrivers.Fat.StaleData
import KernelDrivers.ImDisk.ProxyAnswers
import KernelDrivers.ImDisk.DevioDisk
import KernelDrivers.CoreMnt.Unmount
import KernelDrivers.Fat.VolumeBitmap
import KernelDrivers.Fat.Defrag
import KernelDrivers.Fat.Times
import KernelDrivers.Fat.EaSet
import KernelDrivers.Fat.WriteOut
import KernelDrivers.Awe.CopyLoop
import KernelDrivers.Fat.MultipleAsync
import KernelDrivers.ImDisk.VhdSigned
import KernelDrivers.ImDisk.VhdBitmap
import KernelDrivers.ImDisk.VhdFaults
import KernelDrivers.Fat.PackedEas
import KernelDrivers.Fat.QueryRun
import KernelDrivers.Fat.EaInsertPlan
import KernelDrivers.ImDisk.Extended
import KernelDrivers.ImDisk.CreateDevice
import KernelDrivers.ImDisk.Format
import KernelDrivers.ImDisk.Trim
import KernelDrivers.ImDisk.SafeRead
import KernelDrivers.ImDisk.SaveImage
import KernelDrivers.ImDisk.ByteSwap
import KernelDrivers.Fat.Chunking
import KernelDrivers.Fat.Enumeration
import KernelDrivers.ImDisk.NativePath
import KernelDrivers.CoreMnt.LogBlocks
import KernelDrivers.Fat.RetrievalPointers
import KernelDrivers.RamDisk.FormatDisk
import KernelDrivers.CoreMnt.SparseTrust
import KernelDrivers.Fat.WorkQueue
import KernelDrivers.Fat.CleanVolume
