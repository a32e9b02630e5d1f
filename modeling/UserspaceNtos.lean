import UserspaceNtos.Fs.WalTear
import UserspaceNtos.Fs.AnchorRuns
import UserspaceNtos.Fs.ByteLockQueue
import UserspaceNtos.Security.SystemSecurity
import UserspaceNtos.Security.TokenFilter
import UserspaceNtos.AddressSpace.VmPages
import UserspaceNtos.HiveCore.ImageRoundTrip
import UserspaceNtos.HiveCore.Mounts
import UserspaceNtos.HiveCore.Overlay
import UserspaceNtos.HiveCore.ReaderAgreement
import UserspaceNtos.IoCompletion.FileSimulation
import UserspaceNtos.HardwareResources.Grants
import UserspaceNtos.ProviderWait.ArbiterRuns
import UserspaceNtos.KernelExec.Timer
import UserspaceNtos.PushLock.Safety
import UserspaceNtos.RtlBitmap.RunSearches
import UserspaceNtos.RtlAtom.AtomTable
import UserspaceNtos.MemoryManager.WorkingSet
import UserspaceNtos.Unwind.CScopes
