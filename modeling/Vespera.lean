import Vespera.Scheduling.NoneLost
import Vespera.Sys.Confinement
import Vespera.Memory.FileSharing
import Vespera.Ipc.Messages
import Vespera.Exec.Chroot
import Vespera.Exec.SlotReuse
import Vespera.Exec.Sessions
import Vespera.Realm.HandleRefs
import Vespera.Realm.UnitSlots
import Vespera.Ipc.VBus
import Vespera.Memory.EfiMap
import Vespera.Memory.PageWalk
import Vespera.Realm.ExitStatus
import Vespera.Userspace.Stdio
import Vespera.Memory.ExactCuts
import Vespera.Memory.FreeRange
import Vespera.Memory.LowestRun
import Vespera.Signal.FrameBounds
import Vespera.Userspace.MallocRuns
import Vespera.Realm.UserStacks
import Vespera.Tty.LineInput
import Vespera.Time.CallbackTimer
import Vespera.Fat32.Fat
import Vespera.Vfs.PathNames
import Vespera.Fat32.LongNames
import Vespera.Klib.QueueList
import Vespera.Usb.ProducerRing
