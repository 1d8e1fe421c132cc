import Magisk.Base.Dir
import Magisk.Base.MountInfo
import Magisk.Boot.Chunks
import Magisk.Boot.CpioBounds
import Magisk.Boot.CpioKeys
import Magisk.Boot.Dhtb
import Magisk.Boot.Dtb
import Magisk.Boot.FstabFlags
import Magisk.Boot.Hexpatch
import Magisk.Boot.ImgInside
import Magisk.Boot.KernelSplit
import Magisk.Boot.Lz4Failure
import Magisk.Boot.Lz4Variant
import Magisk.Boot.Payload
import Magisk.Boot.Signature
import Magisk.Core.BootStages
import Magisk.Core.CommitReplace
import Magisk.Core.Deny.ProcessInfo
import Magisk.Core.Deny.Sentinel
import Magisk.Core.Logging
import Magisk.Core.Migration
import Magisk.Core.ModuleWalk
import Magisk.Core.Resetprop.Persist
import Magisk.Core.Socket.Capacity
import Magisk.Core.Socket.Cut
import Magisk.Core.Su.Caps
import Magisk.Core.Su.Groups
import Magisk.Core.Su.Pump
import Magisk.Core.ThreadPool
import Magisk.Core.Zygisk
import Magisk.Init.Cmdline
import Magisk.Init.RcScripts
import Magisk.Sepolicy.FilenameTrans
import Magisk.Sepolicy.Lexer
import Magisk.Sepolicy.TypeMaps
import Magisk.Sepolicy.Wildcard
import Magisk.Sepolicy.Xperm
