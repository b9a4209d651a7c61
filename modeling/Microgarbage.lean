import Microgarbage.Vm.Compressed
import Microgarbage.Vm.Sandbox
import Microgarbage.Host.Isolation
import Microgarbage.Mgapi.L2Ecalls
import Microgarbage.Audio.MusicRun
import Microgarbage.Audio.Holds
import Microgarbage.Storage.Errors
import Microgarbage.Tui.TileRun
import Microgarbage.Tui.Isolation
import Microgarbage.Audio.RingStream
import Microgarbage.Sched.SpawnPre
import Microgarbage.Io.Console
import Microgarbage.Tui.Guest
import Microgarbage.Sched.Gates
import Microgarbage.R3d.Delivery
import Microgarbage.Fmv.Playback
import Microgarbage.Math.SignedQuotient
import Microgarbage.Containers.BitsetWords
import Microgarbage.Containers.HashTableMap
import Microgarbage.Audio.PoolRun
import Microgarbage.Host.HeapTracking
import Microgarbage.Io.ServiceChannel
import Microgarbage.Io.Arbiter
import Microgarbage.Io.GuestPaths
import Microgarbage.Containers.AvlHash
import Microgarbage.Sched.Reload
import Microgarbage.Mailbox.Deadlines
import Microgarbage.Sched.Fair
import Microgarbage.Sched.Returns
import Microgarbage.Sched.Debt
import Microgarbage.Vm.Traps
import Microgarbage.Cart.Budget
import Microgarbage.Cart.CleanSlate
import Microgarbage.Cart.Rejects
import Microgarbage.Cart.Sprites
import Microgarbage.Audio.WavFiles
import Microgarbage.Print.GuestScan
import Microgarbage.Print.FormatCalls
import Microgarbage.Audio.Fft
import Microgarbage.Memory.Bump
import Microgarbage.Mgapi.TcpListen
import Microgarbage.Fmv.UnitBounds
import Microgarbage.Mailbox.Conservation
import Microgarbage.Math.ArcTangent
import Microgarbage.Video.Occlusion
import Microgarbage.Mgapi.Worker
