import PascalScheduler.Library.Transition
import PascalScheduler.Library.RoundRobin
import PascalScheduler.Library.Wrapping
import PascalScheduler.Kernel.State
import PascalScheduler.Kernel.Operations
import PascalScheduler.Kernel.Decision
import PascalScheduler.Kernel.System
import PascalScheduler.Kernel.Invariant
import PascalScheduler.Kernel.Mutex
import PascalScheduler.Kernel.MutexRelease
import PascalScheduler.Kernel.Fairness
import PascalScheduler.Kernel.Sleep
import PascalScheduler.Kernel.SleepWindow
import PascalScheduler.Kernel.SleepWrap
import PascalScheduler.Kernel.Signal
import PascalScheduler.Kernel.Bypass
import PascalScheduler.Kernel.Starvation
import PascalScheduler.Kernel.WorkConservation
import PascalScheduler.Kernel.Timer
import PascalScheduler.Arch.MemoryLayout
import PascalScheduler.Arch.SbrkTasks
import PascalScheduler.Library.Thumb
import PascalScheduler.Arch.ContextSwitch
import PascalScheduler.Arch.Contexts
import PascalScheduler.Library.Fuel
import PascalScheduler.Library.Trace
import PascalScheduler.Dev.Mmc
import PascalScheduler.Dev.Card
import PascalScheduler.Dev.MmcStore
import PascalScheduler.Dev.MmcRegisters
import PascalScheduler.Library.Crc
import PascalScheduler.Dev.MmcCrc
import PascalScheduler.Dev.MmcRegisterCheck
import PascalScheduler.Library.BitSlice
import PascalScheduler.Dev.MmcFields
import PascalScheduler.Dev.MmcOpen
import PascalScheduler.Dev.MmcPolling
import PascalScheduler.Dev.MmcOpenEnds
import PascalScheduler.Dev.MmcTransfers
import PascalScheduler.Dev.MmcWire
import PascalScheduler.Dev.MmcAddressing
import PascalScheduler.Dev.MmcBuffer
import PascalScheduler.Dev.MmcRefused
import PascalScheduler.Library.DropQueue
import PascalScheduler.Data.CircularBuffer
import PascalScheduler.Data.BufferQueue
import PascalScheduler.Data.BufferAccess
import PascalScheduler.Data.BufferOccupancy
import PascalScheduler.Sys.Dev
import PascalScheduler.Sys.DevRead
import PascalScheduler.Sys.DevWrite
import PascalScheduler.Library.Numeral
import PascalScheduler.Libc.Printf
import PascalScheduler.Libc.PrintfNumbers
import PascalScheduler.Libc.PrintfTurns
import PascalScheduler.Libc.PrintfDirective
import PascalScheduler.Libc.PrintfScratch
import PascalScheduler.Libc.PrintfFormat
import PascalScheduler.Libc.PrintfArguments
import PascalScheduler.Kernel.TaskSelection
import PascalScheduler.Sys.DevSeek
import PascalScheduler.Arch.SbrkRange
import PascalScheduler.Dev.Gpio
import PascalScheduler.Dev.MmcCapacity
import PascalScheduler.Dev.MmcFrames
import PascalScheduler.Sys.I2cRegisters
import PascalScheduler.Sys.Rtc
import PascalScheduler.Libc.PrintfConversion
import PascalScheduler.Libc.PrintfCursor
import PascalScheduler.Libc.PrintfHex
import PascalScheduler.Libc.StringCopy
import PascalScheduler.Library.Refinement
import PascalScheduler.Data.BufferTasks
import PascalScheduler.Kernel.Application
import PascalScheduler.Kernel.Discipline
import PascalScheduler.Kernel.ApplicationMutex
import PascalScheduler.Kernel.Boot
import PascalScheduler.Kernel.Schedule
import PascalScheduler.Sys.UartTasks
import PascalScheduler.Library.Countdown
import PascalScheduler.Arch.StartUp
import PascalScheduler.Sys.Console
import PascalScheduler.Sys.RtcReport
import PascalScheduler.Libc.PrintfDecoration
import PascalScheduler.Sys.Banner
import PascalScheduler.Sys.CardFile
import PascalScheduler.Sys.CardMount
