import XinuStm32.Properties.Consistency
import XinuStm32.Properties.Semaphores
import XinuStm32.Properties.Scheduling
import XinuStm32.Properties.Messages
import XinuStm32.Properties.Idle
import XinuStm32.Properties.Held
import XinuStm32.Properties.Arguments
import XinuStm32.Properties.ReadLines
import XinuStm32.Properties.Receive
import XinuStm32.Properties.TimedReceive
import XinuStm32.Properties.Wakeups
import XinuStm32.Properties.Masking
import XinuStm32.Properties.Signals
import XinuStm32.Properties.UsbRing
import XinuStm32.Properties.Flash
import XinuStm32.Properties.CurrentDirectory
import XinuStm32.Properties.OutputMerge
import XinuStm32.Properties.Notices
import XinuStm32.Properties.Resume
import XinuStm32.Properties.Commands
import XinuStm32.Properties.RunCommand
import XinuStm32.Properties.LoaderSafety
import XinuStm32.Properties.LoadedImage
import XinuStm32.Properties.FullPath
import XinuStm32.Properties.ReadBytes
import XinuStm32.Properties.LookAhead
import XinuStm32.Properties.Quoting
import XinuStm32.Lib.Numerals
import XinuStm32.Kernel.Format
import XinuStm32.Refinement.Converters
import XinuStm32.Refinement.Format
import XinuStm32.Properties.Formatters
import XinuStm32.Properties.NumberFields
import XinuStm32.Properties.Snprintf
import XinuStm32.Properties.DoubleFree
import XinuStm32.Properties.Deferral
import XinuStm32.Properties.SdPolls
import XinuStm32.Properties.SdTraffic
import XinuStm32.Properties.SdTransfers
import XinuStm32.Properties.Realloc
import XinuStm32.Properties.NameInit
import XinuStm32.Properties.SleepQueue
import XinuStm32.Properties.Base64
import XinuStm32.Properties.KillCommand
import XinuStm32.Properties.Scan
import XinuStm32.Properties.DataPhase
import XinuStm32.Properties.BlockCommands
import XinuStm32.Properties.Qsort
import XinuStm32.Properties.Compiler
import XinuStm32.Properties.FatFiles
