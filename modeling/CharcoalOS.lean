import CharcoalOS.Arch.Boot
import CharcoalOS.Arch.Frame
import CharcoalOS.Arch.Start
import CharcoalOS.Arch.Taking
import CharcoalOS.Hardware.Cells
import CharcoalOS.Hardware.FailStop
import CharcoalOS.Hardware.PropertyOrder
import CharcoalOS.Hardware.Record
import CharcoalOS.Hardware.Reserved
import CharcoalOS.Hardware.Strings
import CharcoalOS.Hardware.Tree
import CharcoalOS.Kernel.Add
import CharcoalOS.Kernel.Booting
import CharcoalOS.Kernel.Cascade
import CharcoalOS.Kernel.Comparison
import CharcoalOS.Kernel.HexRoundTrip
import CharcoalOS.Kernel.Lines
import CharcoalOS.Kernel.Screen
import CharcoalOS.Kernel.Splitting
import CharcoalOS.Kernel.Ticks
import CharcoalOS.Platform.PowerOn
import CharcoalOS.Platform.Transcript
