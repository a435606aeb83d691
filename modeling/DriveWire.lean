import DriveWire.Vserial.Serread
import DriveWire.Vserial.Fifo
import DriveWire.Vserial.Discard
import DriveWire.Vserial.Poll
import DriveWire.Server.Stall
import DriveWire.Attach.Wakeup
import DriveWire.Attach.Lifetime
import DriveWire.Transport.SerialReader
import DriveWire.Disk.WholeSectors
import DriveWire.Server.Checksum
import DriveWire.Server.Lengths
import DriveWire.Server.CutOff
import DriveWire.Server.Resync
import DriveWire.Server.ControlSession
import DriveWire.Server.Eject
import DriveWire.Cli.LineEndings
import DriveWire.Cli.Escape
import DriveWire.Cli.ControlRequest
import DriveWire.Server.Sessions
import DriveWire.Server.ControlReply
import DriveWire.Store.History
import DriveWire.Disk.OnFiles
import DriveWire.Disk.Requests
import DriveWire.Disk.Calls
import DriveWire.Disk.SectorStore
import DriveWire.Disk.Images
import DriveWire.Disk.Faults
import DriveWire.Vserial.Echo
import DriveWire.Cli.Terminal
import DriveWire.Cli.Commands
import DriveWire.Transport.SerialSession
import DriveWire.Server.Guards
