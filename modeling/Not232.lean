import Not232.UsbReceive
import Not232.ReceiveFifo
import Not232.ReceiveStream
import Not232.BusyFlag
import Not232.TransmitStream
import Not232.BlockingSend
import Not232.FsHandles
import Not232.Gpio
import Not232.I2c
import Not232.Execute
import Not232.RunRequest
import Not232.RunFraming
import Not232.RunReport
import Not232.VmAgreement
import Not232.RunIsolation
import Not232.LiveHandles
import Not232.FieldCodec
import Not232.VmBounds
import Not232.RunReply
import Not232.LastWriter
import Not232.OneWire
import Not232.Spi
import Not232.PinFrame
import Not232.HistoryRing
import Not232.PulseIn
import Not232.OutRetransmission
import Not232.FlashDevice
import Not232.FlashStore
import Not232.Commands
import Not232.HandlerBounds
import Not232.PileStack
import Not232.CallReturn
import Not232.FlashBounds
import Not232.StraightLine
import Not232.Chunks
import Not232.WriteFraming
import Not232.PulseRing
import Not232.PulseTimer
import Not232.BusObserver
import Not232.I2cWrite
import Not232.I2cRead
import Not232.ShiftSlave
import Not232.SpiExchange
import Not232.GpioInit
import Not232.SpiEdges
import Not232.PinConfig
import Not232.FileReadReply
import Not232.Neopixel
import Not232.I2cDevice
import Not232.I2cPeripheral
import Not232.WaitReasons
import Not232.I2cWave
import Not232.ControlEndpoint
import Not232.ControlTransfer
import Not232.ControlRefusal
import Not232.CommandCodec
import Not232.MainLoop
import Not232.Inlining
import Not232.I2cScan
import Not232.LfsCrc
import Not232.ShiftLine
import Not232.LfsCache
import Not232.LfsCalls
import Not232.LfsCtz
import Not232.LfsFileRead
import Not232.PulseLink
import Not232.OneWireLink
import Not232.LfsAlloc
import Not232.LfsExtend
