import SwitchV32.Rv32.Base
import SwitchV32.Rv32.Amo
import SwitchV32.Memory
import SwitchV32.Overlay
import SwitchV32.Core
import SwitchV32.Cpu
import SwitchV32.Lts
import SwitchV32.Cthread
import SwitchV32.Cthread.System
import SwitchV32.Cthread.Halt
import SwitchV32.Cthread.HotLoop
import SwitchV32.Cthread.Saved
import SwitchV32.Cthread.Refines
import SwitchV32.Platform
import SwitchV32.Supervisor.Trap
import SwitchV32.Supervisor.Sbi
import SwitchV32.Supervisor.Sys
import SwitchV32.User
import SwitchV32.Cpu.Decode
import SwitchV32.Cpu.Value
import SwitchV32.Cpu.Arch
import SwitchV32.Cpu.Rv32im
import SwitchV32.Supervisor.TrapEntry
import SwitchV32.Supervisor.Exceptions
import SwitchV32.Cpu.Amo
import SwitchV32.Ensures
import SwitchV32.Cpu.Access
import SwitchV32.Harts.System
import SwitchV32.Harts.Reserved
import SwitchV32.Harts.LrSc
import SwitchV32.Harts.Amo
import SwitchV32.Harts.Sole
import SwitchV32.Rv32.Zicsr
import SwitchV32.Rv32.Encoding
import SwitchV32.Supervisor.Csr
import SwitchV32.Agree
import SwitchV32.Supervisor.ExitFlag
import SwitchV32.Supervisor.Stepping
import SwitchV32.Cthread.Exec
import SwitchV32.Hsm.System
import SwitchV32.Hsm.HartStart
import SwitchV32.Cpu.Frame
import SwitchV32.Supervisor.Frame
import SwitchV32.Hsm.OwnRecord
import SwitchV32.Cthread.StepReturns
import SwitchV32.Debug.Breakpoint
import SwitchV32.Debug.System
import SwitchV32.Debug.Exec
import SwitchV32.Debug.Reach
import SwitchV32.Debug.StopReply
import SwitchV32.Debug.Iteration
import SwitchV32.Debug.VContStep
import SwitchV32.Debug.VContReturns
import SwitchV32.Block
import SwitchV32.Stub.Buffer
import SwitchV32.Supervisor.Vm
import SwitchV32.Supervisor.Legal
import SwitchV32.Debug.Patched
import SwitchV32.Fds
import SwitchV32.User.Files
import SwitchV32.User.Streams
import SwitchV32.Stub.Text
import SwitchV32.Stub.Parser
import SwitchV32.Stub.Extract
import SwitchV32.Stub.Builder
import SwitchV32.Stub.Frame
import SwitchV32.Stub.Breakpoints
import SwitchV32.Stub.GuestMemory
import SwitchV32.Stub.RegisterFile
import SwitchV32.Stub.Bounds
import SwitchV32.Stub.Malformed
import SwitchV32.Stub.Reply
import SwitchV32.Stub.Fields
import SwitchV32.Stub.Registers
import SwitchV32.Stub.Session
import SwitchV32.Stub.Delivery
import SwitchV32.Stub.Transcript
import SwitchV32.Stub.Contained
import SwitchV32.Stub.Buffers
import SwitchV32.Stub.MemoryPackets
import SwitchV32.Stub.ThreadIds
import SwitchV32.Stub.Soundness
import SwitchV32.User.Tokens
import SwitchV32.User.Args
import SwitchV32.Stub.ToSocket
import SwitchV32.Stub.Tokenizer
import SwitchV32.Stub.Hex
import SwitchV32.RegularFile
import SwitchV32.Ring
import SwitchV32.User.Sdl
import SwitchV32.User.Screen
import SwitchV32.User.SystemCall
import SwitchV32.User.FileOffset
import SwitchV32.User.Time
import SwitchV32.Stub.Retransmit
import SwitchV32.Cpu.Illegal
import SwitchV32.Cpu.ZeroReg
import SwitchV32.Cthread.ZeroReg
import SwitchV32.Cthread.HsmState
import SwitchV32.Supervisor.SbiReturn
import SwitchV32.Effect
import SwitchV32.Loader
import SwitchV32.Loader.Writes
import SwitchV32.Loader.Segments
import SwitchV32.Loader.Brk
import SwitchV32.Loader.Linked
import SwitchV32.Options
import SwitchV32.Cpu.Jump
import SwitchV32.Supervisor.Interrupts
import SwitchV32.Supervisor.CsrSelect
import SwitchV32.Cthread.Wakeups
import SwitchV32.Hsm.Secondary
import SwitchV32.Supervisor.CsrStep
import SwitchV32.Harts.Cores
import SwitchV32.Harts.Supervised
import SwitchV32.Harts.CsrLoop
import SwitchV32.Harts.Atomics
import SwitchV32.Harts.SpinLock
import SwitchV32.Rv32.Program
import SwitchV32.Rv32.Footprint
import SwitchV32.Cpu.Program
import SwitchV32.Debug.Transparent
import SwitchV32.Boot
import SwitchV32.Stub.Shadow
