import M5.Mem.Cache.LLSC
import M5.Mem.Coherence
import M5.Ruby.DirectoryMemory
import M5.Mem.Brk
import M5.Cpu.O3.Barriers
import M5.Ruby.PortAnswers
import M5.Ruby.MIAtomic
import M5.Ruby.Token.Owner
import M5.Sim.Checkpoint
import M5.Sim.Simulate
import M5.Sim.Serialize
import M5.Dev.DmaTransfers
import M5.Cpu.Simple.Timing
import M5.Arch.X86.TLBAccess
import M5.Mem.Cache.LRUTags
import M5.Mem.Cache.FALRUStack
import M5.Mem.Cache.FALRUTags
import M5.Mem.Cache.SendOpportunity
import M5.Mem.Cache.TargetLimit
import M5.Cpu.O3.LSQUnit
import M5.Cpu.O3.RenameUndo
import M5.Mem.BusDecode
import M5.Mem.DeferredSend
import M5.Base.Inet
import M5.Cpu.Pred.GlobalHistory
import M5.Ruby.StoreConditional
import M5.Ruby.MessageBuffer
import M5.Base.SymbolTable
import M5.Base.TimeBuffer
import M5.Ruby.PseudoLRUPolicy
import M5.Ruby.StoreBuffer
import M5.Cpu.Pred.SquashRestores
import M5.Dev.I8259
