import Vanadium.Proofs.Accumulator
import Vanadium.Vm.OutsourcedMem
import Vanadium.Proofs.OutsourcedMem
import Vanadium.Proofs.PageStore
import Vanadium.Common.Manifest
import Vanadium.Vm.PreloadVapp
import Vanadium.Client.Memory
import Vanadium.Client.PreloadVapp
import Vanadium.Proofs.Messages
import Vanadium.Proofs.Preload
import Vanadium.Proofs.ClientMemory
import Vanadium.Proofs.PreloadSession
import Vanadium.Common.Riscv.Decode
import Vanadium.Lib.Rv32.Instr
import Vanadium.Proofs.Decode
import Vanadium.Lib.Rv32.Machine
import Vanadium.Common.Cpu
import Vanadium.Proofs.Segments
import Vanadium.Proofs.CpuArith
import Vanadium.Proofs.Cpu
import Vanadium.Proofs.CpuStep
import Vanadium.Common.Ux
import Vanadium.Common.Codec
import Vanadium.Vm.UxHandler
import Vanadium.Vm.Ecall
import Vanadium.Vm.StartVapp
import Vanadium.Proofs.Keeps
import Vanadium.Proofs.EcallKeeps
import Vanadium.Proofs.CodeSegment
import Vanadium.Proofs.EcallPanics
import Vanadium.Proofs.FailedLookup
import Vanadium.Proofs.FailedExecute
import Vanadium.Client.VanadiumClient
import Vanadium.Lib.ByteMap
import Vanadium.Proofs.GuestBuffers
import Vanadium.Lib.Dialogue
import Vanadium.Proofs.PageDialogue
import Vanadium.Proofs.PageService
import Vanadium.Proofs.ClientImage
import Vanadium.Lib.Chunks
import Vanadium.Proofs.HostBuffers
import Vanadium.Proofs.BufferDialogue
import Vanadium.Lib.Delimited
import Vanadium.Proofs.Manifest
import Vanadium.Common.MessageReader
import Vanadium.Proofs.MessageCodecs
import Vanadium.Proofs.FailedCache
import Vanadium.Proofs.Reservation
import Vanadium.Bip388.Descriptor
import Vanadium.Lib.Decimal
import Vanadium.Proofs.DescriptorGrammar
import Vanadium.Proofs.DescriptorFragments
import Vanadium.Proofs.DescriptorReads
import Vanadium.Proofs.DescriptorRoundTrip
import Vanadium.Bip388.WalletPolicy
import Vanadium.Bitcoin.Registration
import Vanadium.Proofs.WalletPolicy
import Vanadium.Proofs.Registration
import Vanadium.Bitcoin.PolicyCodec
import Vanadium.Proofs.PolicyCodec
import Vanadium.Common.CheckedMemory
import Vanadium.Proofs.SegmentBuffers
import Vanadium.Lib.Rv32.Tables
import Vanadium.Proofs.SegmentBounds
import Vanadium.Proofs.DecodeTables
import Vanadium.Lib.Recency
import Vanadium.Proofs.Eviction
import Vanadium.Bitcoin.Register
import Vanadium.Proofs.KeyLabels
import Vanadium.Bitcoin.FastPsbt
import Vanadium.Lib.Parsing
import Vanadium.Proofs.FastPsbt
import Vanadium.Bitcoin.Proprietary
import Vanadium.Bitcoin.SignPsbt
import Vanadium.Proofs.Analysis
import Vanadium.Proofs.OutputNames
import Vanadium.Proofs.Fees
import Vanadium.Proofs.LockTime
import Vanadium.AppSdk.Slip21
import Vanadium.Proofs.Slip21
import Vanadium.Bip388.Placeholders
import Vanadium.Proofs.Pieces
import Vanadium.Proofs.Placeholders
import Vanadium.Bip388.ToDescriptor
import Vanadium.Proofs.ToDescriptor
import Vanadium.Bitcoin.PolicyReserve
import Vanadium.Lib.View
import Vanadium.Lib.Prompt
import Vanadium.Proofs.DescriptorPrompt
import Vanadium.Proofs.PolicyReserve
import Vanadium.AppSdk.Ux
import Vanadium.Proofs.UxCodec
import Vanadium.Proofs.PairPacking
import Vanadium.Proofs.ReviewPages
import Vanadium.Bitcoin.ConvertV0
import Vanadium.Proofs.ConvertV0
import Vanadium.AppSdk.BigNum
import Vanadium.Proofs.PairPages
import Vanadium.Proofs.RootStack
import Vanadium.Proofs.BigNum
import Vanadium.AppSdk.Curve
import Vanadium.Lib.ModularPower
import Vanadium.Lib.HdKeys
import Vanadium.Proofs.Curve
import Vanadium.Proofs.HdNode
import Vanadium.Bitcoin.ExtendedPubkey
import Vanadium.Proofs.ExtendedPubkey
import Vanadium.Bip388.Time
import Vanadium.Lib.Calendar
import Vanadium.Proofs.Time
import Vanadium.AppSdk.Executor
import Vanadium.Proofs.Executor
import Vanadium.Bip388.Enumerate
import Vanadium.Lib.LeafTrees
import Vanadium.Lib.Orders
import Vanadium.Proofs.Derivations
import Vanadium.Proofs.TapTrees
import Vanadium.Lib.PowerCut
import Vanadium.Vm.VappStore
import Vanadium.Lib.SlotTable
import Vanadium.Proofs.VappStore
import Vanadium.Lib.Ladder
import Vanadium.Proofs.CurveGroup
import Vanadium.Bitcoin.Musig
import Vanadium.Proofs.Musig
