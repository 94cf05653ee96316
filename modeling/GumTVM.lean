import GumTVM.Foundation.Text
import GumTVM.Foundation.Machine
import GumTVM.Session.Protocol
import GumTVM.Memory.ReadBuffer
import GumTVM.Foundation.Span
import GumTVM.Memory.EffectiveAddress
import GumTVM.Selection.Ranges
import GumTVM.Selection.Exclusive
import GumTVM.Session.Reinit
import GumTVM.Record.Results
import GumTVM.Record.Changes
import GumTVM.Record.Calls
import GumTVM.Record.Grammar
import GumTVM.Record.Decode
import GumTVM.Record.Trace
import GumTVM.Memory.AccessSize
import GumTVM.Foundation.ByteMemory
import GumTVM.Memory.ProcessMemory
import GumTVM.Record.Accesses
import GumTVM.Record.Loads
import GumTVM.Record.Stores
import GumTVM.Logger.DumpReading
import GumTVM.Logger.DumpForms
import GumTVM.Memory.MappedPages
import GumTVM.Session.Init
import GumTVM.Selection.Registration
import GumTVM.Record.Annotation
import GumTVM.Logger.Output
import GumTVM.Arm64.RegisterViews
import GumTVM.Foundation.CountedArray
import GumTVM.Tracer.RegList
import GumTVM.Foundation.InputStream
import GumTVM.Elf.Header
import GumTVM.Elf.Loader
import GumTVM.Elf.SectionTable
import GumTVM.Elf.Acceptance
import GumTVM.Elf.PltRange
import GumTVM.Session.TraceFile
import GumTVM.Session.Isolation
import GumTVM.Foundation.Search
import GumTVM.Xdl.Objects
import GumTVM.Xdl.Tables
import GumTVM.Xdl.Lookup
import GumTVM.Xdl.Symbols
import GumTVM.Xdl.Handles
import GumTVM.Xdl.Cache
import GumTVM.Xdl.Names
import GumTVM.Foundation.Scan
import GumTVM.Xdl.Maps
import GumTVM.Record.CallNames
import GumTVM.Script.CopyFile
import GumTVM.Script.Loader
import GumTVM.Script.HookedLoads
import GumTVM.Script.ScriptedSession
import GumTVM.Record.Location
import GumTVM.Session.Path
import GumTVM.Session.Stalker
import GumTVM.Session.Replay
import GumTVM.Session.Coherence
import GumTVM.Foundation.Updates
import GumTVM.Session.Registers
import GumTVM.Session.CallLines
import GumTVM.Session.Lifetime
import GumTVM.Session.PltRange
