import SysNet.Lib.Runs
import SysNet.Lib.Counter
import SysNet.LinkState.NewestLsa
import SysNet.LinkState.RouterLaws
import SysNet.LinkState.Network
import SysNet.Lib.Tokens
import SysNet.LinkState.Flooding
import SysNet.LinkState.Wiring
import SysNet.LinkState.Handshake
import SysNet.LinkState.Origins
import SysNet.LinkState.LinkSymmetry
import SysNet.LinkState.Copies
import SysNet.LinkState.Agreement
import SysNet.LinkState.Routes
import SysNet.LinkState.SplitHorizon
import SysNet.LinkState.Connect
import SysNet.Mysh.Shell
import SysNet.Mysh.Stages
import SysNet.Mysh.Grammar
import SysNet.Mysh.RoundTrip
import SysNet.Mysh.Lexers
import SysNet.Mysh.Processes
import SysNet.Mysh.Redirections
import SysNet.Mysh.ReadLoop
import SysNet.Mysh.Wires
import SysNet.Sut.Tasks
import SysNet.Sut.Slots
import SysNet.Sut.Executor
import SysNet.Sut.Completion
import SysNet.Lib.Locks
import SysNet.Sut.Locks
import SysNet.Lib.CText
import SysNet.Sut.Requests
import SysNet.Lib.Redo
import SysNet.Xv6.Log
import SysNet.Xv6.LogInvariant
import SysNet.Xv6.CrashAtomicity
import SysNet.Xv6.LogSpace
import SysNet.Xv6.Pipe
import SysNet.Xv6.ProcTable
import SysNet.Xv6.Vm
import SysNet.Xv6.UserMemory
import SysNet.Xv6.LazyGrowth
import SysNet.Lib.Chains
import SysNet.Lib.Tiles
import SysNet.Xv6.Umalloc
import SysNet.Xv6.Heap
import SysNet.Xv6.LargeRequests
import SysNet.Lib.Arrays
import SysNet.Lib.Bytes
import SysNet.Lib.Owners
import SysNet.Xv6.Fs
import SysNet.Xv6.BlockOwnership
import SysNet.Xv6.FileBytes
import SysNet.Xv6.WriteLog
import SysNet.Xv6.FailedWrites
import SysNet.Xv6.Mkfs
import SysNet.Xv6.MkfsImage
import SysNet.Lib.Triples
import SysNet.Lib.Holders
import SysNet.Xv6.Sysfile
import SysNet.Xv6.SysfileSpec
import SysNet.Xv6.RefCounts
import SysNet.Xv6.LinkNames
import SysNet.Xv6.LinkTable
import SysNet.Xv6.LinkCalls
import SysNet.Xv6.LinkCounts
import SysNet.Lib.Numerals
import SysNet.Xv6.Printf
import SysNet.Xv6.Sixfive
import SysNet.Xv6.Memdump
import SysNet.Lib.Rings
import SysNet.Sut.Queue
import SysNet.Xv6.Bio
import SysNet.Xv6.BufferCache
import SysNet.Lib.Radix
import SysNet.Xv6.PageTable
import SysNet.Xv6.PageTree
import SysNet.Xv6.PageMaps
import SysNet.Lib.Shares
import SysNet.Lib.Fields
import SysNet.Xv6.Spaces
import SysNet.Xv6.SpacePages
import SysNet.Xv6.SpaceCalls
import SysNet.Xv6.ExecBuild
import SysNet.Xv6.ProcSpaces
import SysNet.Xv6.ForkExec
import SysNet.Xv6.TableViews
import SysNet.Xv6.ProcessRuns
import SysNet.Xv6.Names
import SysNet.Xv6.Directories
import SysNet.Xv6.Paths
