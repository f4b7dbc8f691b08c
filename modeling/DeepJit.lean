import DeepJit.Utils.Hash
import DeepJit.Utils.ParserDigest
import DeepJit.Backend.CacheKey
import DeepJit.Cache.Disk
import DeepJit.Runtime.Request
import DeepJit.Runtime.RequestRules
import DeepJit.Runtime.Timeouts
import DeepJit.Runtime.Fallback
import DeepJit.Runtime.Cleanup
import DeepJit.Library.Transition
import DeepJit.Utils.Executor
import DeepJit.Utils.ExecutorInvariant
import DeepJit.Utils.ExecutorSafety
import DeepJit.Library.FirstsBy
import DeepJit.Runtime.Precompiler
import DeepJit.Runtime.PrecompilerSafety
import DeepJit.Runtime.DryRun
import DeepJit.Cache.Publication
import DeepJit.Cache.PublicationSafety
import DeepJit.Backend.Cuda.PostHook
import DeepJit.Cache.Selection
import DeepJit.Library.MemoTermination
import DeepJit.Runtime.Progress
import DeepJit.Utils.ParserTermination
import DeepJit.Backend.Ascend.Arguments
import DeepJit.Backend.Ascend.Elf
import DeepJit.Backend.Ascend.ElfSafety
import DeepJit.Backend.Ascend.ElfNames
import DeepJit.Library.FileTree
import DeepJit.Utils.Filesystem
import DeepJit.Utils.FilesystemRemoval
import DeepJit.Cache.Temporary
import DeepJit.Backend.Ascend.Bootstrap
import DeepJit.Cache.TemporarySafety
import DeepJit.Backend.Ascend.BootstrapHost
import DeepJit.Backend.Ascend.BootstrapDevice
import DeepJit.Backend.Ascend.BootstrapSafety
import DeepJit.Library.Framing
import DeepJit.Library.Mixing
import DeepJit.Utils.HashCollision
import DeepJit.Utils.ParserGrammar
import DeepJit.Backend.KeyStream
import DeepJit.Utils.Command
import DeepJit.Utils.CommandSafety
import DeepJit.Utils.Json
import DeepJit.Utils.JsonRoundTrip
import DeepJit.Runtime.PrecompilerCounts
import DeepJit.Utils.ExecutorWakeups
import DeepJit.Library.FileUpdates
import DeepJit.Utils.Permissions
import DeepJit.Cache.SharedEntry
import DeepJit.Utils.PermissionsSync
import DeepJit.Utils.PermissionsUpdates
import DeepJit.Utils.PermissionsRuns
import DeepJit.Cache.SharedEntryRuns
import DeepJit.Cache.SharedEntrySafety
import DeepJit.Backend.Ascend.Compile
import DeepJit.Cache.Roots
import DeepJit.Backend.Cuda.Kernel
import DeepJit.Library.Ownership
import DeepJit.Runtime.KernelsSafety
import DeepJit.Backend.Ascend.Image
import DeepJit.Backend.Ascend.Helper
import DeepJit.Backend.Ascend.HelperSafety
import DeepJit.Backend.Ascend.HelperShadow
import DeepJit.Runtime.ConfigPaths
