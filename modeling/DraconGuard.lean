import DraconGuard.Lib.FinMap
import DraconGuard.Lib.Runs
import DraconGuard.Proc
import DraconGuard.Lib.Overlap
import DraconGuard.Guard.Nice
import DraconGuard.Guard.NiceLaw
import DraconGuard.Guard.Ledger
import DraconGuard.Guard.Oom
import DraconGuard.Guard.OomLedgerLaw
import DraconGuard.Guard.OomDescendants
import DraconGuard.Guard.Caps
import DraconGuard.Guard.LedgerRoundTrip
import DraconGuard.Guard.OneShotLaw
import DraconGuard.Guard.PendingDebts
import DraconGuard.Lib.Interleave
import DraconGuard.Guard.CpuLease
import DraconGuard.Guard.CpuLeaseLaw
import DraconGuard.Clean.NixGenerations
import DraconGuard.Clean.NixPrune
import DraconGuard.Clean.Safety
import DraconGuard.Lib.Subtree
import DraconGuard.Clean.Stash
import DraconGuard.Clean.StashLaw
import DraconGuard.Lib.Utf8
import DraconGuard.Lib.FsScript
import DraconGuard.Clean.Relocate
import DraconGuard.Clean.RelocateLaw
import DraconGuard.Clean.Restore
import DraconGuard.Clean.RestoreLaw
import DraconGuard.Lib.DirWalk
import DraconGuard.Clean.Trash
import DraconGuard.Clean.TrashLaw
import DraconGuard.Clean.TrashPairs
import DraconGuard.Disk.Apply
import DraconGuard.Disk.ApplyLaw
import DraconGuard.Disk.TmpCruft
import DraconGuard.Disk.TmpCruftLaw
import DraconGuard.Clean.TmpSweep
import DraconGuard.Clean.TmpGates
import DraconGuard.Clean.TmpDropped
import DraconGuard.Clean.TmpTaken
import DraconGuard.Clean.TmpDryRun
import DraconGuard.Clean.RustTargets
import DraconGuard.Clean.LiveTargets
import DraconGuard.Lib.Watch
import DraconGuard.Reap.ProcFiles
import DraconGuard.Reap.Forgotten
import DraconGuard.Reap.Verify
import DraconGuard.Reap.Terminate
import DraconGuard.Reap.TerminateLaw
import DraconGuard.Reap.Profile
import DraconGuard.Reap.Yield
import DraconGuard.Lib.BreadthFirst
import DraconGuard.Reap.ForgottenScan
import DraconGuard.Reap.ForgottenScanLaw
import DraconGuard.Reap.DesktopVeto
import DraconGuard.Reap.KillExempt
import DraconGuard.Lib.Streak
import DraconGuard.Guard.Reload
import DraconGuard.Guard.PressureTimers
import DraconGuard.Guard.ReleaseWindow
import DraconGuard.Guard.SameOriginals
import DraconGuard.Guard.ReloadLaw
import DraconGuard.Lib.Custody
import DraconGuard.Guard.DiskPass
import DraconGuard.Guard.CleanupLaw
import DraconGuard.Guard.FreezeLaw
import DraconGuard.Lib.Alarm
import DraconGuard.Guard.Alerts
import DraconGuard.Guard.AlertLaw
import DraconGuard.Guard.CapLease
import DraconGuard.Guard.ManagedOom
import DraconGuard.Guard.ManagedOomLaw
import DraconGuard.Lib.Median
import DraconGuard.Guard.FillRate
import DraconGuard.Lib.SlidingWindow
import DraconGuard.Guard.ServiceGrowth
import DraconGuard.Guard.ServiceGrowthLaw
import DraconGuard.Lib.Lines
import DraconGuard.Guard.EventLog
import DraconGuard.Guard.EventLogLaw
import DraconGuard.Disk.GitScan
import DraconGuard.Disk.GitScanLaw
import DraconGuard.Lib.FloatValue
import DraconGuard.Lib.RuleList
import DraconGuard.Guard.PolicyBounds
import DraconGuard.Guard.PolicyBoundsLaw
import DraconGuard.Guard.StrandedBias
import DraconGuard.Guard.TerminalProof
import DraconGuard.Guard.Hysteresis
import DraconGuard.Guard.RetryCounts
import DraconGuard.Clean.NixPlan
import DraconGuard.Clean.NixGarbage
import DraconGuard.Guard.FillWindow
import DraconGuard.Clean.LogTruncate
import DraconGuard.Guard.OffenderRank
import DraconGuard.Reap.StatReaders
import DraconGuard.Clean.TargetBudget
import DraconGuard.Lib.Thinned
import DraconGuard.Guard.GrowthBalance
import DraconGuard.Guard.DebtArchive
import DraconGuard.Guard.DrainReach
import DraconGuard.Clean.RelocationRecords
import DraconGuard.Clean.RestoreRetry
import DraconGuard.Clean.StashExpiry
import DraconGuard.Clean.Generations
import DraconGuard.Clean.ColdScanLaw
import DraconGuard.Clean.LinkConverge
import DraconGuard.Clean.LexicalPath
import DraconGuard.Guard.CommandWords
import DraconGuard.Guard.TailReader
import DraconGuard.Disk.SwapAuditLaw
import DraconGuard.Disk.LogCruftLaw
import DraconGuard.Disk.RefIndexLaw
import DraconGuard.Reap.TreeOrderLaw
import DraconGuard.Reap.ScanVerify
import DraconGuard.Disk.NixSwapLaw
import DraconGuard.Guard.SocketKey
import DraconGuard.Reap.Descendants
import DraconGuard.Guard.Ancestry
import DraconGuard.Clean.EntryContained
import DraconGuard.Guard.PidMapsLaw
import DraconGuard.Lib.EditDistance
import DraconGuard.Guard.KeyHints
import DraconGuard.Clean.PackageCaches
import DraconGuard.Clean.StorageCleanup
import DraconGuard.Guard.Cooldowns
import DraconGuard.Lib.ForkJoin
import DraconGuard.Disk.ParallelSize
import DraconGuard.Lib.Utf8Encode
import DraconGuard.Lib.JsonText
import DraconGuard.Guard.EventRecord
import DraconGuard.Lib.Journal
import DraconGuard.Guard.DaemonLoop
import DraconGuard.Clean.BrokenLinks
import DraconGuard.Clean.AutoRelocate
import DraconGuard.Clean.ProfileReclaim
import DraconGuard.Guard.ProcessSamples
import DraconGuard.Guard.ServiceLaw
import DraconGuard.Reap.Worklist
