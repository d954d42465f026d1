import GoSite.BooleanStructure
import GoSite.KeyOrders
import GoSite.QueryService
import GoSite.SiteScope
import GoSite.GoBytes
import GoSite.SearchParser
import GoSite.ParserProgress
import GoSite.ClosedSql
import GoSite.MergedPages
import GoSite.LeafPredicates
import GoSite.LogIngest
import GoSite.PluginSettled
import GoSite.PtySession
import GoSite.TailOnce
import GoSite.TailShared
import GoSite.TerminalOwnership
import GoSite.TerminalRegistry
import GoSite.TerminalReconnect
import GoSite.WebsiteAgreement
import GoSite.WebsiteIsolation
import GoSite.WebsiteRollback
import GoSite.DispatcherAgreement
import GoSite.SupervisorRaces
import GoSite.ValidatedArtifacts
import GoSite.TerminalCap
import GoSite.PluginDirectories
import GoSite.DocumentRoots
import GoSite.DomainNames
import GoSite.ArtifactFetcher
import GoSite.UploadSurvival
import GoSite.SessionStore
import GoSite.WebsiteEdits
import GoSite.CertificateSharing
import GoSite.JobStream
import GoSite.AccessLines
import GoSite.TrafficCollector
import GoSite.AccessRecords
import GoSite.MountEntries
import GoSite.FstabUpdates
import GoSite.MountSecrets
import GoSite.FileTrees
import GoSite.DirectoryMigration
import GoSite.MigrationSafety
import GoSite.Utf8Texts
import GoSite.SearchTokens
import GoSite.SearchGrammar
import GoSite.SearchReadings
import GoSite.SearchRepresentation
import GoSite.ReadSearches
import GoSite.WordSearches
import GoSite.QuotedSearches
import GoSite.FieldInequality
import GoSite.FormulaTexts
import GoSite.WildcardGlobs
import GoSite.StableSorts
import GoSite.SortPipes
import GoSite.Rfc3339Times
import GoSite.EventIds
import GoSite.TailResume
import GoSite.SafeQueries
import GoSite.IngestFailures
import GoSite.BundledPlugins
import GoSite.PermissionAcks
import GoSite.HookVersions
import GoSite.RollingBounds
import GoSite.KilledSessions
import GoSite.DumpConfinement
import GoSite.SupervisorFailures
import GoSite.ArtifactExtraction
import GoSite.VersionDirectories
import GoSite.HookBreaker
import GoSite.HookOrder
import GoSite.KeyringFile
import GoSite.TemplateOrder
import GoSite.RepairBraces
import GoSite.ServerBlocks
import GoSite.PairedBlocks
import GoSite.RepairedPairs
import GoSite.FileWrites
import GoSite.TreeCopies
import GoSite.TerminalClient
import GoSite.RepairOrder
import GoSite.NginxChanges
import GoSite.FailedToggles
import GoSite.ConfTokens
import GoSite.CandidateTests
import GoSite.UploadFailures
import GoSite.CertbotRemovals
import GoSite.CalendarPeriods
import GoSite.CronScheduler
import GoSite.BufferedScanner
import GoSite.CommandStreams
import GoSite.FailedPasses
import GoSite.CombinedRecords
import GoSite.NginxTraffic
import GoSite.RestartBackoff
import GoSite.EventIdentity
import GoSite.PluginSecrets
import GoSite.S3Options
import GoSite.MigrationRepeats
import GoSite.TemplateHealing
import GoSite.BundledSeeding
import GoSite.RemoteResolvers
import GoSite.ResolveTokens
import GoSite.TimeTexts
import GoSite.SearchTimes
import GoSite.JsonTexts
import GoSite.TailFrames
import GoSite.TemplateWords
import GoSite.SiteInjection
import GoSite.PluginProgramRuns
import GoSite.LockedPool
import GoSite.LockedOperations
import GoSite.ConcurrentOperations
import GoSite.SettledOperations
import GoSite.StrandedVersions
import GoSite.AccessTokens
import GoSite.HttpRoutes
import GoSite.HttpAccess
import GoSite.AccessRuns
