import VerdeAuth.ResumptionPrograms
import VerdeAuth.InterleavedPools
import VerdeAuth.CallSites
import VerdeAuth.KeyedTables
import VerdeAuth.IamTables
import VerdeAuth.IamOperations
import VerdeAuth.UsersService
import VerdeAuth.TokenServices
import VerdeAuth.MfaServices
import VerdeAuth.AuthService
import VerdeAuth.MfaController
import VerdeAuth.IamEndpoints
import VerdeAuth.JsonTexts
import VerdeAuth.JsonRoundTrip
import VerdeAuth.JsonPrefixes
import VerdeAuth.HashChains
import VerdeAuth.JavaScriptCoercions
import VerdeAuth.SiemLoggerService
import VerdeAuth.LogEntryLines
import VerdeAuth.LogFileNames
import VerdeAuth.SiemChainIntegrity
import VerdeAuth.HexDigests
import VerdeAuth.LoggedChains
import VerdeAuth.IamRules
import VerdeAuth.UserRowChanges
import VerdeAuth.RequestEndings
import VerdeAuth.RequestRuns
import VerdeAuth.UserRowConsistency
import VerdeAuth.IamAssumptions
import VerdeAuth.SecondFactorGate
import VerdeAuth.AccountWeakening
import VerdeAuth.CallerIsolation
import VerdeAuth.RefreshTokenChain
import VerdeAuth.BackupCodeStorage
import VerdeAuth.RequestFootprints
import VerdeAuth.StaleWrites
import VerdeAuth.TokenRaces
import VerdeAuth.RunHistories
import VerdeAuth.LockoutCounters
import VerdeAuth.EnrolmentEvents
import VerdeAuth.FactorEnrolment
import VerdeAuth.InactiveAccounts
import VerdeAuth.LockoutGuards
import VerdeAuth.PerformedChecks
import VerdeAuth.GuessingBounds
import VerdeAuth.LockoutConfiguration
import VerdeAuth.LostUpdates
import VerdeAuth.LostAttempts
import VerdeAuth.SiemVerifierReading
import VerdeAuth.SiemTamperDetection
import VerdeAuth.SiemRangeVerification
import VerdeAuth.SiemForgedLines
import VerdeAuth.SiemCompleteness
import VerdeAuth.CutLines
import VerdeAuth.SiemCrashRecovery
import VerdeAuth.LogRetention
import VerdeAuth.FailedLogCalls
import VerdeAuth.VerificationTraces
import VerdeAuth.SessionCalls
import VerdeAuth.AuditTrail
import VerdeAuth.RevocableLeases
import VerdeAuth.SessionRefinement
import VerdeAuth.PermanentRevocation
import VerdeAuth.TokenExchanges
import VerdeAuth.FailingHandlers
import VerdeAuth.ByteTexts
import VerdeAuth.TokenVerification
import VerdeAuth.TokenKinds
import VerdeAuth.UnmatchedTokens
import VerdeAuth.DeviceLogins
import VerdeAuth.BatchShipping
import VerdeAuth.LokiTransport
import VerdeAuth.JsonSchemas
import VerdeAuth.DateTimes
import VerdeAuth.JsonLogFormat
import VerdeAuth.LogConformance
import VerdeAuth.TokenEnvelope
import VerdeAuth.UserDataEncryption
import VerdeAuth.BackupCodeRuns
import VerdeAuth.EventTypes
import VerdeAuth.LockoutEvents
import VerdeAuth.EmailProbes
import VerdeAuth.EntryValidators
import VerdeAuth.CorruptBackupCodes
import VerdeAuth.RacingRows
import VerdeAuth.RowIsolation
import VerdeAuth.ResponseContracts
import VerdeAuth.RequestContracts
import VerdeAuth.EarnedTokens
import VerdeAuth.SessionRows
import VerdeAuth.OperationLedgers
import VerdeAuth.ServiceLedger
import VerdeAuth.ForetoldLogs
import VerdeAuth.SecuredThreads
import VerdeAuth.CertainReplies
import VerdeAuth.TokenOwners
import VerdeAuth.EnrolledSecrets
import VerdeAuth.SignIns
import VerdeAuth.SharedLogDirectories
import VerdeAuth.AlertCounts
import VerdeAuth.ForwardedEntries
import VerdeAuth.SeedScripts
import VerdeAuth.StandingLocks
import VerdeAuth.RefusedRefreshes
import VerdeAuth.KeyAgreement
import VerdeAuth.KeyManagement
import VerdeAuth.AuthorisedChanges
