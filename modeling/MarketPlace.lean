import MarketPlace.InterleavedPrograms
import MarketPlace.KeyedTables
import MarketPlace.ReadCommittedStore
import MarketPlace.EventLogs
import MarketPlace.DataModel
import MarketPlace.World
import MarketPlace.Statements
import MarketPlace.OtpVerification
import MarketPlace.AuthService
import MarketPlace.Backend
import MarketPlace.Histories
import MarketPlace.Effects
import MarketPlace.TracedWorlds
import MarketPlace.StatementRules
import MarketPlace.VerificationOutlines
import MarketPlace.HandlerOutlines
import MarketPlace.BackendOutlines
import MarketPlace.GivenRuns
import MarketPlace.OtpHistories
import MarketPlace.OtpBinding
import MarketPlace.OtpLockout
import MarketPlace.SupersededOtps
import MarketPlace.AccountHistories
import MarketPlace.TokenEpochs
import MarketPlace.LiveModeration
import MarketPlace.HandlersAlone
import MarketPlace.PasswordSessions
import MarketPlace.AccountEnumeration
import MarketPlace.MarketActions
import MarketPlace.MarketData
import MarketPlace.MarketStatements
import MarketPlace.ListingServices
import MarketPlace.ProfileServices
import MarketPlace.ChatService
import MarketPlace.MarketSteps
import MarketPlace.MarketDiscipline
import MarketPlace.MarketRules
import MarketPlace.MarketOutlines
import MarketPlace.ServiceOutlines
import MarketPlace.ProductAuthority
import MarketPlace.MarketHistories
import MarketPlace.ProductTaxonomy
import MarketPlace.DeletedSellers
import MarketPlace.MediaIntegrity
import MarketPlace.MessageIntegrity
import MarketPlace.LatestMessages
import MarketPlace.OpeningOutlines
import MarketPlace.ConversationOpening
import MarketPlace.CursorPaging
import MarketPlace.MessagePaging
import MarketPlace.RestrictedOutcomes
import MarketPlace.RefreshTokenRows
import MarketPlace.RefreshRotation
import MarketPlace.SilentActions
import MarketPlace.RedisAccelerator
import MarketPlace.ConversationTabs
import MarketPlace.GroupedJoins
import MarketPlace.SellerRates
import MarketPlace.FileOwnership
import MarketPlace.AdminContinuity
import MarketPlace.LiftedPrograms
import MarketPlace.ChatGateway
import MarketPlace.GatewaySteps
import MarketPlace.GatewayDiscipline
import MarketPlace.ChatOutlines
import MarketPlace.GatewayOutlines
import MarketPlace.RoomMembership
import MarketPlace.SocketRegistry
import MarketPlace.JoinedPayloads
import MarketPlace.LoneRuns
import MarketPlace.LoneServices
import MarketPlace.OwnerException
import MarketPlace.LoneHandlers
import MarketPlace.FailedRegistrations
import MarketPlace.LogoutRevocation
import MarketPlace.AdminOutcomes
import MarketPlace.NumberedParameters
import MarketPlace.SearchStatements
import MarketPlace.SearchSpecification
import MarketPlace.ImageStatements
import MarketPlace.ImageReplacement
import MarketPlace.ConversationDetails
import MarketPlace.ParentForests
import MarketPlace.PartialUpdates
import MarketPlace.KeptInvariants
import MarketPlace.CoherentRows
import MarketPlace.BlockedActions
import MarketPlace.BlockedAnswers
import MarketPlace.CategoryService
import MarketPlace.CategoryTree
import MarketPlace.JsonTrees
import MarketPlace.FkExpansion
import MarketPlace.ExpansionSpecification
import MarketPlace.ProductDetails
import MarketPlace.WildcardPatterns
import MarketPlace.SubstringSearch
import MarketPlace.CorsConfiguration
import MarketPlace.TokenLifetimes
import MarketPlace.ChatErrorEvents
import MarketPlace.TransactionWrapper
import MarketPlace.CodeUnits
import MarketPlace.LogSanitizing
import MarketPlace.RequestLogging
import MarketPlace.SettledRuns
import MarketPlace.MessageTexts
import MarketPlace.RefreshFailures
import MarketPlace.OwnActions
import MarketPlace.OwnStatements
import MarketPlace.PasswordSwaps
import MarketPlace.RedisEntries
import MarketPlace.AkedlyLookups
import MarketPlace.LogBounds
import MarketPlace.AttemptWindows
import MarketPlace.FixedWindows
import MarketPlace.AccessTokens
import MarketPlace.PhoneOwnership
import MarketPlace.OtpSingleUse
import MarketPlace.RegistrationCredentials
import MarketPlace.BlindRuns
import MarketPlace.SecretRows
import MarketPlace.BlindStatements
import MarketPlace.BlindServices
import MarketPlace.ExpansionSecrets
import MarketPlace.ResponseBodies
import MarketPlace.BodyNames
import MarketPlace.SelectedProducts
import MarketPlace.BlockedBodies
import MarketPlace.BodySecrets
import MarketPlace.Confidentiality
import MarketPlace.MutualBlocks
import MarketPlace.ProgressOutlines
import MarketPlace.LinearizedLogs
import MarketPlace.UserTies
import MarketPlace.RoomAttendance
import MarketPlace.MessageDelivery
import MarketPlace.ModerationDesk
import MarketPlace.DeskOutlines
import MarketPlace.FreshReads
import MarketPlace.ReportHistories
import MarketPlace.AuditTrails
import MarketPlace.ReportPages
import MarketPlace.ResponseEnvelopes
import MarketPlace.MarketReads
import MarketPlace.RecordDisclosure
import MarketPlace.SeededCategories
import MarketPlace.MigrationScript
import MarketPlace.MigrationRuns
