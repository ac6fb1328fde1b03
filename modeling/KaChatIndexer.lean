import KaChatIndexer.NamesHistory
import KaChatIndexer.FollowerResume
import KaChatIndexer.NamesRestart
import KaChatIndexer.NamesPrices
import KaChatIndexer.ArenaClock
import KaChatIndexer.ArenaIndependence
import KaChatIndexer.ArenaStandings
import KaChatIndexer.KaSeparation
import KaChatIndexer.KaDeletes
import KaChatIndexer.KaRelations
import KaChatIndexer.KaInterrupted
import KaChatIndexer.KaVotes
import KaChatIndexer.KaEdits
import KaChatIndexer.KaProfiles
import KaChatIndexer.ScheduledCoins
import KaChatIndexer.ScheduledStatus
import KaChatIndexer.ChatPolling
import KaChatIndexer.ChatReadable
import KaChatIndexer.ChatPending
import KaChatIndexer.ChatDeferred
import KaChatIndexer.ScheduledShapes
import KaChatIndexer.NamesPaging
import KaChatIndexer.PushEndpoints
import KaChatIndexer.PushLookups
import KaChatIndexer.PushOwnership
import KaChatIndexer.RingLimits
import KaChatIndexer.ChatExport
import KaChatIndexer.ChatRanges
import KaChatIndexer.ChatEntries
import KaChatIndexer.ChatWire
import KaChatIndexer.KaPersons
import KaChatIndexer.ChessAttacks
import KaChatIndexer.KaThreads
import KaChatIndexer.ProfilesOrder
import KaChatIndexer.KaTags
import KaChatIndexer.BotBoards
import KaChatIndexer.NamesIdentities
import KaChatIndexer.NamesProfileStats
import KaChatIndexer.NamesReminders
import KaChatIndexer.NamesFaults
import KaChatIndexer.FundsRuns
import KaChatIndexer.ChainRuns
import KaChatIndexer.GapCoverage
