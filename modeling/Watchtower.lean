import Watchtower.Cli.OneChain
import Watchtower.Cli.OneLife
import Watchtower.Cli.Reposting
import Watchtower.Cli.Standstill
import Watchtower.Downloader.Completeness
import Watchtower.Downloader.Filing
import Watchtower.Downloader.OtherSenders
import Watchtower.Downloader.QueueBatch
import Watchtower.Downloader.QueueRateLimit
import Watchtower.Downloader.QueueRewind
import Watchtower.Downloader.QueueTip
import Watchtower.Downloader.Reorganisation
import Watchtower.Syncer.ForeignHeights
import Watchtower.Syncer.ImportOutcome
import Watchtower.Syncer.SyncLoop
import Watchtower.Syncer.Unheard
