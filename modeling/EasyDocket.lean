import EasyDocket.Sync.Merging
import EasyDocket.Sync.Skipping
import EasyDocket.Sync.Pruning
import EasyDocket.Sync.Naming
import EasyDocket.Keys.Presence
import EasyDocket.Keys.Settings
import EasyDocket.Keys.Envelope
import EasyDocket.Proxy.Redirects
import EasyDocket.Tenancy.Runs
import EasyDocket.HlcRuns
import EasyDocket.Tabs
import EasyDocket.Server.Held
import EasyDocket.Server.Walks
import EasyDocket.Server.Api
import EasyDocket.Server.Following
import EasyDocket.Server.Isolation
import EasyDocket.Server.Minting
import EasyDocket.Server.Crossing
import EasyDocket.Books.Rollup
import EasyDocket.Books.Display
import EasyDocket.Books.Identities
import EasyDocket.Books.Sections
import EasyDocket.Books.Transfers
import EasyDocket.Books.Rounding
import EasyDocket.Books.NetWorth
import EasyDocket.Books.Currencies
import EasyDocket.Books.Calendar
import EasyDocket.Books.Rollover
import EasyDocket.Backup.LaterWork
import EasyDocket.Recurring.Upcoming
import EasyDocket.Recurring.CatchUp
import EasyDocket.Cards.Statement
import EasyDocket.Cards.Bills
import EasyDocket.Import.Lines
import EasyDocket.Books.Shifts
import EasyDocket.Books.Money
import EasyDocket.Import.DateCells
import EasyDocket.Import.Writing
import EasyDocket.Sync.Batching
import EasyDocket.Import.AmountCells
import EasyDocket.Sync.Retrying
import EasyDocket.Recurring.Overriding
import EasyDocket.Recurring.Forms
import EasyDocket.Filing.References
import EasyDocket.Filing.Reordering
import EasyDocket.Sync.Serial
import EasyDocket.Sync.Stranding
import EasyDocket.Sync.Scheduling
import EasyDocket.Sync.S3Bucket
