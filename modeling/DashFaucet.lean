import DashFaucet.Async.Actor
import DashFaucet.Store.Table
import DashFaucet.Store.Window
import DashFaucet.Chain.Client
import DashFaucet.Chain.Relays
import DashFaucet.Chain.Lookups
import DashFaucet.Tx
import DashFaucet.Spends
import DashFaucet.Invitation
import DashFaucet.Treasury.State
import DashFaucet.Treasury.Ledger
import DashFaucet.Treasury.Spending
import DashFaucet.Treasury.Settle
import DashFaucet.Treasury.Merge
import DashFaucet.Treasury.Maintenance
import DashFaucet.Treasury.Invitations
import DashFaucet.Treasury.Accounts
import DashFaucet.Treasury.Payout
import DashFaucet.Treasury.System
import DashFaucet.Treasury.Steps
import DashFaucet.Treasury.Meets.View
import DashFaucet.Treasury.Meets.Maintenance
import DashFaucet.Treasury.Meets.Payout
import DashFaucet.Treasury.Meets.Invitations
import DashFaucet.Treasury.Runs
import DashFaucet.Treasury.Administration
import DashFaucet.Treasury.Charges
import DashFaucet.Treasury.Admission
import DashFaucet.Treasury.KeyLimits
import DashFaucet.Treasury.CodeLimits
import DashFaucet.Treasury.PublicLimits
import DashFaucet.Treasury.Locks
import DashFaucet.Treasury.Conservation
import DashFaucet.Treasury.Vouchers
import DashFaucet.Treasury.VoucherKeys
import DashFaucet.Treasury.Reservations
import DashFaucet.Treasury.Issuances
import DashFaucet.Treasury.Coins
import DashFaucet.Treasury.Phantoms
import DashFaucet.Chain.Evonodes
import DashFaucet.Chain.Tip
import DashFaucet.Treasury.MergeSafety
import DashFaucet.Treasury.Passes
import DashFaucet.Treasury.Quiescence
import DashFaucet.Treasury.KeyLives
import DashFaucet.Cap
import DashFaucet.Captcha
import DashFaucet.Treasury.PublicOnce
import DashFaucet.Data.Largest
import DashFaucet.Selection
import DashFaucet.Treasury.PayoutCoins
import DashFaucet.Treasury.MergeReach
import DashFaucet.Treasury.Maturity
import DashFaucet.Config
import DashFaucet.CapTokens
import DashFaucet.Data.Utf8
import DashFaucet.Data.Base64
import DashFaucet.Data.Json
import DashFaucet.Data.Text
import DashFaucet.Auth
import DashFaucet.SealedCookies
import DashFaucet.Portal
import DashFaucet.PortalGates
import DashFaucet.Chain.Http
import DashFaucet.Chain.Socket
import DashFaucet.Chain.Http1
import DashFaucet.Data.Double
import DashFaucet.Data.Reader
import DashFaucet.Chain.Dapi
import DashFaucet.Chain.Replies
import DashFaucet.Data.Word
import DashFaucet.Prng
import DashFaucet.Solutions
import DashFaucet.Chain.Failover
import DashFaucet.Treasury.Reconciliation
import DashFaucet.Treasury.Batches
import DashFaucet.Treasury.Fees
import DashFaucet.Treasury.NextBlock
import DashFaucet.Treasury.Refill
import DashFaucet.Treasury.RetryAfter
import DashFaucet.Data.Positional
import DashFaucet.IdentityIds
import DashFaucet.Treasury.SpareCoins
import DashFaucet.Data.Arrays
import DashFaucet.Chain.Directory
import DashFaucet.Chain.Sampling
import DashFaucet.Data.Url
import DashFaucet.Chain.Origins
import DashFaucet.Chain.HostileBytes
import DashFaucet.Data.Ipv6
import DashFaucet.ClientIp
import DashFaucet.Data.Query
import DashFaucet.Data.Binary64
import DashFaucet.Amounts
import DashFaucet.Async.Server
import DashFaucet.Login
import DashFaucet.LoginGates
import DashFaucet.LoginCookies
import DashFaucet.LoginTrip
import DashFaucet.LoginRuns
import DashFaucet.Settings
import DashFaucet.KeysOff
import DashFaucet.Devices
import DashFaucet.Async.Clients
import DashFaucet.Deployment
import DashFaucet.DeploymentTokens
import DashFaucet.Gates
