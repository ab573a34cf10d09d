import BasisHawk.MultiLeg.Abandoned
import BasisHawk.MultiLeg.Acknowledged
import BasisHawk.MultiLeg.Claiming
import BasisHawk.MultiLeg.Pause
import BasisHawk.MultiLeg.Compensation
import BasisHawk.MultiLeg.Completion
import BasisHawk.MultiLeg.TradeLag
import BasisHawk.MultiLeg.LeverageReadback
import BasisHawk.Paired.CashIdentity
import BasisHawk.Paired.Conservation
import BasisHawk.Paired.Reservation
import BasisHawk.Paired.Storable
import BasisHawk.Paired.Exposure
import BasisHawk.Reconciliation.Streams
import BasisHawk.Transfers.Safety
import BasisHawk.Transfers.Pending
import BasisHawk.Automation.Service
import BasisHawk.Automation.Limits
import BasisHawk.MultiLeg.BaseFees
import BasisHawk.MultiLeg.Restoring
import BasisHawk.Lib.Rounding
import BasisHawk.MultiLeg.StoredRatio
import BasisHawk.MultiLeg.HedgeShare
import BasisHawk.Reconciliation.AtMostOnce
import BasisHawk.Reconciliation.FillLag
import BasisHawk.Funding.Attribution
import BasisHawk.Funding.Truncation
import BasisHawk.Credentials.Storage
import BasisHawk.Lib.Marks
import BasisHawk.Credentials.Defaults
import BasisHawk.Credentials.StreamManager
import BasisHawk.Notifications.Delivery
import BasisHawk.Auth.Service
import BasisHawk.Auth.Revocation
import BasisHawk.Lib.Requests
import BasisHawk.Lib.Sessions
import BasisHawk.Planning.Sizing
import BasisHawk.Planning.Preview
import BasisHawk.Planning.Plans
import BasisHawk.Planning.Tables
import BasisHawk.Planning.Creation
import BasisHawk.Planning.Idempotency
import BasisHawk.Planning.TwinTrades
import BasisHawk.Planning.TwinTasks
import BasisHawk.Planning.TwinTransfers
import BasisHawk.Planning.Races
import BasisHawk.Planning.MinimumNotional
import BasisHawk.Reconciliation.CompensationSizing
import BasisHawk.Reconciliation.DeadOrders
import BasisHawk.Reconciliation.CompensationQueue
import BasisHawk.Lib.Ledger
import BasisHawk.MultiLeg.FillLedger
import BasisHawk.MultiLeg.Attempts
import BasisHawk.MultiLeg.OrderBudget
import BasisHawk.Reconciliation.FillBatches
import BasisHawk.MultiLeg.MarketOutage
import BasisHawk.Accounts.Decimal
import BasisHawk.Accounts.OrderWire
import BasisHawk.Reconciliation.OrderEcho
import BasisHawk.Accounts.Paging
import BasisHawk.Market.Annualization
import BasisHawk.Paired.PriceGuard
import BasisHawk.Planning.CommonIncrement
import BasisHawk.Planning.TopOfBook
import BasisHawk.Automation.Priority
import BasisHawk.Automation.Specification
import BasisHawk.Paired.Origins
import BasisHawk.Planning.Confirmation
import BasisHawk.Planning.FeeAware
import BasisHawk.Planning.Reclosing
import BasisHawk.Reconciliation.PositionAgreement
import BasisHawk.MultiLeg.PaperTask
import BasisHawk.Lib.Versioned
import BasisHawk.MultiLeg.Lifecycle
import BasisHawk.Paired.FillBook
import BasisHawk.Paired.Outcomes
import BasisHawk.Paired.Terms
import BasisHawk.Reconciliation.Unready
import BasisHawk.MultiLeg.OrderLife
import BasisHawk.MultiLeg.Strategies
import BasisHawk.Notifications.Projection
import BasisHawk.Notifications.ProjectionPass
