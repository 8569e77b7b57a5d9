import PriceFeed.Catalog.Writer
import PriceFeed.Decimal.Text
import PriceFeed.Gateway
import PriceFeed.Health
import PriceFeed.Main
import PriceFeed.Proofs.Aggregates
import PriceFeed.Proofs.Averages.Decays
import PriceFeed.Proofs.Averages.Mean
import PriceFeed.Proofs.Averages.Sound
import PriceFeed.Proofs.Board
import PriceFeed.Proofs.Book.Afresh
import PriceFeed.Proofs.Book.Gaps
import PriceFeed.Proofs.Book.Orders
import PriceFeed.Proofs.Commits.Runs
import PriceFeed.Proofs.Consensus
import PriceFeed.Proofs.Consensus.Moves
import PriceFeed.Proofs.Consensus.Words
import PriceFeed.Proofs.Mailbox
import PriceFeed.Proofs.Outcomes
import PriceFeed.Proofs.Persistence
import PriceFeed.Proofs.Requests
import PriceFeed.Proofs.Subscriptions
import PriceFeed.Proofs.Subscriptions.Ledger
import PriceFeed.Proofs.Hub.Answers
import PriceFeed.Proofs.Hub.Replies
import PriceFeed.Proofs.Hub.Sound
import PriceFeed.Proofs.Hub.Notices
import PriceFeed.Proofs.Hub.Runs
import PriceFeed.Proofs.Hub.Log
import PriceFeed.Proofs.Hub.Lifecycle
import PriceFeed.Proofs.Hub.Feed
import PriceFeed.Proofs.Hub.Leftovers
import PriceFeed.Proofs.Hub.Refusals
import PriceFeed.Proofs.Hub.Batches
import PriceFeed.Proofs.Hub.Confinement
import PriceFeed.Proofs.Hub.Responses
import PriceFeed.Proofs.Hub.Products
import PriceFeed.Proofs.Hub.Texts
import PriceFeed.Proofs.Hub.Schedule
import PriceFeed.Proofs.Book.Repeats
import PriceFeed.Proofs.Hub.Counters
import PriceFeed.Proofs.Json.Written
import PriceFeed.Proofs.Requests.Written
import PriceFeed.Proofs.Requests.Quotes
import PriceFeed.Proofs.Catalog.Written
