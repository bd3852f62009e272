import DuckJeu.Core.Decimal
import DuckJeu.Core.Exactness
import DuckJeu.Core.CacheBytes
import DuckJeu.Provider.Distinct
import DuckJeu.Provider.Accepted
import DuckJeu.Provider.ByteCap
import DuckJeu.Provider.Replies
import DuckJeu.Host.Isolation
import DuckJeu.Host.Lifecycle
import DuckJeu.Executor.Single
import DuckJeu.Executor.Context
import DuckJeu.Executor.Batch
import DuckJeu.Executor.Hashing
import DuckJeu.Executor.Results
import DuckJeu.Executor.Dispatches
import DuckJeu.Executor.Delivery
import DuckJeu.Executor.Liveness
import DuckJeu.Functions.Modes
import DuckJeu.Functions.Gate
import DuckJeu.Functions.Output
import DuckJeu.Functions.Usage
import DuckJeu.Functions.RowCounts
import DuckJeu.Functions.Served
import DuckJeu.Functions.Reliable
