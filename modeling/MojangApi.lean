import MojangApi.App.Accounting
import MojangApi.App.Answers
import MojangApi.App.Upstream
import MojangApi.Lookup.Answerable
import MojangApi.Lookup.Distinct
import MojangApi.Lookup.InFlight
import MojangApi.Lookup.Shutdown
import MojangApi.Lookup.Soundness
import MojangApi.Mojang.Body
import MojangApi.Mojang.Exchanges
import MojangApi.Mojang.ProxyAddress
import MojangApi.Mojang.ProxyList
import MojangApi.Mojang.ProxyCredentials
import MojangApi.RateLimit.Burst
import MojangApi.RateLimit.Forgetting
import MojangApi.RateLimit.RetryAfter
import MojangApi.RateLimit.Stale
import MojangApi.Report.ReadBack
import MojangApi.Router.Served
import MojangApi.Spellings
import MojangApi.Startup
import MojangApi.Service.Reports
