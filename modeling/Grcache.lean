import Grcache.Base.Runs
import Grcache.Base.Fault
import Grcache.Base.BTreeSet
import Grcache.Service.DescriptorSet
import Grcache.Service.Resolve
import Grcache.Store.Index
import Grcache.Grpc.Hash
import Grcache.Grpc.Status
import Grcache.Base.Framing
import Grcache.Store.Generation
import Grcache.Store.Isolation
import Grcache.Resource.Redundant
import Grcache.Proxy.Request
import Grcache.Store.Routing
import Grcache.Store.Lookups
import Grcache.Store.Cluster
import Grcache.Proxy.CacheKey
import Grcache.Proxy.Noninterference
import Grcache.Proxy.Response
import Grcache.Proxy.Freshness
import Grcache.Proxy.Outcomes
import Grcache.Proxy.OptIn
import Grcache.Proxy.GrpcPath
import Grcache.Proxy.Trailers
import Grcache.Discovery.Stopping
import Grcache.Cache.Pools
import Grcache.Cache.Provenance
import Grcache.Health.Readiness
import Grcache.Server.Upstreams
import Grcache.Server.Sharing
