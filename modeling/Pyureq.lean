import Pyureq.Base.OrderedMap
import Pyureq.Base.Delimited
import Pyureq.Base.PercentCoding
import Pyureq.Base.Base64
import Pyureq.Base.Json.Strings
import Pyureq.Base.Json.Values
import Pyureq.Base.Json.RoundTrip
import Pyureq.Base.Runs
import Pyureq.Base.Registers
import Pyureq.Base.Simulation
import Pyureq.Exceptions
import Pyureq.Python.Text
import Pyureq.Python.Value
import Pyureq.Python.Json
import Pyureq.Structures
import Pyureq.Structures.Equality
import Pyureq.Structures.Refinement
import Pyureq.Core.Verify
import Pyureq.Core.Client
import Pyureq.Threads.AgentPools
import Pyureq.Threads.SessionVerify
import Pyureq.Threads.OverridesLock
import Pyureq.Threads.TrustAnchors
import Pyureq.Core.Url
import Pyureq.Url.TargetCompliance
import Pyureq.Url.QueryRoundTrip
import Pyureq.Url.StructureKept
import Pyureq.Url.Grammar
import Pyureq.Url.CompliantUrls
import Pyureq.Url.Fragments
import Pyureq.Core.Ureq
import Pyureq.Core.Headers
import Pyureq.Core.Execute
import Pyureq.Models
import Pyureq.Sessions
import Pyureq.Requests.HeaderAssembly
import Pyureq.Requests.HeaderMerge
import Pyureq.Requests.PathAgreement
import Pyureq.Requests.Sending
import Pyureq.Requests.HeaderOctets
import Pyureq.Requests.Params
import Pyureq.Requests.Following
import Pyureq.Requests.CookieEncoding
import Pyureq.Requests.BasicAuth
import Pyureq.Requests.Bodies
import Pyureq.Requests.JsonBody
import Pyureq.Requests.ErrorClasses
import Pyureq.Requests.Timeouts
import Pyureq.Sessions.Verbs
import Pyureq.Sessions.Lifetime
import Pyureq.Sessions.VerifySetter
import Pyureq.Sessions.CookiePersistence
import Pyureq.Sessions.KeepAlive
import Pyureq.Threads.AttributeReads
import Pyureq.Requests.Bundles
import Pyureq.Responses.Charset
import Pyureq.Responses.HeaderFolding
import Pyureq.Responses.Links
import Pyureq.Responses.SetCookie
import Pyureq.Sessions.CookieRelay
import Pyureq.Sessions.HashOrder
import Pyureq.Sessions.NoTrace
import Pyureq.Requests.ProxyChoice
import Pyureq.Sessions.Unpooled
import Pyureq.Sessions.Isolation
import Pyureq.Sessions.HeaderPrograms
import Pyureq.Sessions.ModuleFunctions
