import Pyureq.Core.Client
import Pyureq.Core.Headers
import Pyureq.Core.Url

/-! `http_execute` of `lib.rs`, the error translation, and the two entry points that Python
calls: `RustClient::request` and `http_request`. -/

namespace Pyureq
open PercentCoding

def mapUreqError (e : UreqError) : PyErr :=
  match e.kind with
  | .timeout => ⟨.timeoutError, e.msg⟩
  | .hostNotFound | .connectionFailed | .io => ⟨.builtinConnectionError, e.msg⟩
  | .tooManyRedirects => ⟨.runtimeError, "TooManyRedirects: ".toList ++ e.msg⟩
  | .tls | .nativeTls | .pem | .der => ⟨.runtimeError, "SSLError: ".toList ++ e.msg⟩
  | .badUri | .http | .requireHttpsOnly => ⟨.valueError, e.msg⟩
  | .invalidProxyUrl | .connectProxyFailed => ⟨.runtimeError, "ProxyError: ".toList ++ e.msg⟩
  | .decompress => ⟨.runtimeError, "ContentDecodingError: ".toList ++ e.msg⟩
  | .other _ => ⟨.runtimeError, e.msg⟩

def panic (msg : String) : PyErr := ⟨.panicException, msg.toList⟩

/-- `Duration::from_secs_f64`, in seconds. -/
def durationFromSecs : PyFloat → Except PyErr ℚ
  | .finite q =>
    if q < 0 then .error (panic "cannot convert float seconds to Duration: value is negative")
    else if 2 ^ 64 ≤ q then
      .error (panic "cannot convert float seconds to Duration: value is either too big or NaN")
    else .ok q
  | .inf true => .error (panic "cannot convert float seconds to Duration: value is negative")
  | .inf false | .nan =>
    .error (panic "cannot convert float seconds to Duration: value is either too big or NaN")

structure RawResponse where
  statusCode : ℕ
  headers : OrderedMap Text Text
  body : Bytes
  url : Text
  encoding : Option Text

/-- The arguments of `http_execute` that both entry points pass on unchanged. -/
structure CallArgs where
  method : Text
  url : Text
  headers : Option (OrderedMap Text Text)
  params : Option (List (Text × Text))
  body : Option Bytes
  contentType : Option Text
  auth : Option (Text × Text)
  timeout : Option PyFloat
  allowRedirects : Bool
  cookies : Option (OrderedMap Text Text)
  noProxyAll : Bool
  proxy : Option Text
  deriving DecidableEq

def request (p : Platform) (a : CallArgs) : Request where
  method := p.toUppercase a.method
  uri := percentEncodeUri (urlWithParams a.url a.params)
  headers := requestHeaders p a.headers a.cookies a.auth a.contentType
  body := a.body.getD []

/-- The proxy part of the per-request configuration. -/
def proxySetting (p : Platform) (proxy : Option Text) (noProxyAll : Bool) :
    Except PyErr ProxySetting :=
  match proxy with
  | some s =>
    match p.newProxy s with
    | .error e => .error ⟨.valueError, e⟩
    | .ok proxyObj => .ok (.via proxyObj)
  | none => .ok (if noProxyAll then .disabled else .inherit)

def globalTimeout : Option PyFloat → Except PyErr (Option ℚ)
  | some t => (durationFromSecs t).map some
  | none => .ok none

def requestConfig (p : Platform) (a : CallArgs) : Except PyErr RequestConfig := do
  let timeoutGlobal ← globalTimeout a.timeout
  let proxy ← proxySetting p a.proxy a.noProxyAll
  pure { maxRedirects := if a.allowRedirects then 30 else 0, timeoutGlobal, proxy }

def rawResponse (p : Platform) (resp : HttpResponse) : Except PyErr RawResponse :=
  let headers := headersOut p resp.headers
  match resp.body with
  | .error e => .error (mapUreqError e)
  | .ok body =>
    .ok { statusCode := resp.status, headers, body, url := resp.uri,
          encoding := (headers.get? "content-type".toList).bind (charsetOf p) }

/-- What a successful response keeps of the answer's fields. -/
theorem rawResponse_ok {p : Platform} {resp : HttpResponse} {raw : RawResponse}
    (h : rawResponse p resp = .ok raw) :
    raw.headers = headersOut p resp.headers ∧
      raw.encoding =
        ((headersOut p resp.headers).get? "content-type".toList).bind (charsetOf p) := by
  unfold rawResponse at h
  dsimp only at h
  split at h
  · cases h
  · obtain rfl := Except.ok.inj h
    exact ⟨rfl, rfl⟩

def httpExecute (p : Platform) (agent : Agent) (a : CallArgs) : Except PyErr RawResponse := do
  let req := request p a
  match p.checkRequest req with
  | .error e => .error ⟨.valueError, e⟩
  | .ok () =>
    let cfg ← requestConfig p a
    match p.run agent cfg req with
    | .panicked msg => .error ⟨.panicException, msg⟩
    | .failed e => .error (mapUreqError e)
    | .answered resp => rawResponse p resp

/-- The keyword arguments of the entry points as Python passes them. -/
structure RustArgs where
  method : Text
  url : Text
  headers : Option (OrderedMap Text Text)
  params : Option (List (Text × Text))
  body : Option Bytes
  contentType : Option Text
  auth : Option (Text × Text)
  timeout : Option PyFloat
  verify : PyVal
  allowRedirects : PyVal
  cookies : Option (OrderedMap Text Text)
  noProxyAll : Bool
  proxy : Option PyVal

/-- pyo3's extraction of a `bool` parameter. -/
def extractBool (name : String) : PyVal → Except PyErr Bool
  | .bool b => .ok b
  | _ => .error (PyVal.typeError ("argument '" ++ name ++ "': object cannot be cast as 'bool'"))

/-- pyo3's extraction of an `Option<String>` parameter. -/
def extractText (name : String) : Option PyVal → Except PyErr (Option Text)
  | none | some .none => .ok none
  | some (.str s) => .ok (some s)
  | some _ =>
    .error (PyVal.typeError ("argument '" ++ name ++ "': object cannot be cast as 'str'"))

/-- What pyo3 hands to the function body; the other parameters arrive with their type. -/
def extractArgs (a : RustArgs) : Except PyErr CallArgs := do
  let allowRedirects ← extractBool "allow_redirects" a.allowRedirects
  let proxy ← extractText "proxy" a.proxy
  pure { method := a.method, url := a.url, headers := a.headers, params := a.params,
         body := a.body, contentType := a.contentType, auth := a.auth, timeout := a.timeout,
         allowRedirects, cookies := a.cookies, noProxyAll := a.noProxyAll, proxy }

/-- The end of a call into Rust: its result and what it leaves behind. -/
structure CallOutcome where
  result : Except PyErr RawResponse
  client : Option RustClient
  world : World

namespace RustClient

/-- The client's own settings fill in what the call leaves open. -/
def effective (c : RustClient) (a : CallArgs) : CallArgs :=
  { a with timeout := a.timeout.or c.defaultTimeout
           noProxyAll := a.noProxyAll || c.defaultNoProxyAll }

def request (p : Platform) (env : TlsEnv) (c : RustClient) (w : World) (a : RustArgs) :
    CallOutcome :=
  match extractArgs a with
  | .error e => ⟨.error e, some c, w⟩
  | .ok args =>
    let s := c.selectAgent env (pyOption a.verify) w
    ⟨s.result.bind fun agent => httpExecute p agent (c.effective args), some s.client, s.world⟩

/-- A call whose arguments arrive leaves what the selection of its agent leaves. -/
theorem request_selects {p : Platform} {env : TlsEnv} {c : RustClient} {w : World} {a : RustArgs}
    {args : CallArgs} (h : extractArgs a = .ok args) :
    (c.request p env w a).client = some (c.selectAgent env (pyOption a.verify) w).client ∧
      (c.request p env w a).world = (c.selectAgent env (pyOption a.verify) w).world := by
  unfold request
  rw [h]
  exact ⟨rfl, rfl⟩

end RustClient

def httpRequest (p : Platform) (env : TlsEnv) (w : World) (a : RustArgs) : CallOutcome :=
  match extractArgs a with
  | .error e => ⟨.error e, none, w⟩
  | .ok args =>
    match oneShotAgent env (pyOption a.verify) w with
    | .error e => ⟨.error e, none, w⟩
    | .ok (agent, w') => ⟨httpExecute p agent args, none, w'⟩

end Pyureq
