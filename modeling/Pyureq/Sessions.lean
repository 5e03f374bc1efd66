import Pyureq.Models

/-! `sessions.py`: the normalisers, `_dispatch` with its except chain, and `Session`. -/

namespace Pyureq
open Delimited PercentCoding

/-- A `headers` argument or attribute. -/
inductive HeadersVal (lower : Text → Text) where
  | cid (d : CaseInsensitiveDict lower PyVal)
  | val (v : PyVal)

/-- The keyword arguments of a request; `none` is one that was not passed. -/
structure Kwargs (lower : Text → Text) where
  headers : Option (HeadersVal lower) := none
  params : Option PyVal := none
  data : Option PyVal := none
  json : Option PyVal := none
  cookies : Option PyVal := none
  auth : Option PyVal := none
  timeout : Option PyVal := none
  verify : Option PyVal := none
  allowRedirects : Option PyVal := none
  proxies : Option PyVal := none

/-- `kwargs.get(...)` without a default. -/
def orNone (v : Option PyVal) : PyVal := v.getD .none

/-- `kwargs.setdefault("allow_redirects", value)`. -/
def Kwargs.setDefaultRedirects {lower : Text → Text} (kw : Kwargs lower) (value : Bool) :
    Kwargs lower :=
  { kw with allowRedirects := some (kw.allowRedirects.getD (.bool value)) }

/-- `data=data` after the parameter `data=None` took the argument out of `kwargs`. -/
def Kwargs.passData {lower : Text → Text} (kw : Kwargs lower) : Kwargs lower :=
  { kw with data := some (orNone kw.data) }

/-- `bytes.decode("latin-1")`. -/
def latin1 (b : Bytes) : Text := b.map fun x => Char.ofNat x.toNat

def coerce (b : Builtins) : PyVal → Text
  | .bytes v | .bytearray v => latin1 v
  | v => b.str v

def normalizeHeaders (b : Builtins) : Option (HeadersVal b.lower) →
    Except PyErr (OrderedMap Text Text)
  | none | some (.val .none) => .ok OrderedMap.empty
  | some (.cid d) => .ok (OrderedMap.ofList (d.items.map fun e => (e.1, coerce b e.2)))
  | some (.val v) => do
    let items ← v.toDict
    pure (OrderedMap.ofList (items.map fun e => (b.str e.1, coerce b e.2)))

def strPairs (b : Builtins) (ps : List (PyVal × PyVal)) : List (Text × Text) :=
  ps.map fun e => (b.str e.1, b.str e.2)

def normalizeParams (b : Builtins) : PyVal → Except PyErr (List (Text × Text))
  | .none => .ok []
  | .dict d => .ok (strPairs b (PyVal.dictItems d))
  | v => do
    let xs ← v.iter
    let ps ← PyVal.pairs xs
    pure (strPairs b ps)

def normalizeCookies (b : Builtins) : PyVal → Except PyErr (OrderedMap Text Text)
  | .none => .ok OrderedMap.empty
  | v => do
    let items ← v.toDict
    pure (OrderedMap.ofList (strPairs b items))

/-- `url.split("://")[0].lower() if "://" in url else "http"`. -/
def urlScheme (b : Builtins) (url : Text) : Text :=
  match cutSub "://".toList url with
  | some (scheme, _) => b.lower scheme
  | none => "http".toList

/-- `proxy if proxy else None`. -/
def truthyOrNone (v : PyVal) : Option PyVal := if v.truthy then some v else none

def getProxyUrl (b : Builtins) (proxies : PyVal) (url : Text) : Except PyErr (Option PyVal) :=
  if proxies.truthy then do
    let v ← proxies.dictGet (.str (urlScheme b url))
    -- `or` looks the fallback up only when the first value is falsy
    if v.truthy then pure (some v)
    else
      let w ← proxies.dictGet (.str "all".toList)
      pure (truthyOrNone w)
  else .ok none

/-- `isinstance(proxies, dict) and all(v == "" for v in proxies.values())`. -/
def allEmpty : PyVal → Bool
  | .dict d => (PyVal.dictItems d).all fun e => e.2.isEmptyStr
  | _ => false

/-- `_get_proxy_url(proxies, url) if not no_proxy_all else None`. -/
def proxyUrl (b : Builtins) (proxies : PyVal) (url : Text) : Except PyErr (Option PyVal) :=
  if allEmpty proxies then .ok none else getProxyUrl b proxies url

/-- `urllib.parse.quote_plus` on the bytes of its argument. -/
def quotePlus (bs : Bytes) : Text :=
  bs.flatMap fun x => if x = 32 then ['+'] else encodeByte (fun c => !pctKeeps c) x

/-- What `urlencode` quotes: bytes as they are, anything else through `str`. -/
def formBytes (b : Builtins) : PyVal → Bytes
  | .bytes v => v
  | v => utf8 (b.str v)

def urlencode (b : Builtins) (items : List (PyVal × PyVal)) : Text :=
  ['&'].intercalate (items.map fun e =>
    quotePlus (formBytes b e.1) ++ '=' :: quotePlus (formBytes b e.2))

def prepareBody (b : Builtins) (data json : PyVal) :
    Except PyErr (Option Bytes × Option Text) :=
  match json with
  | .none =>
    match data with
    | .bytes v => .ok (some v, none)
    | .str s => .ok (some (utf8 s), none)
    | .dict d =>
      .ok (some (utf8 (urlencode b (PyVal.dictItems d))),
        some "application/x-www-form-urlencoded".toList)
    | _ => .ok (none, none)
  | json => do
    let text ← b.jsonDumps json
    pure (some (utf8 text), some "application/json".toList)

def authTuple (b : Builtins) (auth : PyVal) : Except PyErr (Option (Text × Text)) :=
  if auth.truthy then do
    let user ← auth.getIndex 0
    let password ← auth.getIndex 1
    pure (some (b.str user, b.str password))
  else .ok none

def timeoutFloat (b : Builtins) : PyVal → Except PyErr (Option PyFloat)
  | .none => .ok none
  | v => (b.float v).map some

/-- `d or None` for a dict or a list. -/
def mapOrNone (m : OrderedMap Text Text) : Option (OrderedMap Text Text) :=
  if m.entries.isEmpty then none else some m

def listOrNone (ps : List (Text × Text)) : Option (List (Text × Text)) :=
  if ps.isEmpty then none else some ps

/-- The arguments that `_dispatch` computes before its `try`. -/
def prepare (b : Builtins) (method url : Text) (kw : Kwargs b.lower) : Except PyErr RustArgs := do
  let mergedHeaders ← normalizeHeaders b kw.headers
  let params ← normalizeParams b (orNone kw.params)
  let cookies ← normalizeCookies b (orNone kw.cookies)
  let proxy ← proxyUrl b (orNone kw.proxies) url
  let body ← prepareBody b (orNone kw.data) (orNone kw.json)
  let auth ← authTuple b (orNone kw.auth)
  let timeout ← timeoutFloat b (orNone kw.timeout)
  pure { method, url, headers := mapOrNone mergedHeaders, params := listOrNone params,
         body := body.1, contentType := body.2, auth, timeout,
         verify := kw.verify.getD (.bool true),
         allowRedirects := kw.allowRedirects.getD (.bool true),
         cookies := mapOrNone cookies, noProxyAll := allEmpty (orNone kw.proxies), proxy }

/-- The `except` clauses of `_dispatch`, in order. -/
def exceptChain (e : PyErr) : PyErr :=
  if e.isInstance .timeoutError then ⟨.timeout, e.msg⟩
  else if e.isInstance .builtinConnectionError || e.isInstance .osError then
    ⟨.connectionError, e.msg⟩
  else if e.isInstance .runtimeError then
    if "TooManyRedirects".toList.isPrefixOf e.msg then ⟨.tooManyRedirects, e.msg⟩
    else ⟨.requestException, e.msg⟩
  else if e.isInstance .exception then ⟨.requestException, e.msg⟩
  else e

/-- The call into Rust: through the session's client, or one-shot. -/
def callRust (p : Platform) (env : TlsEnv) (client : Option RustClient) (w : World)
    (a : RustArgs) : CallOutcome :=
  match client with
  | some c => c.request p env w a
  | none => httpRequest p env w a

/-- The end of a request: what the caller gets, and what it leaves behind. -/
structure Outcome (lower : Text → Text) where
  result : Except PyErr (Response lower)
  client : Option RustClient
  world : World

/-- What `_dispatch` makes of the end of the call into Rust. -/
def respond (b : Builtins) (p : Platform) : Except PyErr RawResponse →
    Except PyErr (Response b.lower)
  | .error e => .error (exceptChain e)
  | .ok raw => .ok (Response.init b.lower p raw)

def dispatch (b : Builtins) (p : Platform) (env : TlsEnv) (client : Option RustClient)
    (w : World) (method url : Text) (kw : Kwargs b.lower) : Outcome b.lower :=
  match prepare b method url kw with
  | .error e => ⟨.error e, client, w⟩
  | .ok args =>
    let out := callRust p env client w args
    ⟨respond b p out.result, out.client, out.world⟩

structure Session (lower : Text → Text) where
  headers : HeadersVal lower
  auth : PyVal
  cookies : PyVal
  proxies : PyVal
  verify : PyVal
  params : PyVal
  timeout : PyVal
  allowRedirects : PyVal
  client : Option RustClient

/-- The end of an assignment to `Session.verify`. -/
structure Assigned (lower : Text → Text) where
  raised : Option PyErr
  session : Session lower
  world : World

def defaultHeaders : List (Text × PyVal) :=
  [("User-Agent".toList, .str "pyureq/0.1.8".toList), ("Accept-Encoding".toList, .str "gzip".toList),
   ("Accept".toList, .str "*/*".toList), ("Connection".toList, .str "keep-alive".toList)]

namespace Session

/-- `Session.__init__`, with the client that its last line constructed. -/
def init (lower : Text → Text) (client : RustClient) : Session lower where
  headers := .cid (CaseInsensitiveDict.ofPairs defaultHeaders)
  auth := .none
  cookies := .dict []
  proxies := .dict []
  verify := .bool true
  params := .dict []
  timeout := .none
  allowRedirects := .bool true
  client := some client

/-- A new session in a new process. -/
def plain : Session Builtins.ascii.lower := init Builtins.ascii.lower RustClient.plain

/-- `v or {}`. -/
def orEmptyDict (v : PyVal) : PyVal := if v.truthy then v else .dict []

def mergeProxies (session request : PyVal) : Except PyErr PyVal := do
  let s ← session.unpackMapping
  let r ← (orEmptyDict request).unpackMapping
  let display := s ++ r
  pure (if display.isEmpty then .none else .dict display)

def merge (b : Builtins) (s : Session b.lower) (kw : Kwargs b.lower) :
    Except PyErr (Kwargs b.lower) := do
  let own ← normalizeHeaders b (some s.headers)
  let given ← normalizeHeaders b kw.headers
  let headers ← normalizeHeaders b (some (.val (.ofStrDict (own.union given))))
  let ownParams ← normalizeParams b s.params
  let givenParams ← normalizeParams b (orNone kw.params)
  let ownCookies ← normalizeCookies b s.cookies
  let givenCookies ← normalizeCookies b (orNone kw.cookies)
  let proxies ← mergeProxies s.proxies (orNone kw.proxies)
  pure { headers := some (.val (.ofStrDict headers))
         params := some (.ofStrPairs (ownParams ++ givenParams))
         cookies := some (.ofStrDict (ownCookies.union givenCookies))
         auth := some (kw.auth.getD s.auth)
         timeout := some (kw.timeout.getD s.timeout)
         verify := some (kw.verify.getD s.verify)
         allowRedirects := some (kw.allowRedirects.getD s.allowRedirects)
         data := some (orNone kw.data)
         json := some (orNone kw.json)
         proxies := some proxies }

def request (b : Builtins) (p : Platform) (env : TlsEnv) (s : Session b.lower) (w : World)
    (method url : Text) (kw : Kwargs b.lower) : Outcome b.lower :=
  match s.merge b kw with
  | .error e => ⟨.error e, s.client, w⟩
  | .ok merged => dispatch b p env s.client w (b.upper method) url merged

section Verbs
variable (b : Builtins) (p : Platform) (env : TlsEnv) (s : Session b.lower) (w : World)
  (url : Text) (kw : Kwargs b.lower)

def get : Outcome b.lower :=
  s.request b p env w "GET".toList url (kw.setDefaultRedirects true)

def post : Outcome b.lower :=
  s.request b p env w "POST".toList url { kw.passData with json := some (orNone kw.json) }

def put : Outcome b.lower := s.request b p env w "PUT".toList url kw.passData

def patch : Outcome b.lower := s.request b p env w "PATCH".toList url kw.passData

def delete : Outcome b.lower := s.request b p env w "DELETE".toList url kw

def head : Outcome b.lower :=
  s.request b p env w "HEAD".toList url (kw.setDefaultRedirects false)

def options : Outcome b.lower :=
  s.request b p env w "OPTIONS".toList url (kw.setDefaultRedirects true)

end Verbs

/-- The `verify` setter: `self._verify` first, then a new client from it. -/
def setVerify {lower : Text → Text} (env : TlsEnv) (s : Session lower) (w : World)
    (value : PyVal) : Assigned lower :=
  let s := { s with verify := value }
  match RustClient.new env (pyOption s.verify) none false w with
  | .error e => ⟨some e, s, w⟩
  | .ok (c, w) => ⟨none, { s with client := some c }, w⟩

def close {lower : Text → Text} (s : Session lower) : Session lower := { s with client := none }

end Session

/-- `pyureq.request`: no client. -/
def statelessRequest (b : Builtins) (p : Platform) (env : TlsEnv) (w : World)
    (method url : Text) (kw : Kwargs b.lower) : Outcome b.lower :=
  dispatch b p env none w (b.upper method) url kw

theorem strPairs_str (b : Builtins) (ps : List (Text × Text)) :
    strPairs b (ps.map fun p => (.str p.1, .str p.2)) = ps := by
  rw [strPairs, List.map_map]
  conv_rhs => rw [← List.map_id ps]
  apply List.map_congr_left
  intro p _
  simp [b.str_str]

/-- Normalising a `{str: str}` dict again changes nothing. -/
theorem normalizeHeaders_ofStrDict (b : Builtins) (m : OrderedMap Text Text) :
    normalizeHeaders b (some (.val (.ofStrDict m))) = .ok m := by
  have hback : (m.entries.map fun e => (PyVal.str e.1, PyVal.str e.2)).map
      (fun e => (b.str e.1, coerce b e.2)) = m.entries := by
    have h := strPairs_str b m.entries
    rw [strPairs, List.map_map] at h
    rw [List.map_map]
    exact h
  rw [normalizeHeaders, PyVal.ofStrDict, PyVal.toDict, PyVal.dictItems_ofStrDict]
  · simp only [bind, Except.bind, pure, Except.pure, hback, OrderedMap.ofList_entries]
  · simp [PyVal.ofStrDict]

theorem normalizeCookies_ofStrDict (b : Builtins) (m : OrderedMap Text Text) :
    normalizeCookies b (.ofStrDict m) = .ok m := by
  rw [PyVal.ofStrDict, normalizeCookies, PyVal.toDict, PyVal.dictItems_ofStrDict]
  · simp only [bind, Except.bind, pure, Except.pure, strPairs_str, OrderedMap.ofList_entries]
  · simp

theorem normalizeParams_ofStrPairs (b : Builtins) (ps : List (Text × Text)) :
    normalizeParams b (.ofStrPairs ps) = .ok ps := by
  have hpairs : PyVal.pairs (ps.map fun p => .tuple [.str p.1, .str p.2]) =
      .ok (ps.map fun p => (.str p.1, .str p.2)) := by
    induction ps with
    | nil => rfl
    | cons p ps ih =>
      rw [List.map_cons, PyVal.pairs, ih]
      rfl
  simp only [PyVal.ofStrPairs, normalizeParams, PyVal.iter, hpairs, bind, Except.bind, pure,
    Except.pure, strPairs_str]

theorem normalizeHeaders_cid (b : Builtins) (d : CaseInsensitiveDict b.lower PyVal) :
    ∃ own : OrderedMap Text Text, normalizeHeaders b (some (.cid d)) = .ok own ∧
      own.entries = d.items.map fun e => (e.1, coerce b e.2) := by
  refine ⟨_, rfl, OrderedMap.ofList_of_nodup ?_⟩
  rw [List.map_map]
  apply List.Nodup.of_map b.lower
  rw [List.map_map]
  exact d.iter_distinct

/-- What a successful merge makes of each setting. -/
structure MergeSpec (b : Builtins) (s : Session b.lower) (kw merged : Kwargs b.lower) : Prop where
  headers : ∃ own given, normalizeHeaders b (some s.headers) = .ok own ∧
    normalizeHeaders b kw.headers = .ok given ∧
    merged.headers = some (.val (.ofStrDict (own.union given)))
  params : ∃ own given, normalizeParams b s.params = .ok own ∧
    normalizeParams b (orNone kw.params) = .ok given ∧
    merged.params = some (.ofStrPairs (own ++ given))
  cookies : ∃ own given, normalizeCookies b s.cookies = .ok own ∧
    normalizeCookies b (orNone kw.cookies) = .ok given ∧
    merged.cookies = some (.ofStrDict (own.union given))
  proxies : ∃ v, Session.mergeProxies s.proxies (orNone kw.proxies) = .ok v ∧
    merged.proxies = some v
  auth : merged.auth = some (kw.auth.getD s.auth)
  timeout : merged.timeout = some (kw.timeout.getD s.timeout)
  verify : merged.verify = some (kw.verify.getD s.verify)
  allowRedirects : merged.allowRedirects = some (kw.allowRedirects.getD s.allowRedirects)
  data : merged.data = some (orNone kw.data)
  json : merged.json = some (orNone kw.json)

theorem merge_spec {b : Builtins} {s : Session b.lower} {kw merged : Kwargs b.lower}
    (h : s.merge b kw = .ok merged) : MergeSpec b s kw merged := by
  unfold Session.merge at h
  obtain ⟨own, hown, h⟩ := bind_eq_ok.mp h
  obtain ⟨given, hgiven, h⟩ := bind_eq_ok.mp h
  rw [normalizeHeaders_ofStrDict] at h
  obtain ⟨headers, hheaders, h⟩ := bind_eq_ok.mp h
  obtain ⟨ps, hps, h⟩ := bind_eq_ok.mp h
  obtain ⟨qs, hqs, h⟩ := bind_eq_ok.mp h
  obtain ⟨cs, hcs, h⟩ := bind_eq_ok.mp h
  obtain ⟨ds, hds, h⟩ := bind_eq_ok.mp h
  obtain ⟨proxies, hproxies, h⟩ := bind_eq_ok.mp h
  obtain rfl := Except.ok.inj hheaders
  obtain rfl := Except.ok.inj h
  exact ⟨⟨own, given, hown, hgiven, rfl⟩, ⟨ps, qs, hps, hqs, rfl⟩, ⟨cs, ds, hcs, hds, rfl⟩,
    ⟨proxies, hproxies, rfl⟩, rfl, rfl, rfl, rfl, rfl, rfl⟩

/-- What a successful preparation makes of each argument. -/
structure PrepareSpec (b : Builtins) (method url : Text) (kw : Kwargs b.lower)
    (args : RustArgs) : Prop where
  method_eq : args.method = method
  url_eq : args.url = url
  headers : ∃ m, normalizeHeaders b kw.headers = .ok m ∧ args.headers = mapOrNone m
  params : ∃ ps, normalizeParams b (orNone kw.params) = .ok ps ∧ args.params = listOrNone ps
  cookies : ∃ m, normalizeCookies b (orNone kw.cookies) = .ok m ∧ args.cookies = mapOrNone m
  proxy : proxyUrl b (orNone kw.proxies) url = .ok args.proxy
  noProxyAll : args.noProxyAll = allEmpty (orNone kw.proxies)
  body : prepareBody b (orNone kw.data) (orNone kw.json) = .ok (args.body, args.contentType)
  auth : authTuple b (orNone kw.auth) = .ok args.auth
  timeout : timeoutFloat b (orNone kw.timeout) = .ok args.timeout
  verify : args.verify = kw.verify.getD (.bool true)
  allowRedirects : args.allowRedirects = kw.allowRedirects.getD (.bool true)

theorem prepare_spec {b : Builtins} {method url : Text} {kw : Kwargs b.lower} {args : RustArgs}
    (h : prepare b method url kw = .ok args) : PrepareSpec b method url kw args := by
  unfold prepare at h
  obtain ⟨hs, hhs, h⟩ := bind_eq_ok.mp h
  obtain ⟨ps, hps, h⟩ := bind_eq_ok.mp h
  obtain ⟨cs, hcs, h⟩ := bind_eq_ok.mp h
  obtain ⟨proxy, hproxy, h⟩ := bind_eq_ok.mp h
  obtain ⟨body, hbody, h⟩ := bind_eq_ok.mp h
  obtain ⟨auth, hauth, h⟩ := bind_eq_ok.mp h
  obtain ⟨timeout, htimeout, h⟩ := bind_eq_ok.mp h
  obtain rfl := Except.ok.inj h
  exact ⟨rfl, rfl, ⟨hs, hhs, rfl⟩, ⟨ps, hps, rfl⟩, ⟨cs, hcs, rfl⟩, hproxy, rfl, hbody, hauth,
    htimeout, rfl, rfl⟩

theorem callerEntries_mapOrNone (m : OrderedMap Text Text) :
    callerEntries (mapOrNone m) = m.entries := by
  unfold mapOrNone
  split
  next h => exact (List.isEmpty_iff.mp h).symm
  next => rfl

end Pyureq
