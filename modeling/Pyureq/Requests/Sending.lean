import Pyureq.Requests.PathAgreement

/-! A call into Rust in two halves: what is computed before `agent.run`, and what is made of
the end of `agent.run`. -/
namespace Pyureq.Sending
open PathAgreement

/-- The agent of a call: the client's choice, or one built for the call. -/
def pickAgent (env : TlsEnv) (client : Option RustClient) (w : World) (verify : PyVal) :
    Except PyErr Agent :=
  match client with
  | some c => (c.selectAgent env (pyOption verify) w).result
  | none => (oneShotAgent env (pyOption verify) w).map Prod.fst

/-- The arguments that `http_execute` gets. -/
def executeArgs (client : Option RustClient) (given : CallArgs) : CallArgs :=
  match client with
  | some c => c.effective given
  | none => given

/-- A call up to the point where its configuration is built. -/
def reach (p : Platform) (env : TlsEnv) (client : Option RustClient) (w : World)
    (args : RustArgs) : Except PyErr (Agent × CallArgs) := do
  let given ← extractArgs args
  let agent ← pickAgent env client w args.verify
  match p.checkRequest (request p (executeArgs client given)) with
  | .error e => .error ⟨.valueError, e⟩
  | .ok () => .ok (agent, executeArgs client given)

/-- What `agent.run` is called with. -/
structure Handover where
  agent : Agent
  cfg : RequestConfig
  req : Request

def handover (p : Platform) (env : TlsEnv) (client : Option RustClient) (w : World)
    (args : RustArgs) : Except PyErr Handover := do
  let r ← reach p env client w args
  let cfg ← requestConfig p r.2
  pure ⟨r.1, cfg, request p r.2⟩

/-- What `http_execute` makes of the end of `agent.run`. -/
def receive (p : Platform) : RunEnd → Except PyErr RawResponse
  | .panicked msg => .error ⟨.panicException, msg⟩
  | .failed e => .error (mapUreqError e)
  | .answered resp => rawResponse p resp

/-- The arguments that a request passes to Rust, through a session or without one. -/
def pathArgs (b : Builtins) (s : Option (Session b.lower)) (method url : Text)
    (kw : Kwargs b.lower) : Except PyErr RustArgs :=
  match s with
  | some s => sessionArgs b s method url kw
  | none => statelessArgs b method url kw

/-- What a request comes to before `agent.run`. -/
def handed (b : Builtins) (p : Platform) (env : TlsEnv) (s : Option (Session b.lower)) (w : World)
    (method url : Text) (kw : Kwargs b.lower) : Except PyErr Handover :=
  (pathArgs b s method url kw).bind (handover p env (s.bind Session.client) w)

variable {b : Builtins} {p : Platform} {env : TlsEnv}

theorem httpExecute_eq (agent : Agent) (call : CallArgs) : httpExecute p agent call =
    match p.checkRequest (request p call) with
    | .error e => .error ⟨.valueError, e⟩
    | .ok () => (requestConfig p call).bind fun cfg =>
        receive p (p.run agent cfg (request p call)) := by
  unfold httpExecute
  dsimp only
  cases p.checkRequest (request p call) with
  | error e => rfl
  | ok u =>
    simp only [bind]
    congr 1

/-- The two halves make up the call. -/
theorem callRust_eq (client : Option RustClient) (w : World) (args : RustArgs) :
    (callRust p env client w args).result =
      (handover p env client w args).bind fun h => receive p (p.run h.agent h.cfg h.req) := by
  have hrest : ∀ agent call, httpExecute p agent call =
      ((match p.checkRequest (request p call) with
        | .error e => .error ⟨.valueError, e⟩
        | .ok () => .ok (agent, call) : Except PyErr (Agent × CallArgs)).bind fun r =>
          (requestConfig p r.2).bind fun cfg => .ok (⟨r.1, cfg, request p r.2⟩ : Handover)).bind
        fun h => receive p (p.run h.agent h.cfg h.req) := by
    intro agent call
    rw [httpExecute_eq]
    cases p.checkRequest (request p call) with
    | error e => rfl
    | ok u => cases h : requestConfig p call <;> simp [Except.bind, h]
  unfold handover reach
  cases client with
  | none =>
    simp only [callRust, httpRequest, pickAgent, executeArgs, bind]
    cases extractArgs args with
    | error e => rfl
    | ok given =>
      cases oneShotAgent env (pyOption args.verify) w with
      | error e => rfl
      | ok r =>
        simp only [Except.bind, Except.map]
        exact hrest r.1 given
  | some c =>
    simp only [callRust, RustClient.request, pickAgent, executeArgs, bind]
    cases extractArgs args with
    | error e => rfl
    | ok given =>
      cases (c.selectAgent env (pyOption args.verify) w).result with
      | error e => rfl
      | ok agent =>
        simp only [Except.bind]
        exact hrest agent (c.effective given)

/-- What ureq is given is made from the arguments alone: the client adds nothing to it. -/
theorem handover_request {client : Option RustClient} {w : World} {args : RustArgs}
    {h : Handover} (hh : handover p env client w args = .ok h) :
    h.req = { method := p.toUppercase args.method
              uri := percentEncodeUri (urlWithParams args.url args.params)
              headers := requestHeaders p args.headers args.cookies args.auth args.contentType
              body := args.body.getD [] } := by
  obtain ⟨r, hr, hh⟩ := bind_eq_ok.mp hh
  obtain ⟨cfg, -, hh⟩ := bind_eq_ok.mp hh
  obtain rfl := Except.ok.inj hh
  obtain ⟨given, hgiven, hr⟩ := bind_eq_ok.mp hr
  obtain ⟨agent, -, hr⟩ := bind_eq_ok.mp hr
  obtain ⟨redirects, -, hgiven⟩ := bind_eq_ok.mp hgiven
  obtain ⟨proxy, -, hgiven⟩ := bind_eq_ok.mp hgiven
  obtain rfl := Except.ok.inj hgiven
  split at hr
  · cases hr
  · obtain rfl := Except.ok.inj hr
    cases client <;> rfl

theorem handover_headers {client : Option RustClient} {w : World} {args : RustArgs}
    {h : Handover} (hh : handover p env client w args = .ok h) :
    h.req.headers =
      requestHeaders p args.headers args.cookies args.auth args.contentType :=
  congrArg Request.headers (handover_request hh)

theorem handover_uri {client : Option RustClient} {w : World} {args : RustArgs}
    {h : Handover} (hh : handover p env client w args = .ok h) :
    h.req.uri = percentEncodeUri (urlWithParams args.url args.params) :=
  congrArg Request.uri (handover_request hh)

theorem handover_body {client : Option RustClient} {w : World} {args : RustArgs}
    {h : Handover} (hh : handover p env client w args = .ok h) :
    h.req.body = args.body.getD [] :=
  congrArg Request.body (handover_request hh)

end Pyureq.Sending
