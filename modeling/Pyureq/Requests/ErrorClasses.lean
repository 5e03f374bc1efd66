import Pyureq.Sessions

/-! From `ureq::Error` to the exception that the caller sees. The Rust side tags the kind
with an exception type and a message prefix; of the prefixes `_dispatch` reads one. -/
namespace Pyureq.ErrorClasses

/-- The classes that stand for one kind of failure each. -/
def taggedClasses : List ExcClass :=
  [.timeout, .connectionError, .tooManyRedirects, .sslError, .proxyError, .contentDecodingError]

/-- The class that `map_ureq_error` names, for the variants that have one. -/
def taggedClass : UreqErrorKind → Option ExcClass
  | .timeout => some .timeout
  | .hostNotFound | .connectionFailed | .io => some .connectionError
  | .tooManyRedirects => some .tooManyRedirects
  | .tls | .nativeTls | .pem | .der => some .sslError
  | .invalidProxyUrl | .connectProxyFailed => some .proxyError
  | .decompress => some .contentDecodingError
  | .badUri | .http | .requireHttpsOnly | .other _ => none

/-- The class that the caller sees is the tagged one; without a tag it is a
`RequestException` that is none of the tagged classes. -/
def KeepsTag (kind : UreqErrorKind) (cls : ExcClass) : Prop :=
  match taggedClass kind with
  | some c => cls = c
  | none => cls.isSubclass .requestException = true ∧
      ∀ c ∈ taggedClasses, cls.isSubclass c = false

/-- The variants whose tag is a message prefix that Python does not look for. -/
def prefixOnly : List UreqErrorKind :=
  [.tls, .nativeTls, .pem, .der, .invalidProxyUrl, .connectProxyFailed, .decompress]

/-- The variant's tag is not a bare prefix, and a variant without tag does not carry the one
prefix that is read. -/
def TagReadable (e : UreqError) : Prop :=
  e.kind ∉ prefixOnly ∧
    ∀ id, e.kind = .other id → "TooManyRedirects".toList.isPrefixOf e.msg = false

theorem exceptChain_runtimeError (msg : Text) : exceptChain ⟨.runtimeError, msg⟩ =
    if "TooManyRedirects".toList.isPrefixOf msg then ⟨.tooManyRedirects, msg⟩
    else ⟨.requestException, msg⟩ := rfl

theorem exceptChain_timeoutError (msg : Text) :
    exceptChain ⟨.timeoutError, msg⟩ = ⟨.timeout, msg⟩ := rfl

theorem exceptChain_connectionError (msg : Text) :
    exceptChain ⟨.builtinConnectionError, msg⟩ = ⟨.connectionError, msg⟩ := rfl

theorem exceptChain_valueError (msg : Text) :
    exceptChain ⟨.valueError, msg⟩ = ⟨.requestException, msg⟩ := rfl

theorem requestException_untagged : ExcClass.requestException.isSubclass .requestException = true ∧
    ∀ c ∈ taggedClasses, ExcClass.requestException.isSubclass c = false := by decide

/-- The two tables agree on an error exactly when its tag can be read back. -/
theorem keepsTag_iff (e : UreqError) :
    KeepsTag e.kind (exceptChain (mapUreqError e)).cls ↔ TagReadable e := by
  obtain ⟨kind, msg⟩ := e
  have hruntime : ∀ t : Text, "TooManyRedirects".toList.isPrefixOf t = false →
      exceptChain ⟨.runtimeError, t⟩ = ⟨.requestException, t⟩ := by
    intro t ht
    rw [exceptChain_runtimeError, ht]
    rfl
  have hprefix : ∀ s t : Text, "TooManyRedirects".toList.isPrefixOf (s ++ t) = false →
      kind ∈ prefixOnly → mapUreqError ⟨kind, msg⟩ = ⟨.runtimeError, s ++ t⟩ →
      taggedClass kind ≠ some .requestException → taggedClass kind ≠ none →
      (KeepsTag kind (exceptChain (mapUreqError ⟨kind, msg⟩)).cls ↔ TagReadable ⟨kind, msg⟩) := by
    intro s t hst hk hmap hne hsome
    refine iff_of_false ?_ (fun h => h.1 hk)
    rw [hmap, hruntime _ hst, KeepsTag]
    split
    next c hc =>
      rintro rfl
      exact hne hc
    next hc => exact absurd hc hsome
  cases kind with
  | timeout =>
    simp [mapUreqError, exceptChain_timeoutError, KeepsTag, taggedClass, TagReadable, prefixOnly]
  | hostNotFound | connectionFailed | io =>
    simp [mapUreqError, exceptChain_connectionError, KeepsTag, taggedClass, TagReadable, prefixOnly]
  | tooManyRedirects =>
    have hp : exceptChain ⟨.runtimeError, "TooManyRedirects: ".toList ++ msg⟩ =
        ⟨.tooManyRedirects, "TooManyRedirects: ".toList ++ msg⟩ := rfl
    simp only [mapUreqError, hp]
    simp [KeepsTag, taggedClass, TagReadable, prefixOnly]
  | tls | nativeTls | pem | der =>
    exact hprefix "SSLError: ".toList msg rfl (by decide) rfl (by decide) (by decide)
  | invalidProxyUrl | connectProxyFailed =>
    exact hprefix "ProxyError: ".toList msg rfl (by decide) rfl (by decide) (by decide)
  | decompress =>
    exact hprefix "ContentDecodingError: ".toList msg rfl (by decide) rfl (by decide) (by decide)
  | badUri | http | requireHttpsOnly =>
    simpa [mapUreqError, exceptChain_valueError, KeepsTag, taggedClass, TagReadable, prefixOnly]
      using requestException_untagged
  | other id =>
    cases h : "TooManyRedirects".toList.isPrefixOf msg with
    | true =>
      have hno : ∃ c ∈ taggedClasses, ExcClass.tooManyRedirects.isSubclass c = true := by decide
      obtain ⟨c, hc, hsub⟩ := hno
      refine iff_of_false ?_ ?_
      · rw [mapUreqError, exceptChain_runtimeError, if_pos h]
        intro hk
        simpa [hsub] using hk.2 c hc
      · intro ht
        have hf : "TooManyRedirects".toList.isPrefixOf msg = false := ht.2 id rfl
        rw [h] at hf
        contradiction
    | false =>
      rw [mapUreqError, hruntime msg h]
      exact iff_of_true requestException_untagged ⟨by simp [prefixOnly], fun _ _ => h⟩

section Paths
variable {b : Builtins} {p : Platform} {env : TlsEnv}

/-- The call through the client, or the one-shot call, runs `http_execute` on this agent
with these arguments. -/
def Runs (env : TlsEnv) (client : Option RustClient) (w : World) (args : RustArgs)
    (agent : Agent) (call : CallArgs) : Prop :=
  match client with
  | some c => ∃ given, extractArgs args = .ok given ∧ call = c.effective given ∧
      (c.selectAgent env (pyOption args.verify) w).result = .ok agent
  | none => extractArgs args = .ok call ∧
      ∃ w', oneShotAgent env (pyOption args.verify) w = .ok (agent, w')

/-- ureq fails with `e` while it sends the request or while the body is read. -/
def UreqFails (p : Platform) (agent : Agent) (call : CallArgs) (e : UreqError) : Prop :=
  p.checkRequest (request p call) = .ok () ∧ ∃ cfg, requestConfig p call = .ok cfg ∧
    (p.run agent cfg (request p call) = .failed e ∨
      ∃ resp, p.run agent cfg (request p call) = .answered resp ∧ resp.body = .error e)

theorem callRust_result {client : Option RustClient} {w : World} {args : RustArgs}
    {agent : Agent} {call : CallArgs} (h : Runs env client w args agent call) :
    (callRust p env client w args).result = httpExecute p agent call := by
  cases client with
  | none =>
    obtain ⟨hx, w', ho⟩ := h
    simp only [callRust, httpRequest, hx, ho]
  | some c =>
    obtain ⟨given, hx, rfl, hs⟩ := h
    simp only [callRust, RustClient.request, hx, hs, Except.bind]

theorem httpExecute_fails {agent : Agent} {call : CallArgs} {e : UreqError}
    (h : UreqFails p agent call e) : httpExecute p agent call = .error (mapUreqError e) := by
  obtain ⟨hcheck, cfg, hcfg, hrun⟩ := h
  unfold httpExecute
  rcases hrun with hrun | ⟨resp, hrun, hbody⟩
  · simp only [hcheck, hcfg, bind, Except.bind, hrun]
  · simp only [hcheck, hcfg, bind, Except.bind, hrun, rawResponse, hbody]

end Paths

/-- Through a session's client or without one, an error of ureq reaches the caller under its
tag exactly when the tag is more than a prefix that nobody reads. A timeout is never caught
as a `ConnectionError`. -/
theorem error_class_iff {b : Builtins} {p : Platform} {env : TlsEnv}
    {client : Option RustClient} {w : World} {method url : Text} {kw : Kwargs b.lower}
    {args : RustArgs} (hargs : prepare b method url kw = .ok args) {agent : Agent}
    {call : CallArgs} (hruns : Runs env client w args agent call) {e : UreqError}
    (hfail : UreqFails p agent call e) :
    ∃ x, (dispatch b p env client w method url kw).result = .error x ∧
      (KeepsTag e.kind x.cls ↔ TagReadable e) ∧
      (e.kind = .timeout → x.isInstance .connectionError = false) := by
  refine ⟨exceptChain (mapUreqError e), ?_, keepsTag_iff e, ?_⟩
  · rw [dispatch, hargs]
    simp only [callRust_result hruns, httpExecute_fails hfail, respond]
  · intro hk
    rw [mapUreqError, hk, exceptChain_timeoutError]
    rfl

/-- A machine on which every request fails with the given error. -/
def failing (e : UreqError) : Platform := { Platform.plain with run := fun _ _ _ => .failed e }

theorem error_class_iff_timeout :
    let e : UreqError := ⟨.timeout, "timeout: global".toList⟩
    ∃ x, (dispatch Builtins.ascii (failing e) .noFiles (some RustClient.plain) World.initial
      "GET".toList "http://h/".toList {}).result = .error x ∧
      (KeepsTag e.kind x.cls ↔ TagReadable e) ∧
      (e.kind = .timeout → x.isInstance .connectionError = false) := by
  intro e
  exact @error_class_iff Builtins.ascii (failing e) .noFiles (some RustClient.plain) World.initial
    "GET".toList "http://h/".toList {} _ rfl RustClient.plain.agent _ ⟨_, rfl, rfl, rfl⟩ e
    ⟨rfl, _, rfl, Or.inl rfl⟩

/-- A TLS failure reaches the caller as a bare `RequestException`, and so does a failed
connection to the proxy, with or without a session. -/
theorem error_class_lost :
    (∀ client ∈ [none, some RustClient.plain], ∃ x,
      (dispatch Builtins.ascii (failing ⟨.tls, "bad certificate".toList⟩) .noFiles client
        World.initial "GET".toList "https://h/".toList {}).result = .error x ∧
      x.cls = .requestException ∧ ¬KeepsTag .tls x.cls) ∧
    (∀ client ∈ [none, some RustClient.plain], ∃ x,
      (dispatch Builtins.ascii (failing ⟨.connectProxyFailed, "refused".toList⟩) .noFiles client
        World.initial "GET".toList "https://h/".toList {}).result = .error x ∧
      x.cls = .requestException ∧ ¬KeepsTag .connectProxyFailed x.cls) := by
  simp only [List.forall_mem_cons, List.not_mem_nil, false_implies, implies_true, and_true]
  have hlost : ∀ kind ∈ [UreqErrorKind.tls, .connectProxyFailed],
      ¬KeepsTag kind .requestException := by
    intro kind hkind hk
    simp only [List.mem_cons, List.not_mem_nil, or_false] at hkind
    rcases hkind with rfl | rfl <;> cases hk
  refine ⟨⟨⟨_, rfl, rfl, ?_⟩, ⟨_, rfl, rfl, ?_⟩⟩, ⟨_, rfl, rfl, ?_⟩, ⟨_, rfl, rfl, ?_⟩⟩ <;>
    apply hlost <;> simp

end Pyureq.ErrorClasses
