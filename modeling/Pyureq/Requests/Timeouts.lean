import Pyureq.Requests.ErrorClasses
import Pyureq.Requests.Sending

/-! What a timeout does to a request. The number travels from the session or the call through
`float` into `Duration::from_secs_f64`, which panics outside its range, and from there to ureq,
which adds it to the clock and panics where that overflows. A panic is no `Exception`. -/
namespace Pyureq.Timeouts
open PathAgreement Sending

/-- A response, or a `RequestException`. -/
def Handled {α : Type} (r : Except PyErr α) : Prop :=
  ∀ e, r = .error e → e.isInstance .requestException = true

def IsNumber : PyVal → Bool
  | .bool _ | .int _ | .float _ => true
  | _ => false

/-- The seconds that a `Duration` can hold. -/
def IsDuration (x : PyFloat) : Prop := ∃ q, x = .finite q ∧ 0 ≤ q ∧ q < 2 ^ 64

variable {b : Builtins} {p : Platform} {env : TlsEnv}

/-- A request without its timeout, and without the session's. -/
def noTimeout (kw : Kwargs b.lower) : Kwargs b.lower := { kw with timeout := some .none }

/-- The timeout is a duration, and ureq does not panic when it runs the call with it. -/
def Bears (p : Platform) (agent : Agent) (call : CallArgs) (x : PyFloat) : Prop :=
  IsDuration x ∧ ∀ cfg msg, requestConfig p { call with timeout := some x } = .ok cfg →
    p.run agent cfg (request p call) ≠ .panicked msg

/-- ureq only ever panics at timeouts of `bound` seconds or more. -/
def PanicsFrom (p : Platform) (bound : ℚ) : Prop :=
  ∀ agent cfg req msg, p.run agent cfg req = .panicked msg →
    ∃ q, cfg.timeoutGlobal = some q ∧ bound ≤ q

/-- What becomes of a request with the timeout `t`, from its other arguments as Rust gets them.
Where the call ends before the configuration is built, the timeout is never looked at. -/
def Survives (b : Builtins) (p : Platform) (env : TlsEnv) (client : Option RustClient)
    (w : World) (t : PyVal) : Except PyErr RustArgs → Prop
  | .error e => e.isInstance .requestException = true
  | .ok args => ∃ x, b.float t = .ok x ∧
      match reach p env client w args with
      | .error e => e.isInstance .exception = true
      | .ok r => Bears p r.1 r.2 x

section Errors

/-- The except chain turns every `Exception` into a `RequestException`, and nothing else. -/
theorem exceptChain_handled_iff (e : PyErr) :
    (exceptChain e).isInstance .requestException = true ↔ e.isInstance .exception = true := by
  obtain ⟨cls, msg⟩ := e
  cases cls with
  | runtimeError =>
    rw [ErrorClasses.exceptChain_runtimeError]
    split <;> exact iff_of_true rfl rfl
  | _ => exact Bool.eq_iff_iff.mp rfl

theorem handled_respond_iff (r : Except PyErr RawResponse) :
    Handled (respond b p r) ↔ ∀ e, r = .error e → e.isInstance .exception = true := by
  cases r with
  | error e => simpa [Handled, respond] using exceptChain_handled_iff e
  | ok raw => simp [Handled, respond]

theorem mapUreqError_exception (e : UreqError) :
    (mapUreqError e).isInstance .exception = true := by
  obtain ⟨kind, msg⟩ := e
  cases kind <;> rfl

/-- Of the ends of a run only a panic is no `Exception`. -/
theorem receive_exception_iff (r : RunEnd) :
    (∀ e, receive p r = .error e → e.isInstance .exception = true) ↔
      ∀ msg, r ≠ .panicked msg := by
  cases r with
  | panicked msg =>
    refine iff_of_false ?_ fun h => h msg rfl
    intro h
    have hno : PyErr.isInstance ⟨.panicException, msg⟩ .exception = false := rfl
    rw [h _ rfl] at hno
    contradiction
  | failed u =>
    refine iff_of_true ?_ fun _ h => nomatch h
    intro e h
    obtain rfl := Except.error.inj h
    exact mapUreqError_exception u
  | answered resp =>
    refine iff_of_true ?_ fun _ h => nomatch h
    intro e h
    rw [receive, rawResponse] at h
    split at h
    next u hu =>
      obtain rfl := Except.error.inj h
      exact mapUreqError_exception u
    next => cases h

theorem proxySetting_exception {proxy : Option Text} {noProxyAll : Bool} {e : PyErr}
    (h : proxySetting p proxy noProxyAll = .error e) : e.isInstance .exception = true := by
  unfold proxySetting at h
  split at h
  · split at h
    · obtain rfl := Except.error.inj h
      rfl
    · cases h
  · cases h

theorem durationFromSecs_ok {x : PyFloat} (h : IsDuration x) :
    ∃ q, durationFromSecs x = .ok q := by
  obtain ⟨q, rfl, hq, hlt⟩ := h
  exact ⟨q, by rw [durationFromSecs, if_neg (not_lt.mpr hq), if_neg (not_le.mpr hlt)]⟩

theorem durationFromSecs_panics {x : PyFloat} (h : ¬IsDuration x) :
    ∃ e, durationFromSecs x = .error e ∧ e.isInstance .exception = false := by
  cases x with
  | finite q =>
    rw [durationFromSecs]
    split
    · exact ⟨_, rfl, rfl⟩
    next hq =>
      split
      · exact ⟨_, rfl, rfl⟩
      next hlt => exact absurd ⟨q, rfl, not_lt.mp hq, not_le.mp hlt⟩ h
  | inf negative => cases negative <;> exact ⟨_, rfl, rfl⟩
  | nan => exact ⟨_, rfl, rfl⟩

/-- Only for a duration there is a configuration. -/
theorem requestConfig_duration {call : CallArgs} {x : PyFloat} {cfg : RequestConfig}
    (h : requestConfig p { call with timeout := some x } = .ok cfg) : IsDuration x := by
  by_contra hx
  obtain ⟨e, he, -⟩ := durationFromSecs_panics hx
  obtain ⟨timeout, htimeout, -⟩ := bind_eq_ok.mp h
  rw [globalTimeout, he] at htimeout
  cases htimeout

/-- A duration leaves only the proxy to fail, and that with an `Exception`. -/
theorem requestConfig_exception_iff {call : CallArgs} {x : PyFloat} {e : PyErr}
    (h : requestConfig p { call with timeout := some x } = .error e) :
    e.isInstance .exception = true ↔ IsDuration x := by
  by_cases hx : IsDuration x
  · refine iff_of_true ?_ hx
    obtain ⟨q, hq⟩ := durationFromSecs_ok hx
    simp only [requestConfig, globalTimeout, hq, Except.map, bind, Except.bind] at h
    cases hproxy : proxySetting p call.proxy call.noProxyAll with
    | error u =>
      rw [hproxy] at h
      obtain rfl := Except.error.inj h
      exact proxySetting_exception hproxy
    | ok proxy =>
      rw [hproxy] at h
      cases h
  · refine iff_of_false ?_ hx
    obtain ⟨u, hu, hno⟩ := durationFromSecs_panics hx
    simp only [requestConfig, globalTimeout, hu, Except.map, bind, Except.bind] at h
    obtain rfl := Except.error.inj h
    simp [hno]

/-- Durations below the bound from which ureq panics are borne. -/
theorem bears_of_lt {bound : ℚ} (h : PanicsFrom p bound) {q : ℚ} (hq : 0 ≤ q) (hmax : q < 2 ^ 64)
    (hbound : q < bound) (agent : Agent) (call : CallArgs) : Bears p agent call (.finite q) := by
  refine ⟨⟨q, rfl, hq, hmax⟩, ?_⟩
  intro cfg msg hcfg hrun
  obtain ⟨t, ht, hle⟩ := h _ _ _ _ hrun
  obtain ⟨timeout, htimeout, hcfg⟩ := bind_eq_ok.mp hcfg
  obtain ⟨proxy, -, hcfg⟩ := bind_eq_ok.mp hcfg
  obtain rfl := Except.ok.inj hcfg
  rw [globalTimeout, durationFromSecs, if_neg (not_lt.mpr hq), if_neg (not_le.mpr hmax)] at htimeout
  obtain rfl := Except.ok.inj htimeout
  obtain rfl := Option.some.inj ht
  exact absurd hle (not_le.mpr hbound)

end Errors

section Calls

/-- The timeout plays no part before the configuration. -/
theorem reach_timeout (client : Option RustClient) (w : World) (args : RustArgs) (x : PyFloat) :
    reach p env client w { args with timeout := some x } =
      (reach p env client w args).map fun r => (r.1, { r.2 with timeout := some x }) := by
  have hextract : extractArgs { args with timeout := some x } =
      (extractArgs args).map fun given => { given with timeout := some x } := by
    unfold extractArgs
    cases extractBool "allow_redirects" args.allowRedirects with
    | error e => rfl
    | ok redirects => cases extractText "proxy" args.proxy <;> rfl
  have hexecute : ∀ given : CallArgs, executeArgs client { given with timeout := some x } =
      { executeArgs client given with timeout := some x } := by
    intro given
    cases client <;> rfl
  unfold reach
  rw [hextract]
  cases extractArgs args with
  | error e => rfl
  | ok given =>
    simp only [Except.map, bind, Except.bind, hexecute]
    cases pickAgent env client w args.verify with
    | error e => rfl
    | ok agent =>
      have hreq : request p { executeArgs client given with timeout := some x } =
          request p (executeArgs client given) := rfl
      simp only [hreq]
      cases p.checkRequest (request p (executeArgs client given)) <;> rfl

/-- A call with a timeout is handled if it ends in an `Exception` before the configuration, or
the timeout is borne. -/
theorem call_handled_iff (client : Option RustClient) (w : World) (args : RustArgs)
    (x : PyFloat) :
    Handled (respond b p (callRust p env client w { args with timeout := some x }).result) ↔
      match reach p env client w args with
      | .error e => e.isInstance .exception = true
      | .ok r => Bears p r.1 r.2 x := by
  rw [handled_respond_iff, callRust_eq, handover, reach_timeout]
  cases reach p env client w args with
  | error e => simp [Except.map, bind, Except.bind]
  | ok r =>
    have hreq : request p { r.2 with timeout := some x } = request p r.2 := rfl
    simp only [Except.map, bind, Except.bind, hreq]
    cases hcfg : requestConfig p { r.2 with timeout := some x } with
    | error e =>
      simp only [Except.error.injEq, forall_eq']
      simp [Bears, hcfg, requestConfig_exception_iff hcfg]
    | ok cfg =>
      refine (receive_exception_iff _).trans ?_
      constructor
      · intro h
        refine ⟨requestConfig_duration hcfg, ?_⟩
        intro cfg' msg hcfg'
        obtain rfl := Except.ok.inj (hcfg.symm.trans hcfg')
        exact h msg
      · exact fun h msg => h.2 cfg msg hcfg

end Calls

section Arguments
variable {method url : Text}

/-- The timeout is the last argument to be converted. -/
theorem prepare_timeout (kw : Kwargs b.lower) : prepare b method url kw = (do
    let args ← prepare b method url (noTimeout kw)
    let timeout ← timeoutFloat b (orNone kw.timeout)
    pure { args with timeout }) := by
  have hnone : timeoutFloat b (orNone (some .none)) = pure none := rfl
  simp only [prepare, noTimeout, bind_assoc, pure_bind, hnone]

theorem merge_timeout (s : Session b.lower) (kw : Kwargs b.lower) : s.merge b kw = (do
    let merged ← s.merge b (noTimeout kw)
    pure { merged with timeout := some (kw.timeout.getD s.timeout) }) := by
  simp only [Session.merge, noTimeout, bind_assoc, pure_bind]

theorem sessionArgs_timeout (s : Session b.lower) (kw : Kwargs b.lower) :
    sessionArgs b s method url kw = (do
      let args ← sessionArgs b s method url (noTimeout kw)
      let timeout ← timeoutFloat b (kw.timeout.getD s.timeout)
      pure { args with timeout }) := by
  unfold sessionArgs
  rw [merge_timeout]
  cases h : s.merge b (noTimeout kw) with
  | error e => rfl
  | ok merged =>
    -- what the merge makes of an absent timeout is absent again
    have hback : noTimeout { merged with timeout := some (kw.timeout.getD s.timeout) } = merged := by
      have htimeout : merged.timeout = some .none := (merge_spec h).timeout
      rw [noTimeout, ← htimeout]
    have hprepare := @prepare_timeout b (b.upper method) url
      { merged with timeout := some (kw.timeout.getD s.timeout) }
    rw [hback] at hprepare
    exact hprepare

/-- A request whose arguments are those of `others` and the timeout. -/
theorem survives_iff (client : Option RustClient) (w : World) {t : PyVal}
    (ht : IsNumber t = true) (hfloat : ∀ e, b.float t = .error e → e.cls = .overflowError)
    (others : Except PyErr RustArgs) :
    Handled ((do
      let args ← others
      let timeout ← timeoutFloat b t
      pure { args with timeout }).bind fun args : RustArgs =>
        respond b p (callRust p env client w args).result) ↔
      Survives b p env client w t others := by
  cases others with
  | error e => simp [Handled, Survives, bind, Except.bind]
  | ok args =>
    have hconvert : timeoutFloat b t = (b.float t).map some := by
      cases t with
      | none => cases ht
      | _ => rfl
    rw [Survives, hconvert]
    cases hx : b.float t with
    | error e =>
      have hno : e.isInstance .requestException = false := by
        rw [PyErr.isInstance, hfloat e hx]
        decide
      simp [Handled, bind, Except.bind, Except.map, hno]
    | ok x =>
      have hcall := @call_handled_iff b p env client w args x
      simpa [bind, Except.bind, Except.map, pure, Except.pure] using hcall

end Arguments

/-- A request with a timeout returns or raises a `RequestException` exactly when the timeout is
a duration that ureq bears, as long as the other arguments get as far as the configuration. If
ureq panics from some bound on only, it bears all shorter durations. -/
theorem timeout_handled_iff {b : Builtins} {p : Platform} {env : TlsEnv} {w : World}
    {method url : Text} {t : PyVal} (ht : IsNumber t = true)
    (hfloat : ∀ e, b.float t = .error e → e.cls = .overflowError) :
    (∀ (s : Session b.lower) (kw : Kwargs b.lower), kw.timeout.getD s.timeout = t →
      (Handled (s.request b p env w method url kw).result ↔
        Survives b p env s.client w t (sessionArgs b s method url (noTimeout kw)))) ∧
    (∀ kw : Kwargs b.lower, orNone kw.timeout = t →
      (Handled (statelessRequest b p env w method url kw).result ↔
        Survives b p env none w t (statelessArgs b method url (noTimeout kw)))) ∧
    ∀ bound, PanicsFrom p bound → ∀ q, 0 ≤ q → q < 2 ^ 64 → q < bound →
      ∀ agent call, Bears p agent call (.finite q) := by
  refine ⟨?_, ?_, fun bound hbound q => bears_of_lt hbound⟩
  · rintro s kw rfl
    rw [request_result, sessionArgs_timeout]
    exact survives_iff s.client w ht hfloat _
  · rintro kw rfl
    rw [statelessRequest_result, statelessArgs, prepare_timeout]
    exact survives_iff none w ht hfloat _

theorem plain_panicsFrom : PanicsFrom Platform.plain (2 ^ 63) := by
  intro agent cfg req msg h
  simp only [Platform.plain] at h
  split at h
  next hany => simpa [Option.any_eq_true] using hany
  next => cases h

theorem timeout_handled_iff_five :
    Handled (Session.plain.request Builtins.ascii Platform.plain .noFiles World.initial "get".toList
      "http://h/".toList { timeout := some (.int 5) }).result ∧
    Handled (statelessRequest Builtins.ascii Platform.plain .noFiles World.initial "get".toList
      "http://h/".toList { timeout := some (.int 5) }).result := by
  have h := @timeout_handled_iff Builtins.ascii Platform.plain .noFiles World.initial "get".toList
    "http://h/".toList (.int 5) rfl (by intro e he; cases he)
  obtain ⟨hsession, hstateless, hshort⟩ := h
  have hbears := hshort _ plain_panicsFrom 5 (by norm_num) (by norm_num) (by norm_num)
  exact ⟨(hsession Session.plain _ rfl).mpr ⟨.finite 5, rfl, hbears _ _⟩,
    (hstateless _ rfl).mpr ⟨.finite 5, rfl, hbears _ _⟩⟩

/-- Numbers that are no durations come back as a panic, whether the call, the session or a
stateless function carries them, and so does a duration that is too long for the clock. -/
theorem timeout_panics :
    (∃ e, (Session.plain.request Builtins.ascii Platform.plain .noFiles World.initial "get".toList
      "http://h/".toList { timeout := some (.int (-1)) }).result = .error e ∧
      e.cls = .panicException ∧ e.isInstance .requestException = false) ∧
    (∃ e, (Session.request Builtins.ascii Platform.plain .noFiles
      { Session.plain with timeout := .float (.inf false) } World.initial "get".toList
      "http://h/".toList {}).result = .error e ∧
      e.cls = .panicException ∧ e.isInstance .requestException = false) ∧
    (∃ e, (statelessRequest Builtins.ascii Platform.plain .noFiles World.initial "get".toList
      "http://h/".toList { timeout := some (.float .nan) }).result = .error e ∧
      e.cls = .panicException ∧ e.isInstance .requestException = false) ∧
    ∃ e, (statelessRequest Builtins.ascii Platform.plain .noFiles World.initial "get".toList
      "http://h/".toList { timeout := some (.int (2 ^ 63)) }).result = .error e ∧
      e.cls = .panicException ∧ e.isInstance .requestException = false :=
  ⟨⟨_, rfl, rfl, rfl⟩, ⟨_, rfl, rfl, rfl⟩, ⟨_, rfl, rfl, rfl⟩, _, rfl, rfl, rfl⟩

end Pyureq.Timeouts
