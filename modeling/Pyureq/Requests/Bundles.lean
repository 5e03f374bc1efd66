import Pyureq.Requests.ErrorClasses
import Pyureq.Sessions.KeepAlive
import Pyureq.Threads.TrustAnchors

/-! A CA bundle given for a request, through a session or without one. -/
namespace Pyureq.Bundles
open PathAgreement Sending TrustAnchors
open KeepAlive (pick send verifyOf)

variable {b : Builtins} {p : Platform} {env : TlsEnv}

/-- The client, if there is one, has no agent for the mode yet, and its lock works. -/
def Unbuilt (m : VerifyMode) (client : Option RustClient) : Prop :=
  ∀ c, client = some c → c.table m = none ∧ c.overrides.poisoned = false

/-- Then an agent is built. -/
theorem pick_unbuilt {v : PyVal} {m : VerifyMode} (hv : VerifyMode.fromPyAny v = .ok m)
    (hnone : v ≠ .none) {client : Option RustClient} (h : Unbuilt m client) (w : World) :
    (pick env client w v).agent = (buildAgent env m w).map Prod.fst := by
  have hsome : pyOption v = some v := by
    cases v <;> first | exact absurd rfl hnone | rfl
  cases client with
  | none =>
    have hone : oneShotAgent env (some v) w = buildAgent env m w := by
      simp only [oneShotAgent, VerifyMode.orSystem, hv, bind, Except.bind]
    simp only [pick, hsome, hone]
    cases buildAgent env m w <;> rfl
  | some c =>
    obtain ⟨htable, hlock⟩ := h c rfl
    have hown : m ≠ c.verify := by
      rintro rfl
      simp [RustClient.table] at htable
    have hget : c.overrides.data.get? m = none := by
      rwa [RustClient.table, if_neg hown] at htable
    have hmode : c.effectiveMode (some v) = .ok m := hv
    simp only [pick, hsome, RustClient.selectAgent_override hmode hown hlock, hget]
    cases buildAgent env m w <;> rfl

theorem buildAgent_error {m : VerifyMode} {e : PyErr} (h : buildTlsConfig env m = .error e)
    (w : World) : buildAgent env m w = .error e := by
  unfold buildAgent
  split
  next e' he => rw [← Except.error.inj (h.symm.trans he)]
  next tls ht => cases h.symm.trans ht

theorem send_result (s : Option (Session b.lower)) (w : World) (method url : Text)
    (kw : Kwargs b.lower) : (send b p env s w method url kw).result =
      (pathArgs b s method url kw).bind fun args =>
        respond b p (callRust p env (s.bind Session.client) w args).result := by
  cases s with
  | none => exact statelessRequest_result ..
  | some s => exact request_result ..

/-- A request whose `verify`, its own or its session's, is a CA bundle for which there is no agent
yet, is sent with exactly the bundle's certificates trusted. If the bundle cannot be read, is
malformed or has none, nothing is sent, and the caller gets a `RequestException` that names it. -/
theorem bundle_decides {b : Builtins} {p : Platform} {env : TlsEnv}
    {s : Option (Session b.lower)} {w : World} {method url path : Text} {kw : Kwargs b.lower}
    {args : RustArgs} {given : CallArgs} (hverify : verifyOf s kw = .str path)
    (hunbuilt : Unbuilt (.caBundle path) (s.bind Session.client))
    (hargs : pathArgs b s method url kw = .ok args) (hgiven : extractArgs args = .ok given) :
    (∀ h, handed b p env s w method url kw = .ok h →
      ∃ certs, Accepted env path certs ∧
        h.agent.config.tlsConfig = { rootCerts := .specific certs }) ∧
    ((∀ certs, ¬Accepted env path certs) →
      (∀ h, handed b p env s w method url kw ≠ .ok h) ∧
      ∃ e, (send b p env s w method url kw).result = .error e ∧ e.cls = .requestException ∧
        path <:+: e.msg) := by
  have hpath : args.verify = .str path := (KeepAlive.pathArgs_verify hargs).trans hverify
  have hpick : (pick env (s.bind Session.client) w args.verify).agent =
      (buildAgent env (.caBundle path) w).map Prod.fst := by
    rw [hpath]
    exact pick_unbuilt rfl (by simp) hunbuilt w
  have hsent : ∀ h, handed b p env s w method url kw = .ok h →
      ∃ certs, Accepted env path certs ∧
        h.agent.config.tlsConfig = { rootCerts := .specific certs } := by
    intro h hh
    obtain ⟨args', hargs', hh⟩ := bind_eq_ok.mp hh
    obtain rfl := Except.ok.inj (hargs.symm.trans hargs')
    obtain ⟨-, -, hagent⟩ := KeepAlive.handover_agent hh
    rw [hpick] at hagent
    obtain ⟨⟨a, w'⟩, hbuild, rfl⟩ := map_eq_ok.mp hagent
    exact ((bundle_accepted_iff env path).1 _).mp (buildAgent_ok hbuild).2.1
  refine ⟨hsent, ?_⟩
  intro hnot
  refine ⟨fun h hh => (hsent h hh).elim fun certs hcerts => hnot certs hcerts.1, ?_⟩
  obtain ⟨e, herror, hcls, hmsg⟩ : ∃ e, buildTlsConfig env (.caBundle path) = .error e ∧
      Rejects path e := by
    cases htls : buildTlsConfig env (.caBundle path) with
    | ok tls =>
      obtain ⟨certs, hcerts, -⟩ := ((bundle_accepted_iff env path).1 tls).mp htls
      exact absurd hcerts (hnot certs)
    | error e => exact ⟨e, rfl, (bundle_accepted_iff env path).2 e htls⟩
  have hfails : handover p env (s.bind Session.client) w args = .error e := by
    rw [buildAgent_error herror] at hpick
    simp only [handover, reach, hgiven, KeepAlive.pickAgent_eq, hpick, bind, Except.bind,
      Except.map]
  obtain ⟨cls, msg⟩ := e
  obtain rfl : cls = .valueError := hcls
  refine ⟨exceptChain ⟨.valueError, msg⟩, ?_, ?_, ?_⟩
  · rw [send_result, hargs, Except.bind, callRust_eq, hfails]
    rfl
  · rw [ErrorClasses.exceptChain_valueError]
  · rw [ErrorClasses.exceptChain_valueError]
    exact hmsg

/-- A session to whose `verify` a bundle has been assigned that does not exist: its client is the
old one, but requests do not fall back to it. -/
def misled : Session Builtins.ascii.lower :=
  (Session.plain.setVerify .noFiles World.initial (.str "/ca.pem".toList)).session

theorem bundle_decides_misled : ∃ e,
    (send Builtins.ascii Platform.plain .noFiles (some misled) World.initial "get".toList
      "https://h/".toList {}).result = .error e ∧
    e.cls = .requestException ∧ "/ca.pem".toList <:+: e.msg := by
  have hunbuilt : Unbuilt (.caBundle "/ca.pem".toList) misled.client := by
    rintro c ⟨⟩
    exact ⟨rfl, rfl⟩
  have hnot : ∀ certs, ¬Accepted .noFiles "/ca.pem".toList certs := by
    rintro certs ⟨⟨items, hitems, -⟩, -⟩
    cases hitems
  exact ((bundle_decides (s := some misled) rfl hunbuilt rfl rfl).2 hnot).2

end Pyureq.Bundles
