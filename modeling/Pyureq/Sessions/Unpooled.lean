import Pyureq.Sessions.NoTrace

/-! Requests of a session against stateless ones with the merged settings. Keeping agents is an
optimisation: only a `verify` of `None` can tell the two apart, since a session takes it for the
mode of its client. -/
namespace Pyureq.Unpooled
open Runs Lifetime Sending PathAgreement NoTrace
open KeepAlive (pick callMode verifyOf)

variable {b : Builtins} {p : Platform} {env : TlsEnv}

/-- `pyureq.request` with what `_merge` returns. -/
def unpooled (b : Builtins) (p : Platform) (env : TlsEnv) (s : Session b.lower) (w : World)
    (method url : Text) (kw : Kwargs b.lower) : Except PyErr Handover :=
  (s.merge b kw).bind fun merged => handed b p env none w method url merged

/-- The request leaves the mode to a client that was not made for the system's roots. -/
def LeftToClient (s : Session b.lower) (kw : Kwargs b.lower) : Prop :=
  verifyOf (some s) kw = .none ∧ ∃ c, s.client = some c ∧ c.verify ≠ .system

section Calls

theorem unpooled_eq (s : Session b.lower) (w : World) (method url : Text) (kw : Kwargs b.lower) :
    unpooled b p env s w method url kw =
      (sessionArgs b s method url kw).bind (handover p env none w) := by
  unfold unpooled sessionArgs
  cases s.merge b kw <;> rfl

theorem callMode_unpooled_iff (client : Option RustClient) (v : PyVal) :
    callMode client v = callMode none v ↔
      ¬(v = .none ∧ ∃ c, client = some c ∧ c.verify ≠ .system) := by
  cases client with
  | none => simp
  | some c =>
    cases v with
    | none =>
      have hmode : callMode (some c) .none = callMode none .none ↔ c.verify = .system :=
        ⟨Except.ok.inj, congrArg Except.ok⟩
      simp [hmode]
    | _ => exact iff_of_true rfl fun h => nomatch h.1

theorem pick_none_config (env : TlsEnv) (w : World) (v : PyVal) :
    (pick env none w v).agent.map Agent.config = (callMode none v).bind (agentConfig env) := by
  apply pick_config <;> simp

/-- Only the system's mode makes the platform verify. -/
theorem agentConfig_platform {m : VerifyMode} {config : AgentConfig}
    (hsystem : agentConfig env .system = .ok config) (h : agentConfig env m = .ok config) :
    m = .system := by
  have htls : ∀ n, agentConfig env n = .ok config →
      buildTlsConfig env n = .ok config.tlsConfig := by
    intro n hn
    obtain ⟨⟨a, w⟩, hbuild, rfl⟩ := map_eq_ok.mp hn
    exact (buildAgent_ok hbuild).2.1
  have hroots : config.tlsConfig = { rootCerts := .platformVerifier } :=
    (Except.ok.inj (htls _ hsystem)).symm
  have hm := htls m h
  rw [hroots] at hm
  cases m with
  | system => rfl
  | none => cases hm
  | caBundle path =>
    simp only [buildTlsConfig] at hm
    split at hm
    · cases hm
    · split at hm <;> cases hm

end Calls

section Steps

theorem executeArgs_unset {s : State b.lower} (h : Unset s) (given : CallArgs) :
    executeArgs s.session.client given = executeArgs none given := by
  cases hc : s.session.client with
  | none => rfl
  | some c =>
    obtain ⟨htimeout, hproxy⟩ := h c hc
    rw [executeArgs, executeArgs, RustClient.effective, htimeout, hproxy, Option.or_none,
      Bool.or_false]

end Steps

section Agreement
variable {s : Session b.lower} {method url : Text} {kw : Kwargs b.lower} {args : RustArgs}

/-- A client that is left the choice has an agent, and it is not configured for the system's
roots. -/
theorem left_pick {config : AgentConfig} (hsystem : agentConfig env .system = .ok config)
    (hfiled : ∀ c, s.client = some c → Filed env c) (hleft : LeftToClient s kw) (w w' : World) :
    ExceptRel Eq (fun a a' => a.config ≠ a'.config)
      (pick env s.client w (verifyOf (some s) kw)).agent
      (pick env none w' (verifyOf (some s) kw)).agent := by
  obtain ⟨hnone, c, hc, hne⟩ := hleft
  have hplain := pick_none_config env w' .none
  change _ = agentConfig env .system at hplain
  rw [hsystem] at hplain
  obtain ⟨a', ha', hconfig⟩ := map_eq_ok.mp hplain
  rw [hnone, hc, ha']
  refine ExceptRel.ok ?_
  intro hsame
  have hown := hfiled c hc c.verify c.agent (if_pos rfl)
  rw [hsame, hconfig] at hown
  exact hne (agentConfig_platform hsystem hown)

theorem call_agrees_iff {config : AgentConfig}
    (hclient : ∀ c, s.client = some c → Filed env c ∧ c.overrides.poisoned = false)
    (hexec : ∀ given, executeArgs s.client given = executeArgs none given)
    (hsystem : agentConfig env .system = .ok config)
    (hargs : sessionArgs b s method url kw = .ok args) (w w' : World) :
    ExceptRel Eq (SameUse ConfiguredAlike) (handover p env s.client w args)
        (handover p env none w' args) ↔
      (∃ e, handover p env s.client w args = .error e) ∨ ¬LeftToClient s kw := by
  have hverify : args.verify = verifyOf (some s) kw := KeepAlive.pathArgs_verify (s := some s) hargs
  by_cases hleft : LeftToClient s kw
  · have hpick := left_pick hsystem (fun c hc => (hclient c hc).1) hleft w w'
    rw [← hverify] at hpick
    have hrel := @handover_alike p env _ _ _ w w' args hexec hpick
    simp only [hleft, not_true_eq_false, or_false]
    generalize handover p env s.client w args = x at hrel ⊢
    generalize handover p env none w' args = y at hrel ⊢
    cases hrel with
    | error he => exact iff_of_true (ExceptRel.error he) ⟨_, rfl⟩
    | ok huse =>
      refine iff_of_false ?_ ?_
      · rintro (_ | hsame)
        exact huse.agent hsame.agent
      · rintro ⟨e, he⟩
        cases he
  · refine iff_of_true (handover_alike hexec (exceptRel_of_map ?_)) (Or.inr hleft)
    rw [pick_config (fun c hc => (hclient c hc).1) (fun c hc => (hclient c hc).2),
      pick_none_config, hverify, (callMode_unpooled_iff s.client _).mpr hleft]

end Agreement

/-- Wherever a session has got to, with the CA bundles as they were and no request that panicked,
a further request makes the call that the stateless function makes with the merged settings, on
an agent configured alike, or fails with the same exception. The exceptions are exactly the
requests that are made and leave the mode to a client that does not have the system's. -/
theorem unpooled_agrees_iff {b : Builtins} {env₀ : TlsEnv} {w₀ w : World} {c : RustClient}
    (hnew : RustClient.new env₀ (some (.bool true)) none false w₀ = .ok (c, w))
    {actions : List (Action b.lower)} (hmeets : ∀ a ∈ actions, Meets env₀ a) {s : State b.lower}
    (hrun : run step (start b.lower c w) actions = some s) (hquiet : ∀ x ∈ s.log, ¬Panicked x)
    (p : Platform) (w' : World) (method url : Text) (kw : Kwargs b.lower) :
    ExceptRel Eq (SameUse ConfiguredAlike) (handed b p env₀ (some s.session) s.world method url kw)
        (unpooled b p env₀ s.session w' method url kw) ↔
      (∃ e, handed b p env₀ (some s.session) s.world method url kw = .error e) ∨
        ¬LeftToClient s.session kw := by
  have hclient := (run_steady (start_steady hnew) hmeets hrun).unpoisoned hquiet
  have hexec := executeArgs_unset (run_unset hnew hrun)
  have hsystem : agentConfig env₀ .system = .ok c.agent.config := by
    have hmode : VerifyMode.system = c.verify := Except.ok.inj (new_settings hnew).1
    exact (new_filed hnew).1 _ _ (if_pos hmode)
  rw [unpooled_eq, handed, pathArgs]
  cases hargs : sessionArgs b s.session method url kw with
  | error e => exact iff_of_true (ExceptRel.error rfl) (Or.inl ⟨e, rfl⟩)
  | ok args => exact call_agrees_iff hclient hexec hsystem hargs s.world w'

/-- After `visited` the session is unverified, and so is a request with `verify=None`. -/
theorem unpooled_agrees_iff_visited : ∃ c w s,
    RustClient.new .noFiles (some (.bool true)) none false World.initial = .ok (c, w) ∧
    run step (start Builtins.ascii.lower c w) visited = some s ∧
    let alike (kw : Kwargs Builtins.ascii.lower) : Prop := ExceptRel Eq (SameUse ConfiguredAlike)
      (handed Builtins.ascii Platform.plain .noFiles (some s.session) s.world "get".toList
        "http://h/".toList kw)
      (unpooled Builtins.ascii Platform.plain .noFiles s.session w "get".toList
        "http://h/".toList kw)
    alike {} ∧ ¬alike { verify := some .none } := by
  refine ⟨_, _, _, rfl, rfl, ?_⟩
  have hiff := @unpooled_agrees_iff Builtins.ascii .noFiles World.initial _ _ rfl visited
    visited_meets _ rfl (visited_quiet rfl rfl) Platform.plain
  constructor
  · refine (hiff _ _ _ _).mpr (Or.inr ?_)
    rintro ⟨hnone, -⟩
    cases hnone
  · intro h
    rcases (hiff _ _ _ _).mp h with ⟨e, he⟩ | hleft
    · cases he
    · exact hleft ⟨rfl, _, rfl, by decide⟩

end Pyureq.Unpooled
