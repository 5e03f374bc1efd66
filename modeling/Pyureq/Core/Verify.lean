import Pyureq.Python.Value

/-! `VerifyMode`, `build_tls_config` and `build_agent` of `lib.rs`. An agent is its
configuration and the identity of its connection pool: a clone shares the pool, a new
agent gets a pool that no earlier agent has. -/

namespace Pyureq

inductive VerifyMode where
  | system
  | none
  | caBundle (path : Text)
  deriving DecidableEq

/-- `VerifyMode::from_pyany`: a bool first, then a string. -/
def VerifyMode.fromPyAny : PyVal → Except PyErr VerifyMode
  | .bool b => .ok (if b then .system else .none)
  | .str s => .ok (.caBundle s)
  | _ => .error (PyVal.typeError "verify must be a bool or a path string to a CA bundle")

/-- How `RustClient::new` and `http_request` read their `verify` argument. -/
def VerifyMode.orSystem : Option PyVal → Except PyErr VerifyMode
  | some v => fromPyAny v
  | .none => .ok .system

/-- A certificate by its DER bytes. -/
abbrev Cert := Bytes

inductive PemItem where
  | certificate (c : Cert)
  | privateKey (der : Bytes)

inductive RootCerts where
  | webPki
  | platformVerifier
  | specific (certs : List Cert)
  deriving DecidableEq

/-- The defaults are those of ureq's builder. -/
structure TlsConfig where
  disableVerification : Bool := false
  rootCerts : RootCerts := .webPki
  deriving DecidableEq

/-- What building an agent asks of its surroundings: the files as they are at that
moment, ureq's PEM parser, and whether ureq panics on a configuration. -/
structure TlsEnv where
  read : Text → Except Text Bytes
  parsePem : Bytes → List (Except Text PemItem)
  panics : TlsConfig → Bool

/-- A machine without readable CA bundles. -/
def TlsEnv.noFiles : TlsEnv where
  read _ := .error "No such file or directory (os error 2)".toList
  parsePem _ := []
  panics _ := false

def collectCerts (path : Text) : List (Except Text PemItem) → Except PyErr (List Cert)
  | [] => .ok []
  | .ok (.certificate c) :: items => (collectCerts path items).map (c :: ·)
  | .ok _ :: items => collectCerts path items
  | .error e :: _ =>
    .error ⟨.valueError, "Invalid CA bundle '".toList ++ path ++ "': ".toList ++ e⟩

def buildTlsConfig (env : TlsEnv) : VerifyMode → Except PyErr TlsConfig
  | .none => .ok { disableVerification := true }
  | .system => .ok { rootCerts := .platformVerifier }
  | .caBundle path =>
    match env.read path with
    | .error e =>
      .error ⟨.valueError, "Cannot read CA bundle '".toList ++ path ++ "': ".toList ++ e⟩
    | .ok pemBytes =>
      match collectCerts path (env.parsePem pemBytes) with
      | .error e => .error e
      | .ok [] =>
        .error ⟨.valueError, "No certificates found in CA bundle '".toList ++ path ++ "'".toList⟩
      | .ok certs => .ok { rootCerts := .specific certs }

structure AgentConfig where
  tlsConfig : TlsConfig
  httpStatusAsError : Bool
  deriving DecidableEq

structure Agent where
  config : AgentConfig
  pool : ℕ
  deriving DecidableEq

/-- The agents built so far in the process, each with the mode `build_agent` was called
with. The fields say that pools are never handed out twice and that verification is off
in exactly the agents built for `VerifyMode::None`. -/
structure World where
  nextPool : ℕ
  builds : List (VerifyMode × Agent)
  fresh : ∀ e ∈ builds, e.2.pool < nextPool
  distinct : (builds.map fun e => e.2.pool).Nodup
  honest : ∀ e ∈ builds, e.2.config.tlsConfig.disableVerification = true ↔ e.1 = .none

namespace World

def initial : World := ⟨0, [], by simp, List.nodup_nil, by simp⟩

/-- `config.new_agent()`, recorded. -/
def newAgent (w : World) (mode : VerifyMode) (config : AgentConfig)
    (h : config.tlsConfig.disableVerification = true ↔ mode = .none) : Agent × World :=
  let a : Agent := ⟨config, w.nextPool⟩
  (a, { nextPool := w.nextPool + 1
        builds := (mode, a) :: w.builds
        fresh := by
          simp only [List.forall_mem_cons]
          exact ⟨Nat.lt_succ_self _, fun e he => Nat.lt_succ_of_lt (w.fresh e he)⟩
        distinct := by
          refine List.nodup_cons.mpr ⟨?_, w.distinct⟩
          intro hp
          obtain ⟨e, he, hpool⟩ := List.mem_map.mp hp
          exact (w.fresh e he).ne hpool
        honest := by
          simp only [List.forall_mem_cons]
          exact ⟨h, w.honest⟩ })

/-- The pool of a recorded agent determines the agent and its mode. -/
theorem pool_injective {w : World} {m n : VerifyMode} {a b : Agent} (ha : (m, a) ∈ w.builds)
    (hb : (n, b) ∈ w.builds) (hp : a.pool = b.pool) : m = n ∧ a = b :=
  Prod.mk.inj (List.inj_on_of_nodup_map w.distinct ha hb hp)

end World

theorem buildTlsConfig_disables {env : TlsEnv} {mode : VerifyMode} {tls : TlsConfig}
    (h : buildTlsConfig env mode = .ok tls) : tls.disableVerification = true ↔ mode = .none := by
  cases mode with
  | none => cases h; simp
  | system => cases h; simp
  | caBundle path =>
    simp only [buildTlsConfig] at h
    split at h
    · cases h
    · split at h <;> cases h
      simp

def buildAgent (env : TlsEnv) (mode : VerifyMode) (w : World) : Except PyErr (Agent × World) :=
  match h : buildTlsConfig env mode with
  | .error e => .error e
  | .ok tls =>
    if env.panics tls then .error ⟨.panicException, "ureq panicked".toList⟩
    else .ok (w.newAgent mode ⟨tls, false⟩ (buildTlsConfig_disables h))

/-- A build succeeds for the modes that have a configuration on which ureq does not panic. -/
theorem buildAgent_succeeds_iff (env : TlsEnv) (mode : VerifyMode) (w : World) :
    (∃ r, buildAgent env mode w = .ok r) ↔
      ∃ tls, buildTlsConfig env mode = .ok tls ∧ env.panics tls = false := by
  unfold buildAgent
  split
  next e he => simp [he]
  next tls ht => cases hp : env.panics tls <;> simp [ht, hp]

/-- How a build ends does not depend on what was built before. -/
theorem buildAgent_config (env : TlsEnv) (mode : VerifyMode) (w w' : World) :
    (buildAgent env mode w).map (fun r => r.1.config) =
      (buildAgent env mode w').map fun r => r.1.config := by
  unfold buildAgent
  split
  · rfl
  next => split <;> rfl

/-- A successful build records its agent and changes nothing else. -/
theorem buildAgent_ok {env : TlsEnv} {mode : VerifyMode} {w w' : World} {a : Agent}
    (h : buildAgent env mode w = .ok (a, w')) :
    w'.builds = (mode, a) :: w.builds ∧ buildTlsConfig env mode = .ok a.config.tlsConfig ∧
      a.config.httpStatusAsError = false := by
  unfold buildAgent at h
  split at h
  · cases h
  next tls ht =>
    split at h
    · cases h
    · simp only [World.newAgent, Except.ok.injEq, Prod.mk.injEq] at h
      obtain ⟨rfl, rfl⟩ := h
      exact ⟨rfl, ht, rfl⟩

end Pyureq
