import Pyureq.Requests.PathAgreement

/-! The seven convenience methods of `Session`. Two of them settle `allow_redirects` before the
merge looks for it, so the session's own setting never reaches Rust through them. -/
namespace Pyureq.Verbs
open PathAgreement

inductive Verb where
  | get | post | put | patch | delete | head | options
  deriving DecidableEq

namespace Verb
variable {lower : Text → Text}

def name : Verb → Text
  | get => "GET".toList
  | post => "POST".toList
  | put => "PUT".toList
  | patch => "PATCH".toList
  | delete => "DELETE".toList
  | head => "HEAD".toList
  | options => "OPTIONS".toList

/-- What each method passes on to `request`. -/
def kwargs (kw : Kwargs lower) : Verb → Kwargs lower
  | get | options => kw.setDefaultRedirects true
  | post => { kw.passData with json := some (orNone kw.json) }
  | put | patch => kw.passData
  | delete => kw
  | head => kw.setDefaultRedirects false

/-- The method of the session. -/
def call (b : Builtins) (p : Platform) (env : TlsEnv) (s : Session b.lower) (w : World)
    (url : Text) (kw : Kwargs b.lower) : Verb → Outcome b.lower
  | get => s.get b p env w url kw
  | post => s.post b p env w url kw
  | put => s.put b p env w url kw
  | patch => s.patch b p env w url kw
  | delete => s.delete b p env w url kw
  | head => s.head b p env w url kw
  | options => s.options b p env w url kw

/-- `head` alone has a default of its own. -/
def expected (kw : Kwargs lower) : Verb → Kwargs lower
  | head => kw.setDefaultRedirects false
  | _ => kw

end Verb

/-- What a convenience method computes before the call into Rust. -/
def verbArgs (b : Builtins) (s : Session b.lower) (v : Verb) (url : Text) (kw : Kwargs b.lower) :
    Except PyErr RustArgs := sessionArgs b s v.name url (v.kwargs kw)

/-- Each setting that was passed is the caller's, and any other one the session's. -/
structure Applied (b : Builtins) (s : Session b.lower) (v : Verb) (kw : Kwargs b.lower)
    (args : RustArgs) : Prop where
  auth : authTuple b (kw.auth.getD s.auth) = .ok args.auth
  timeout : timeoutFloat b (kw.timeout.getD s.timeout) = .ok args.timeout
  verify : args.verify = kw.verify.getD s.verify
  allowRedirects : args.allowRedirects =
    kw.allowRedirects.getD (if v = .head then .bool false else s.allowRedirects)

/-- The method's own default, if it takes effect, is what the session has anyway. -/
def DefaultAgrees {lower : Text → Text} (s : Session lower) (v : Verb) (kw : Kwargs lower) : Prop :=
  v = .get ∨ v = .options → kw.allowRedirects = none → s.allowRedirects = .bool true

section Args
variable {b : Builtins} {s : Session b.lower} {v : Verb} {url : Text} {kw : Kwargs b.lower}

/-- A method is a request with its name and its keyword arguments. -/
theorem call_result (p : Platform) (env : TlsEnv) (w : World) :
    (v.call b p env s w url kw).result =
      (verbArgs b s v url kw).bind fun args =>
        respond b p (callRust p env s.client w args).result := by
  have hcall : v.call b p env s w url kw = s.request b p env w v.name url (v.kwargs kw) := by
    cases v <;> rfl
  rw [hcall, request_result, verbArgs]

theorem sessionArgs_applied {method : Text} {args : RustArgs}
    (h : sessionArgs b s method url kw = .ok args) :
    authTuple b (kw.auth.getD s.auth) = .ok args.auth ∧
      timeoutFloat b (kw.timeout.getD s.timeout) = .ok args.timeout ∧
      args.verify = kw.verify.getD s.verify ∧
      args.allowRedirects = kw.allowRedirects.getD s.allowRedirects := by
  obtain ⟨merged, hmerge, hprepare⟩ := bind_eq_ok.mp h
  have hm := merge_spec hmerge
  have ha := prepare_spec hprepare
  refine ⟨?_, ?_, ?_, ?_⟩
  · rw [← ha.auth, hm.auth]
    rfl
  · rw [← ha.timeout, hm.timeout]
    rfl
  · rw [ha.verify, hm.verify]
    rfl
  · rw [ha.allowRedirects, hm.allowRedirects]
    rfl

/-- `allow_redirects` goes through the merge and the preparation on its own. -/
theorem sessionArgs_redirects (method : Text) (value : PyVal) :
    sessionArgs b s method url { kw with allowRedirects := some value } =
      (fun a : RustArgs => { a with allowRedirects := value }) <$>
        sessionArgs b s method url kw := by
  have hmerge : s.merge b { kw with allowRedirects := some value } =
      (fun m : Kwargs b.lower => { m with allowRedirects := some value }) <$> s.merge b kw := by
    simp only [Session.merge, map_bind, map_pure]
    rfl
  have hprepare : ∀ m : Kwargs b.lower,
      prepare b (b.upper method) url { m with allowRedirects := some value } =
        (fun a : RustArgs => { a with allowRedirects := value }) <$>
          prepare b (b.upper method) url m := by
    intro m
    simp only [prepare, map_bind, map_pure]
    rfl
  rw [sessionArgs, hmerge, bind_map_left, sessionArgs, map_bind]
  exact bind_congr hprepare

theorem setDefaultRedirects_of_some {value : PyVal} (h : kw.allowRedirects = some value)
    (default : Bool) : kw.setDefaultRedirects default = kw := by
  cases kw
  subst h
  rfl

/-- The call that is expected has the settings that are expected. -/
theorem applied_of_expected {args : RustArgs}
    (h : sessionArgs b s v.name url (v.expected kw) = .ok args) : Applied b s v kw args := by
  obtain ⟨hauth, htimeout, hverify, hredirects⟩ := sessionArgs_applied h
  cases v with
  | head => exact ⟨hauth, htimeout, hverify, hredirects⟩
  | _ => exact ⟨hauth, htimeout, hverify, hredirects⟩

/-- Without a default of its own, or when it does not apply, a method makes that call. -/
theorem verbArgs_expected (h : (v = .get ∨ v = .options) → kw.allowRedirects ≠ none) :
    verbArgs b s v url kw = sessionArgs b s v.name url (v.expected kw) := by
  have hpassed : v = .get ∨ v = .options → v.kwargs kw = v.expected kw := by
    intro hv
    obtain ⟨value, hvalue⟩ := Option.ne_none_iff_exists'.mp (h hv)
    rcases hv with rfl | rfl <;> exact setDefaultRedirects_of_some hvalue true
  cases v with
  | get => rw [verbArgs, hpassed (Or.inl rfl)]
  | options => rw [verbArgs, hpassed (Or.inr rfl)]
  | _ => rfl

/-- Otherwise it makes that call with redirects allowed. -/
theorem verbArgs_default (hv : v = .get ∨ v = .options) (h : kw.allowRedirects = none) :
    verbArgs b s v url kw = (fun a : RustArgs => { a with allowRedirects := .bool true }) <$>
      sessionArgs b s v.name url (v.expected kw) := by
  have hdefault : kw.setDefaultRedirects true = { kw with allowRedirects := some (.bool true) } := by
    rw [Kwargs.setDefaultRedirects, h]
    rfl
  rcases hv with rfl | rfl
  · rw [verbArgs, Verb.kwargs, hdefault]
    exact sessionArgs_redirects _ _
  · rw [verbArgs, Verb.kwargs, hdefault]
    exact sessionArgs_redirects _ _

end Args

/-- A convenience method fails when the request it stands for does, and otherwise it makes the
same call into Rust, with the session's settings, exactly when its own default agrees. -/
theorem settings_apply_iff (b : Builtins) (s : Session b.lower) (v : Verb) (url : Text)
    (kw : Kwargs b.lower) :
    (∀ e, verbArgs b s v url kw = .error e ↔
      sessionArgs b s v.name url (v.expected kw) = .error e) ∧
    ∀ args, verbArgs b s v url kw = .ok args →
      (Applied b s v kw args ∧ sessionArgs b s v.name url (v.expected kw) = .ok args ↔
        DefaultAgrees s v kw) := by
  by_cases hcase : (v = .get ∨ v = .options) ∧ kw.allowRedirects = none
  · obtain ⟨hv, hnone⟩ := hcase
    rw [verbArgs_default hv hnone]
    cases hcall : sessionArgs b s v.name url (v.expected kw) with
    | error e => exact ⟨fun _ => Iff.rfl, fun args h => nomatch h⟩
    | ok a =>
      refine ⟨fun e => iff_of_false (fun h => nomatch h) (fun h => nomatch h), ?_⟩
      intro args hargs
      obtain rfl := Except.ok.inj hargs
      have hredirects : a.allowRedirects = s.allowRedirects := by
        have h := (applied_of_expected hcall).allowRedirects
        have hhead : v ≠ .head := by rintro rfl; simp at hv
        rwa [hnone, Option.getD_none, if_neg hhead] at h
      constructor
      · rintro ⟨-, hsame⟩ - -
        rw [← hredirects, Except.ok.inj hsame]
      · intro hagrees
        -- the default changes nothing
        have hsame : a = { a with allowRedirects := .bool true } := by
          rw [← hagrees hv hnone, ← hredirects]
        exact ⟨applied_of_expected (hcall.trans (congrArg Except.ok hsame)),
          congrArg Except.ok hsame⟩
  · have hsame : verbArgs b s v url kw = sessionArgs b s v.name url (v.expected kw) :=
      verbArgs_expected fun hv hnone => hcase ⟨hv, hnone⟩
    rw [hsame]
    refine ⟨fun _ => Iff.rfl, ?_⟩
    intro args hargs
    refine iff_of_true ⟨applied_of_expected hargs, hargs⟩ ?_
    exact fun hv hnone => absurd ⟨hv, hnone⟩ hcase

/-- A session that is told not to follow redirects. -/
def still : Session Builtins.ascii.lower := { Session.plain with allowRedirects := .bool false }

theorem settings_apply_iff_post : ∃ args,
    verbArgs Builtins.ascii still .post "http://h/".toList {} = .ok args ∧
      Applied Builtins.ascii still .post {} args ∧
      sessionArgs Builtins.ascii still "POST".toList "http://h/".toList {} = .ok args := by
  refine ⟨_, rfl, ?_⟩
  apply ((settings_apply_iff Builtins.ascii still .post "http://h/".toList {}).2 _ rfl).mpr
  intro hv
  simp at hv

/-- `s.get` follows redirects although the session says not to, and `s.request` does not. -/
theorem get_ignores_session : ∃ args args',
    verbArgs Builtins.ascii still .get "http://h/".toList {} = .ok args ∧
      sessionArgs Builtins.ascii still "GET".toList "http://h/".toList {} = .ok args' ∧
      still.allowRedirects = .bool false ∧ args.allowRedirects = .bool true ∧
      args'.allowRedirects = .bool false ∧ ¬Applied Builtins.ascii still .get {} args := by
  refine ⟨_, _, rfl, rfl, rfl, rfl, rfl, ?_⟩
  intro h
  have hredirects : PyVal.bool true = PyVal.bool false := h.allowRedirects
  simp at hredirects

end Pyureq.Verbs
