import Pyureq.Base.Runs
import Pyureq.Requests.Sending

/-! One `Session` over its life, used by one thread: assignments to its attributes, the
`verify` setter, `close` and requests in any order, against surroundings that may change from
step to step. -/
namespace Pyureq.Lifetime
open PathAgreement Sending

/-- A value for one of the plain attributes. -/
inductive Attribute (lower : Text → Text) where
  | headers (v : HeadersVal lower)
  | auth (v : PyVal)
  | cookies (v : PyVal)
  | proxies (v : PyVal)
  | params (v : PyVal)
  | timeout (v : PyVal)
  | allowRedirects (v : PyVal)

def Attribute.assign {lower : Text → Text} (s : Session lower) : Attribute lower → Session lower
  | .headers v => { s with headers := v }
  | .auth v => { s with auth := v }
  | .cookies v => { s with cookies := v }
  | .proxies v => { s with proxies := v }
  | .params v => { s with params := v }
  | .timeout v => { s with timeout := v }
  | .allowRedirects v => { s with allowRedirects := v }

/-- One request: what ureq was given, if the request got that far, and its end. -/
structure Exchange (lower : Text → Text) where
  sent : Option Request
  answer : Except PyErr (Response lower)

structure State (lower : Text → Text) where
  session : Session lower
  world : World
  /-- The requests so far, the newest first. -/
  log : List (Exchange lower)

/-- After `Session.__init__`. -/
def start (lower : Text → Text) (c : RustClient) (w : World) : State lower :=
  ⟨Session.init lower c, w, []⟩

inductive Action (lower : Text → Text) where
  | set (a : Attribute lower)
  | setVerify (env : TlsEnv) (value : PyVal)
  | close
  | request (p : Platform) (env : TlsEnv) (method url : Text) (kw : Kwargs lower)
  /-- Another session or one-shot call builds an agent. -/
  | elsewhere (env : TlsEnv) (mode : VerifyMode)

variable {b : Builtins}

/-- What a request hands to ureq. -/
def sent (p : Platform) (env : TlsEnv) (s : Session b.lower) (w : World) (method url : Text)
    (kw : Kwargs b.lower) : Option Request :=
  match (sessionArgs b s method url kw).bind (handover p env s.client w) with
  | .ok h => some h.req
  | .error _ => none

def step (s : State b.lower) : Action b.lower → Option (State b.lower)
  | .set a => some { s with session := a.assign s.session }
  | .setVerify env value =>
    let r := s.session.setVerify env s.world value
    some { s with session := r.session, world := r.world }
  | .close => some { s with session := s.session.close }
  | .request p env method url kw =>
    let out := s.session.request b p env s.world method url kw
    some { session := { s.session with client := out.client }
           world := out.world
           log := ⟨sent p env s.session s.world method url kw, out.result⟩ :: s.log }
  | .elsewhere env mode =>
    match buildAgent env mode s.world with
    | .ok (_, w) => some { s with world := w }
    | .error _ => some s

theorem step_elsewhere {s t : State b.lower} {env : TlsEnv} {mode : VerifyMode}
    (h : step s (.elsewhere env mode) = some t) : ∃ w, t = { s with world := w } := by
  rw [step] at h
  split at h
  next a w hbuild => exact ⟨w, (Option.some.inj h).symm⟩
  next e hbuild => exact ⟨s.world, (Option.some.inj h).symm⟩

/-- A request that is not sent raises, and one that is sent ends as ureq's answer to it
says. -/
theorem sent_cases (p : Platform) (env : TlsEnv) (s : Session b.lower) (w : World)
    (method url : Text) (kw : Kwargs b.lower) :
    (sent p env s w method url kw = none ∧
      ∃ e, (s.request b p env w method url kw).result = .error e) ∨
    ∃ h : Handover, sent p env s w method url kw = some h.req ∧
      (s.request b p env w method url kw).result =
        respond b p (receive p (p.run h.agent h.cfg h.req)) := by
  rw [request_result, sent]
  cases sessionArgs b s method url kw with
  | error e => exact Or.inl ⟨rfl, e, rfl⟩
  | ok args =>
    simp only [Except.bind]
    rw [callRust_eq]
    cases handover p env s.client w args with
    | error e => exact Or.inl ⟨rfl, exceptChain e, rfl⟩
    | ok h => exact Or.inr ⟨h, rfl, rfl⟩

end Pyureq.Lifetime
