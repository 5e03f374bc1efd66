import Pyureq.Base.Registers
import Pyureq.Requests.PathAgreement

/-! Requests on a session whose attributes other threads assign to. `_merge` reads the
attributes one after the other and `request` reads the client last, so assignments can fall
between the reads. -/
namespace Pyureq.AttributeReads
open Registers PathAgreement

/-- The attributes that a request reads; the client comes last. -/
inductive Attr where
  | headers | params | cookies | auth | timeout | verify | allowRedirects | proxies | client
  deriving DecidableEq

/-- A client is referred to by number. -/
def AttrVal (lower : Text → Text) : Attr → Type
  | .headers => HeadersVal lower
  | .client => Option ℕ
  | _ => PyVal

/-- The settings of a session at one moment. -/
def sessionOf {lower : Text → Text} (r : ∀ a, AttrVal lower a) : Session lower where
  headers := r .headers
  auth := r .auth
  cookies := r .cookies
  proxies := r .proxies
  verify := r .verify
  params := r .params
  timeout := r .timeout
  allowRedirects := r .allowRedirects
  client := none

section Readers
variable {ι : Type*} {ν : ι → Type*} {ε α β : Type}

/-- A conversion between two reads, which may raise. -/
def attempt (x : Except ε α) (next : α → Reader ν (Except ε β)) : Reader ν (Except ε β) :=
  match x with
  | .error e => .done (.error e)
  | .ok a => next a

theorem eval_attempt (regs : ∀ i, ν i) (x : Except ε α) (next : α → Reader ν (Except ε β)) :
    (attempt x next).eval regs = x >>= fun a => (next a).eval regs := by
  cases x <;> rfl

theorem readsOnce_attempt {seen : Set ι} (x : Except ε α) {next : α → Reader ν (Except ε β)}
    (h : ∀ a, (next a).ReadsOnce seen) : (attempt x next).ReadsOnce seen := by
  cases x with
  | error e => trivial
  | ok a => exact h a

end Readers

/-- What a request passes to Rust, with the client that it passes it to. -/
abbrev Call := Except PyErr (RustArgs × Option ℕ)

/-- `Session.request` up to the call into Rust, read by read. -/
def requestReader (b : Builtins) (method url : Text) (kw : Kwargs b.lower) :
    Reader (AttrVal b.lower) Call :=
  .read .headers fun headers =>
  attempt (normalizeHeaders b (some headers)) fun own =>
  attempt (normalizeHeaders b kw.headers) fun given =>
  attempt (normalizeHeaders b (some (.val (.ofStrDict (own.union given))))) fun headers =>
  .read .params fun params =>
  attempt (normalizeParams b params) fun ownParams =>
  attempt (normalizeParams b (orNone kw.params)) fun givenParams =>
  .read .cookies fun cookies =>
  attempt (normalizeCookies b cookies) fun ownCookies =>
  attempt (normalizeCookies b (orNone kw.cookies)) fun givenCookies =>
  .read .auth fun auth =>
  .read .timeout fun timeout =>
  .read .verify fun verify =>
  .read .allowRedirects fun allowRedirects =>
  .read .proxies fun ownProxies =>
  attempt (Session.mergeProxies ownProxies (orNone kw.proxies)) fun proxies =>
  .read .client fun client =>
  attempt (prepare b (b.upper method) url
    { headers := some (.val (.ofStrDict headers))
      params := some (.ofStrPairs (ownParams ++ givenParams))
      cookies := some (.ofStrDict (ownCookies.union givenCookies))
      auth := some (kw.auth.getD auth)
      timeout := some (kw.timeout.getD timeout)
      verify := some (kw.verify.getD verify)
      allowRedirects := some (kw.allowRedirects.getD allowRedirects)
      data := some (orNone kw.data)
      json := some (orNone kw.json)
      proxies := some proxies }) fun args =>
  .done (.ok (args, client))

/-- The call that `Session.request` makes when nothing changes meanwhile. -/
def callAt (b : Builtins) (method url : Text) (kw : Kwargs b.lower)
    (r : ∀ a, AttrVal b.lower a) : Call :=
  (fun args => (args, r .client)) <$> sessionArgs b (sessionOf r) method url kw

section Request
variable (b : Builtins) (method url : Text) (kw : Kwargs b.lower)

/-- Undisturbed, the reads add up to the request of the model. -/
theorem eval_requestReader (r : ∀ a, AttrVal b.lower a) :
    (requestReader b method url kw).eval r = callAt b method url kw r := by
  simp only [requestReader, Reader.eval, eval_attempt, callAt, sessionArgs, Session.merge,
    sessionOf, bind_assoc, pure_bind, map_bind]
  rfl

theorem requestReader_readsOnce : (requestReader b method url kw).ReadsOnce ∅ := by
  -- read by read: the attribute is not among those before it
  repeat' first
    | exact trivial
    | (apply readsOnce_attempt; intro _)
    | refine ⟨by simp, fun _ => ?_⟩

end Request

/-- Whatever is assigned to a session while a request is on its way to Rust, the request is made
from settings that were in force meanwhile. If one attribute only is assigned to, they were in
force together: the request is the one that the session makes at some moment, undisturbed. -/
theorem request_settings {b : Builtins} {s u : State (AttrVal b.lower) Call} {t : ℕ}
    {method url : Text} {kw : Kwargs b.lower} {actions : List (Action (AttrVal b.lower) Call)}
    {call : Call} (hbegin : s.readers t = requestReader b method url kw)
    (hstay : ∀ p, .start t p ∉ actions) (hrun : Runs.run step s actions = some u)
    (hdone : u.readers t = .done call) :
    (∃ r : ∀ a, AttrVal b.lower a, (∀ a, InForce s actions a (r a)) ∧
      callAt b method url kw r = call) ∧
    ∀ a, (∀ a' v, .assign a' v ∈ actions → a' = a) →
      ∃ before after m, actions = before ++ after ∧ Runs.run step s before = some m ∧
        callAt b method url kw m.regs = call := by
  have honce := requestReader_readsOnce b method url kw
  refine ⟨?_, ?_⟩
  · obtain ⟨r, hforce, heval⟩ := observed honce hbegin hstay hrun hdone
    exact ⟨r, hforce, eval_requestReader b method url kw r ▸ heval⟩
  · intro a hassign
    obtain ⟨before, after, m, hsplit, hbefore, heval⟩ :=
      snapshot honce hbegin hstay hassign hrun hdone
    exact ⟨before, after, m, hsplit, hbefore, eval_requestReader b method url kw m.regs ▸ heval⟩

/-- The attributes of a session, with a number for its client. -/
def attributes {lower : Text → Text} (s : Session lower) (client : Option ℕ) :
    ∀ a, AttrVal lower a
  | .headers => s.headers
  | .params => s.params
  | .cookies => s.cookies
  | .auth => s.auth
  | .timeout => s.timeout
  | .verify => s.verify
  | .allowRedirects => s.allowRedirects
  | .proxies => s.proxies
  | .client => client

/-- Thread 0 begins a request on a new session. -/
def beginning : State (AttrVal Builtins.ascii.lower) Call :=
  ⟨attributes Session.plain (some 0),
    fun _ => requestReader Builtins.ascii "get".toList "http://h/".toList {}⟩

/-- Another thread closes the session when all but the client has been read. -/
def closedMeanwhile : List (Action (AttrVal Builtins.ascii.lower) Call) :=
  List.replicate 8 (.turn 0) ++ [.assign .client none, .turn 0]

theorem request_settings_closed : ∃ (u : State (AttrVal Builtins.ascii.lower) Call) (call : Call),
    Runs.run step beginning closedMeanwhile = some u ∧ u.readers 0 = .done call ∧
      ∃ before after m, closedMeanwhile = before ++ after ∧
        Runs.run step beginning before = some m ∧
        callAt Builtins.ascii "get".toList "http://h/".toList {} m.regs = call := by
  refine ⟨_, _, rfl, rfl, ?_⟩
  have h := @request_settings Builtins.ascii beginning _ 0 "get".toList "http://h/".toList {}
    closedMeanwhile _ rfl (by simp [closedMeanwhile]) rfl rfl
  apply h.2 .client
  intro a v hv
  simp only [closedMeanwhile, List.mem_append, List.mem_replicate, List.mem_cons,
    List.not_mem_nil, or_false, reduceCtorEq, and_false, false_or] at hv
  cases hv
  rfl

end Pyureq.AttributeReads
