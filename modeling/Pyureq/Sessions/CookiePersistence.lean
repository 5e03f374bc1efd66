import Pyureq.Sessions.Lifetime

/-! Cookies over the life of a `Session`. What a response reports is never stored, so a
request carries the cookies that the session was given and no others. -/
namespace Pyureq.CookiePersistence
open Delimited PercentCoding PathAgreement Sending Runs Lifetime

/-- The cookie in one piece of a `Cookie` header, if there is one. -/
def pairOf (piece : Text) : Option (Text × Text) :=
  if (strip piece).contains '=' then
    some (strip (partition '=' (strip piece)).1, strip (partition '=' (strip piece)).2)
  else none

def cookiePairs (header : Text) : List (Text × Text) := (header.splitOn ';').filterMap pairOf

/-- A `Cookie` header of the request has the cookie. -/
def Carries (req : Request) (n v : Text) : Prop :=
  ∃ h ∈ req.headers, eqIgnoreAsciiCase h.1 "Cookie".toList = true ∧ (n, v) ∈ cookiePairs h.2

instance (req : Request) (n v : Text) : Decidable (Carries req n v) :=
  inferInstanceAs (Decidable (∃ h ∈ req.headers, _ ∧ _))

variable {b : Builtins}

/-- The session's own cookies have the cookie. -/
def Held (b : Builtins) (s : Session b.lower) (n v : Text) : Prop :=
  ∃ own, normalizeCookies b s.cookies = .ok own ∧
    ∃ e ∈ own.entries, (n, v) ∈ cookiePairs (e.1 ++ '=' :: e.2)

/-- What an exchange reports under a name. -/
def reported (n : Text) (x : Exchange b.lower) : Option Text :=
  match x.answer with
  | .ok r => r.cookies.get? n
  | .error _ => none

/-- The value that was received last, in a log with the newest exchange first. -/
def latest (n : Text) (log : List (Exchange b.lower)) : Option Text := log.findSome? (reported n)

/-- Every request carries all cookies that the responses before it reported. -/
def Persistent (log : List (Exchange b.lower)) : Prop :=
  ∀ newer x earlier, log = newer ++ x :: earlier → ∀ req, x.sent = some req →
    ∀ n v, latest n earlier = some v → Carries req n v

def NoCookieHeader (b : Builtins) (headers : Option (HeadersVal b.lower)) : Prop :=
  ∀ m, normalizeHeaders b headers = .ok m →
    ∀ k ∈ m.keys, eqIgnoreAsciiCase k "Cookie".toList = false

/-- The caller keeps out: no `cookies=`, no `Cookie` header, no assignment to
`Session.cookies`. -/
def Untouched (s : State b.lower) : Action b.lower → Prop
  | .set (.cookies _) => False
  | .request _ _ _ _ kw => orNone kw.cookies = .none ∧
      NoCookieHeader b (some s.session.headers) ∧ NoCookieHeader b kw.headers
  | _ => True

section Headers

theorem pairOf_space (piece : Text) : pairOf (' ' :: piece) = pairOf piece := by
  have hstrip : strip (' ' :: piece) = strip piece := stripBy_cons (by decide) piece
  rw [pairOf, hstrip, pairOf]

theorem mem_cookiePairs_join {pieces : List Text} {a : Text × Text} :
    a ∈ cookiePairs ("; ".toList.intercalate pieces) ↔ ∃ s ∈ pieces, a ∈ cookiePairs s := by
  have hsep : "; ".toList = [';', ' '] := by decide
  cases pieces with
  | nil =>
    have hnil : cookiePairs [] = [] := by decide
    simp [hnil]
  | cons l ls =>
    rw [cookiePairs, hsep, filterMap_splitOn_intercalate (by decide) pairOf_space,
      List.mem_flatMap]
    rfl

/-- Unless the caller sends one, only the derived `Cookie` header carries cookies. -/
theorem carried_iff {p : Platform} {headers cookies : Option (OrderedMap Text Text)}
    {auth : Option (Text × Text)} {contentType : Option Text}
    (hno : hasHeader headers "Cookie".toList = false) (a : Text × Text) :
    (∃ h ∈ requestHeaders p headers cookies auth contentType,
      eqIgnoreAsciiCase h.1 "Cookie".toList = true ∧ a ∈ cookiePairs h.2) ↔
      ∃ text, cookieValue p cookies = some text ∧ a ∈ cookiePairs text := by
  have hmem : ∀ h, (h ∈ requestHeaders p headers cookies auth contentType ∧
      eqIgnoreAsciiCase h.1 "Cookie".toList = true) ↔
        ∃ text, cookieValue p cookies = some text ∧ ("Cookie".toList, text) = h := by
    intro h
    rw [← Option.map_eq_some_iff, ← Option.mem_toList,
      ← filter_cookie p cookies auth contentType hno, List.mem_filter]
  constructor
  · rintro ⟨h, hh, hname, ha⟩
    obtain ⟨text, htext, rfl⟩ := (hmem h).mp ⟨hh, hname⟩
    exact ⟨text, htext, ha⟩
  · rintro ⟨text, htext, ha⟩
    obtain ⟨hh, hname⟩ := (hmem _).mpr ⟨text, htext, rfl⟩
    exact ⟨_, hh, hname, ha⟩

theorem cookieValue_iff (p : Platform) (m : OrderedMap Text Text) (a : Text × Text) :
    (∃ text, cookieValue p (mapOrNone m) = some text ∧ a ∈ cookiePairs text) ↔
      ∃ e ∈ m.entries, a ∈ cookiePairs (e.1 ++ '=' :: e.2) := by
  unfold mapOrNone
  cases hm : m.entries.isEmpty with
  | true =>
    rw [List.isEmpty_iff] at hm
    simp [cookieValue, hm]
  | false =>
    simp only [cookieValue, hm, Bool.false_eq_true, if_false, Option.some.injEq, exists_eq_left',
      mem_cookiePairs_join, List.mem_map, (p.iteration_perm m).mem_iff]
    constructor
    · rintro ⟨s, ⟨e, he, rfl⟩, ha⟩
      exact ⟨e, he, ha⟩
    · rintro ⟨e, he, ha⟩
      exact ⟨_, ⟨e, he, rfl⟩, ha⟩

end Headers

section Requests
variable {p : Platform} {env : TlsEnv} {s : Session b.lower} {w : World} {method url : Text}
  {kw : Kwargs b.lower}

/-- The arguments of a request into which the caller puts no cookies. -/
theorem args_cookies (hcookies : orNone kw.cookies = .none)
    (hown : NoCookieHeader b (some s.headers)) (hgiven : NoCookieHeader b kw.headers)
    {args : RustArgs} (h : sessionArgs b s method url kw = .ok args) :
    hasHeader args.headers "Cookie".toList = false ∧
      ∃ m, normalizeCookies b s.cookies = .ok m ∧ args.cookies = mapOrNone m := by
  obtain ⟨merged, hmerge, hprep⟩ := bind_eq_ok.mp h
  have hm := merge_spec hmerge
  have hp := prepare_spec hprep
  constructor
  · obtain ⟨own, given, ho, hg, heq⟩ := hm.headers
    obtain ⟨m, hnorm, hargs⟩ := hp.headers
    rw [heq, normalizeHeaders_ofStrDict] at hnorm
    obtain rfl := Except.ok.inj hnorm
    rw [← Bool.not_eq_true, hasHeader_eq_true, hargs, callerEntries_mapOrNone]
    rintro ⟨e, he, hname⟩
    rcases OrderedMap.mem_keys_union.mp (OrderedMap.mem_keys_of_mem he) with hk | hk
    · rw [hgiven given hg e.1 hk] at hname
      contradiction
    · rw [hown own ho e.1 hk] at hname
      contradiction
  · obtain ⟨own, given, ho, hg, heq⟩ := hm.cookies
    obtain ⟨m, hnorm, hargs⟩ := hp.cookies
    have hunion : orNone merged.cookies = .ofStrDict (own.union given) := by rw [heq]; rfl
    rw [hcookies] at hg
    obtain rfl := Except.ok.inj hg
    rw [hunion, normalizeCookies_ofStrDict] at hnorm
    obtain rfl := Except.ok.inj hnorm
    exact ⟨own, ho, hargs⟩

/-- Such a request carries the session's own cookies. -/
theorem carries_iff (hcookies : orNone kw.cookies = .none)
    (hown : NoCookieHeader b (some s.headers)) (hgiven : NoCookieHeader b kw.headers)
    {req : Request} (h : sent p env s w method url kw = some req) (n v : Text) :
    Carries req n v ↔ Held b s n v := by
  unfold sent at h
  split at h
  next hh hbind =>
    obtain rfl := Option.some.inj h
    obtain ⟨args, hargs, hh⟩ := bind_eq_ok.mp hbind
    obtain ⟨hno, m, hm, hc⟩ := args_cookies hcookies hown hgiven hargs
    unfold Carries Held
    rw [handover_headers hh, carried_iff hno, hc, cookieValue_iff]
    constructor
    · exact fun he => ⟨m, hm, he⟩
    · rintro ⟨m', hm', he⟩
      obtain rfl := Except.ok.inj (hm.symm.trans hm')
      exact he
  next => cases h

end Requests

section Life
variable {session : Session b.lower}

/-- The session's cookies are what they were, and so is what every request carried. -/
structure Unchanged (session : Session b.lower) (s : State b.lower) : Prop where
  cookies : s.session.cookies = session.cookies
  carried : ∀ x ∈ s.log, ∀ req, x.sent = some req → ∀ n v, Carries req n v ↔ Held b session n v

theorem step_unchanged {s t : State b.lower} {a : Action b.lower} (h : Unchanged session s)
    (ha : Untouched s a) (hs : step s a = some t) : Unchanged session t := by
  cases a with
  | set a =>
    obtain rfl := Option.some.inj hs
    cases a with
    | cookies v => exact False.elim ha
    | _ => exact ⟨h.cookies, h.carried⟩
  | setVerify env v =>
    obtain rfl := Option.some.inj hs
    refine ⟨?_, h.carried⟩
    simp only [Session.setVerify]
    split <;> exact h.cookies
  | close =>
    obtain rfl := Option.some.inj hs
    exact ⟨h.cookies, h.carried⟩
  | request p env method url kw =>
    obtain rfl := Option.some.inj hs
    obtain ⟨hcookies, hown, hgiven⟩ := ha
    refine ⟨h.cookies, List.forall_mem_cons.mpr ⟨?_, h.carried⟩⟩
    intro req hreq n v
    rw [carries_iff hcookies hown hgiven hreq, Held, Held, h.cookies]
  | elsewhere env mode =>
    obtain ⟨w, rfl⟩ := step_elsewhere hs
    exact ⟨h.cookies, h.carried⟩

/-- Without cookies of its own the session holds none. -/
theorem not_held (h : session.cookies = .dict []) (n v : Text) : ¬Held b session n v := by
  rintro ⟨own, hown, e, he, -⟩
  rw [h] at hown
  obtain rfl := Except.ok.inj hown
  simp [PyVal.dictItems, PyVal.updateItems, strPairs, OrderedMap.ofList, OrderedMap.update] at he

/-- In every run that keeps out of the session's cookies, whatever it requests, the requests
carry all that the responses before them reported exactly when the session held it from the
start; on a session without cookies that means that they reported nothing. -/
theorem cookies_persist_iff {w : World} {actions : List (Action b.lower)} {s : State b.lower}
    (huntouched : Along step Untouched ⟨session, w, []⟩ actions)
    (hrun : run step ⟨session, w, []⟩ actions = some s) :
    (Persistent s.log ↔ ∀ newer x earlier, s.log = newer ++ x :: earlier → x.sent ≠ none →
      ∀ n v, latest n earlier = some v → Held b session n v) ∧
    (session.cookies = .dict [] → (Persistent s.log ↔
      ∀ newer x earlier, s.log = newer ++ x :: earlier → x.sent ≠ none →
        ∀ n, latest n earlier = none)) := by
  have hstart : Unchanged session (⟨session, w, []⟩ : State b.lower) := ⟨rfl, by simp⟩
  have hend : Unchanged session s :=
    run_invariant_along (fun _ _ _ => step_unchanged) hstart huntouched hrun
  have hiff : Persistent s.log ↔ ∀ newer x earlier, s.log = newer ++ x :: earlier →
      x.sent ≠ none → ∀ n v, latest n earlier = some v → Held b session n v := by
    constructor
    · intro h newer x earlier hlog hsent n v hv
      obtain ⟨req, hreq⟩ := Option.ne_none_iff_exists'.mp hsent
      have hx : x ∈ s.log := by rw [hlog]; simp
      exact (hend.carried x hx req hreq n v).mp (h newer x earlier hlog req hreq n v hv)
    · intro h newer x earlier hlog req hreq n v hv
      have hx : x ∈ s.log := by rw [hlog]; simp
      exact (hend.carried x hx req hreq n v).mpr (h newer x earlier hlog (by simp [hreq]) n v hv)
  refine ⟨hiff, ?_⟩
  intro hnone
  rw [hiff]
  constructor
  · intro h newer x earlier hlog hsent n
    by_contra hn
    obtain ⟨v, hv⟩ := Option.ne_none_iff_exists'.mp hn
    exact not_held hnone n v (h newer x earlier hlog hsent n v hv)
  · intro h newer x earlier hlog hsent n v hv
    rw [h newer x earlier hlog hsent n] at hv
    cases hv

end Life

/-- A server that sets `sid=1` in every response. -/
def loginServer : Platform :=
  { Platform.plain with
    run := fun _ _ r =>
      .answered ⟨200, r.uri,
        [("set-cookie".toList, "sid=1".toList.map fun c => UInt8.ofNat c.toNat)], .ok []⟩ }

def twoRequests : List (Action Builtins.ascii.lower) :=
  [.request loginServer .noFiles "get".toList "http://h/".toList {},
    .request loginServer .noFiles "get".toList "http://h/".toList {}]

def loggedIn : Session Builtins.ascii.lower :=
  { Session.plain with cookies := .dict [(.str "sid".toList, .str "1".toList)] }

theorem untouched_request {s : State Builtins.ascii.lower}
    (hs : s.session.headers = Session.plain.headers) (p : Platform) (env : TlsEnv)
    (method url : Text) : Untouched s (.request p env method url {}) := by
  refine ⟨rfl, ?_, ?_⟩
  · intro m hm
    rw [hs] at hm
    obtain rfl := Except.ok.inj hm
    exact forall_mem_of_all (by decide)
  · intro m hm
    obtain rfl := Except.ok.inj hm
    exact forall_mem_of_all (by decide)

theorem twoRequests_untouched {session : Session Builtins.ascii.lower}
    (h : session.headers = Session.plain.headers) :
    Along step Untouched ⟨session, World.initial, []⟩ twoRequests :=
  along_cons (untouched_request h ..) rfl (along_cons (untouched_request h ..) rfl trivial)

theorem cookies_persist_iff_held : ∃ s,
    run step ⟨loggedIn, World.initial, []⟩ twoRequests = some s ∧ Persistent s.log := by
  refine ⟨_, rfl, ?_⟩
  apply (@cookies_persist_iff Builtins.ascii loggedIn World.initial twoRequests _
    (twoRequests_untouched rfl) rfl).1.mpr
  intro newer x earlier hlog _ n v hv
  obtain ⟨y, hy, hreported⟩ := List.exists_of_findSome?_eq_some hv
  have hmem : y ∈ newer ++ x :: earlier := by simp [hy]
  rw [← hlog] at hmem
  -- both responses set the cookie that the session has
  obtain ⟨r, hr, hr'⟩ : ∃ r, y.answer = .ok r ∧
      r.cookies.entries = [("sid".toList, "1".toList)] := by
    rcases List.mem_cons.mp hmem with rfl | hmem
    · exact ⟨_, rfl, by decide⟩
    · obtain rfl := List.mem_singleton.mp hmem
      exact ⟨_, rfl, by decide⟩
  have hsid : (n, v) = ("sid".toList, "1".toList) := by
    rw [reported, hr] at hreported
    have hmem := OrderedMap.get?_eq_some.mp hreported
    rw [hr'] at hmem
    exact List.mem_singleton.mp hmem
  obtain ⟨rfl, rfl⟩ := Prod.mk.inj hsid
  exact ⟨_, rfl, _, List.mem_cons_self, by decide⟩

/-- The second request goes out without the cookie that the first response set. -/
theorem cookies_lost : Along step Untouched ⟨Session.plain, World.initial, []⟩ twoRequests ∧
    ∃ s, run step ⟨Session.plain, World.initial, []⟩ twoRequests = some s ∧ ¬Persistent s.log := by
  refine ⟨twoRequests_untouched rfl, _, rfl, ?_⟩
  intro h
  have hcarries := h [] _ _ rfl _ rfl "sid".toList "1".toList (by decide)
  revert hcarries
  decide

end Pyureq.CookiePersistence
