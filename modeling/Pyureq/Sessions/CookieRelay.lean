import Pyureq.Requests.CookieEncoding
import Pyureq.Responses.SetCookie
import Pyureq.Sessions.CookiePersistence

/-! A caller who keeps the cookies himself. A `Session` stores none, so after each response he
runs `session.cookies.update(response.cookies)`, and the next requests carry what the servers
set. -/
namespace Pyureq.CookieRelay
open PathAgreement Sending CookieEncoding CookiePersistence SetCookie Runs

/-- One request, and the cookies that its server sets in answer to a request. -/
structure Visit (b : Builtins) where
  p : Platform
  env : TlsEnv
  method : Text
  url : Text
  kw : Kwargs b.lower
  sets : Request → List Field

structure State (b : Builtins) where
  session : Session b.lower
  world : World
  /-- The fields of all responses that the caller got, in their order. -/
  received : List Field
  /-- The requests, the newest first, each with the fields received before it. -/
  visited : List (Request × List Field)

variable {b : Builtins}

/-- `session.cookies.update(response.cookies)`. -/
def storeCookies (s : Session b.lower) (r : Response b.lower) : Session b.lower :=
  match s.cookies with
  | .dict d => { s with cookies := .dict (d ++ r.cookies.entries.map fun e => (.str e.1, .str e.2)) }
  | _ => s

inductive Move (b : Builtins) where
  | visit (v : Visit b)
  /-- Anything else that happens to a session. -/
  | act (a : Lifetime.Action b.lower)

def step (s : State b) : Move b → Option (State b)
  | .visit v =>
    let out := s.session.request b v.p v.env s.world v.method v.url v.kw
    let sent := (Lifetime.sent v.p v.env s.session s.world v.method v.url v.kw).toList
    let session := { s.session with client := out.client }
    let visited := sent.map (fun req => (req, s.received)) ++ s.visited
    match out.result with
    | .ok r => some ⟨storeCookies session r, out.world, s.received ++ sent.flatMap v.sets, visited⟩
    | .error _ => some ⟨session, out.world, s.received, visited⟩
  | .act a =>
    (Lifetime.step ⟨s.session, s.world, []⟩ a).map fun t =>
      { s with session := t.session, world := t.world }

/-- The server sets its cookies in conforming fields, and no piece behind a comma of an
attribute looks like a cookie. -/
def Visit.Serves (v : Visit b) : Prop :=
  ∀ agent cfg r resp, v.p.run agent cfg r = .answered resp →
    (∀ f ∈ resp.headers, isToken f.1 = true) ∧
      ((resp.headers.filter fun f => v.p.toLowercase f.1 = "set-cookie".toList).map
        fun f => v.p.fromUtf8Lossy f.2) = (v.sets r).map Field.render ∧
      ∀ f ∈ v.sets r, f.spurious = []

/-- The caller leaves cookies to the session's dict, and the dict to his updates. -/
def Relays (s : State b) : Move b → Prop
  | .visit v => v.Serves ∧ orNone v.kw.cookies = .none ∧
      NoCookieHeader b (some s.session.headers) ∧ NoCookieHeader b v.kw.headers
  | .act (.set (.cookies _)) => False
  | .act (.request ..) => False
  | .act _ => True

section Jar

theorem meant_append (F G : List Field) (n : Text) :
    (meant (F ++ G)).get? n = ((meant G).get? n).or ((meant F).get? n) := by
  rw [meant, List.map_append, OrderedMap.get?_ofList_append, meant, meant]

theorem assigns_of_quiet {fields : List Field} (h : ∀ f ∈ fields, f.spurious = []) :
    OrderedMap.ofList ((fields.flatMap Field.assigns).map Prod.snd) = meant fields := by
  rw [meant, List.map_flatMap]
  congr 1
  induction fields with
  | nil => rfl
  | cons f fields ih =>
    obtain ⟨hf, hfields⟩ := List.forall_mem_cons.mp h
    rw [List.flatMap_cons, ih hfields, assigns_snd, hf]
    rfl

/-- What a server sets is clean for every server that trims no more than blanks. -/
theorem meant_clean {blank : Char → Bool} (hblank : ∀ c, blank c = true → isSpace c = true)
    {fields : List Field} {m : OrderedMap Text Text}
    (h : ∀ n, m.get? n = (meant fields).get? n) : Clean blank m := by
  rintro ⟨n, v⟩ he
  have hget := h n
  rw [OrderedMap.get?_eq_some.mpr he] at hget
  obtain ⟨before, after, hsplit, -⟩ := get?_ofList_eq_some.mp hget.symm
  have hmem : (n, v) ∈ fields.map fun f => (f.name, f.value) := by simp [hsplit]
  obtain ⟨f, -, hf⟩ := List.mem_map.mp hmem
  obtain ⟨rfl, rfl⟩ := Prod.mk.inj hf
  have hfalse : ∀ c, isSpace c = false → blank c = false := by
    intro c hc
    rw [← Bool.not_eq_true]
    intro hb
    rw [hblank c hb] at hc
    contradiction
  refine ⟨⟨?_, ?_, ?_⟩, ?_, ?_⟩
  · exact fun hc => (name_plain f _ hc).2.1 rfl
  · exact fun hc => (name_plain f _ hc).2.2.1 rfl
  · exact fun c hc => hfalse c (name_plain f c (List.mem_of_mem_head? hc)).2.2.2
  · exact fun hc => (f.value_plain _ hc).2.1 rfl
  · exact fun c hc => hfalse c (f.value_plain c (List.mem_of_mem_getLast? hc)).2.2

/-- A dict of strings is normalised as the map that its items build. -/
theorem normalizeCookies_display (ps : List (Text × Text)) :
    normalizeCookies b (.dict (ps.map fun e => (.str e.1, .str e.2))) =
      .ok (OrderedMap.ofList ps) := by
  rw [normalizeCookies, PyVal.toDict, PyVal.dictItems_str]
  · simp only [bind, Except.bind, pure, Except.pure, strPairs_str, OrderedMap.ofList_entries]
  · simp

end Jar

section Requests

/-- What a server trims: blanks at least, and white space at most. -/
structure Trims (blank : Char → Bool) : Prop where
  space : blank ' ' = true
  only : ∀ c, blank c = true → isSpace c = true

/-- A server reads the cookies that the fields set, each name with its last value. -/
def Reads (req : Request) (fields : List Field) : Prop :=
  ∀ blank, Trims blank → (cookiesRead blank req.headers).Perm (meant fields).entries

theorem cookieValue_reads {p : Platform} {m : OrderedMap Text Text} {blank : Char → Bool}
    (hblank : Trims blank) (hclean : Clean blank m) :
    ((cookieValue p (mapOrNone m)).toList.flatMap (serverPairs blank)).Perm m.entries := by
  have hequals : blank '=' = false := by
    rw [← Bool.not_eq_true]
    exact fun h => absurd (hblank.only _ h) (by decide)
  have hperm := p.iteration_perm m
  cases hm : m.entries.isEmpty with
  | true =>
    rw [List.isEmpty_iff] at hm
    simp [mapOrNone, hm, cookieValue]
  | false =>
    have hne : (p.iteration m).entries ≠ [] := by
      intro hnil
      rw [hnil] at hperm
      simp [← hperm.nil_eq] at hm
    simp only [mapOrNone, hm, cookieValue, Bool.false_eq_true, if_false, Option.toList_some,
      List.flatMap_singleton]
    rw [serverPairs_join hblank.space hequals hne fun e he => hclean e (hperm.mem_iff.mp he)]
    exact hperm

theorem sent_reads {v : Visit b} {s : Session b.lower} {w : World} {ps : List (Text × Text)}
    {fields : List Field} (hps : s.cookies = .dict (ps.map fun e => (.str e.1, .str e.2)))
    (hget : ∀ n, (OrderedMap.ofList ps).get? n = (meant fields).get? n)
    (hcookies : orNone v.kw.cookies = .none) (hown : NoCookieHeader b (some s.headers))
    (hgiven : NoCookieHeader b v.kw.headers) {req : Request}
    (h : Lifetime.sent v.p v.env s w v.method v.url v.kw = some req) : Reads req fields := by
  unfold Lifetime.sent at h
  split at h
  next x hbind =>
    obtain rfl := Option.some.inj h
    obtain ⟨args, hargs, hh⟩ := bind_eq_ok.mp hbind
    obtain ⟨hno, m, hm, hc⟩ := args_cookies hcookies hown hgiven hargs
    rw [hps, normalizeCookies_display] at hm
    obtain rfl := Except.ok.inj hm
    intro blank hblank
    have hfilter := filter_cookie v.p args.cookies args.auth args.contentType hno
    rw [← handover_headers hh, hc] at hfilter
    have hread := cookieValue_reads (p := v.p) hblank (meant_clean hblank.only hget)
    have hcookie : cookiesRead blank x.req.headers = (cookieValue v.p
        (mapOrNone (OrderedMap.ofList ps))).toList.flatMap (serverPairs blank) := by
      unfold cookiesRead isCookie
      rw [hfilter]
      cases cookieValue v.p (mapOrNone (OrderedMap.ofList ps)) <;> rfl
    rw [hcookie]
    exact hread.trans (OrderedMap.entries_perm hget)
  next => cases h

/-- A response reports what its server set. -/
theorem answer_cookies {v : Visit b} (hv : v.Serves) {s : Session b.lower} {w : World}
    {r : Response b.lower}
    (h : (s.request b v.p v.env w v.method v.url v.kw).result = .ok r) :
    ∃ req, Lifetime.sent v.p v.env s w v.method v.url v.kw = some req ∧
      r.cookies = meant (v.sets req) := by
  rcases Lifetime.sent_cases v.p v.env s w v.method v.url v.kw with
    ⟨-, e, he⟩ | ⟨hh, hsent, hresult⟩
  · rw [he] at h
    cases h
  · refine ⟨hh.req, hsent, ?_⟩
    rw [hresult] at h
    cases hrun : v.p.run hh.agent hh.cfg hh.req with
    | panicked | failed =>
      rw [hrun] at h
      cases h
    | answered resp =>
      rw [hrun, receive] at h
      cases hraw : rawResponse v.p resp with
      | error e =>
        rw [hraw] at h
        cases h
      | ok raw =>
        rw [hraw] at h
        obtain rfl := Except.ok.inj h
        obtain ⟨hnames, hfields, hquiet⟩ := hv _ _ _ _ hrun
        rw [cookies_eq hnames hfields hraw, assigns_of_quiet hquiet]

end Requests

section Runs

/-- The jar has what was received, and so had it at every request. -/
structure Kept (s : State b) : Prop where
  jar : ∃ ps : List (Text × Text),
    s.session.cookies = .dict (ps.map fun e => (.str e.1, .str e.2)) ∧
      ∀ n, (OrderedMap.ofList ps).get? n = (meant s.received).get? n
  visits : ∀ x ∈ s.visited, Reads x.1 x.2

theorem visit_kept {s t : State b} {v : Visit b} (h : Kept s) (hv : Relays s (.visit v))
    (hs : step s (.visit v) = some t) : Kept t := by
  obtain ⟨hserves, hcookies, hown, hgiven⟩ := hv
  obtain ⟨ps, hps, hget⟩ := h.jar
  have hvisits : ∀ x ∈ (Lifetime.sent v.p v.env s.session s.world v.method v.url v.kw).toList.map
      (fun req => (req, s.received)) ++ s.visited, Reads x.1 x.2 := by
    refine List.forall_mem_append.mpr ⟨?_, h.visits⟩
    intro x hx
    obtain ⟨req, hreq, rfl⟩ := List.mem_map.mp hx
    exact sent_reads hps hget hcookies hown hgiven (Option.mem_toList.mp hreq)
  rw [step] at hs
  dsimp only at hs
  split at hs
  next r hr =>
    obtain rfl := Option.some.inj hs
    obtain ⟨req, hsent, hread⟩ := answer_cookies hserves hr
    refine ⟨⟨ps ++ (meant (v.sets req)).entries, ?_, ?_⟩, hvisits⟩
    · simp only [storeCookies, hps, hread, List.map_append]
    · intro n
      simp only [hsent, Option.toList_some, List.flatMap_singleton]
      rw [OrderedMap.get?_ofList_append, OrderedMap.ofList_entries, hget, meant_append]
  next e he =>
    obtain rfl := Option.some.inj hs
    exact ⟨⟨ps, hps, hget⟩, hvisits⟩

theorem act_kept {s t : State b} {a : Lifetime.Action b.lower} (h : Kept s)
    (ha : Relays s (.act a)) (hs : step s (.act a) = some t) : Kept t := by
  obtain ⟨u, hu, rfl⟩ := Option.map_eq_some_iff.mp hs
  suffices hcookies : u.session.cookies = s.session.cookies from ⟨hcookies ▸ h.jar, h.visits⟩
  cases a with
  | set a =>
    obtain rfl := Option.some.inj hu
    cases a with
    | cookies v => exact False.elim ha
    | _ => rfl
  | setVerify env v =>
    obtain rfl := Option.some.inj hu
    simp only [Session.setVerify]
    split <;> rfl
  | close =>
    obtain rfl := Option.some.inj hu
    rfl
  | request p env method url kw => exact False.elim ha
  | elsewhere env mode =>
    obtain ⟨w, rfl⟩ := Lifetime.step_elsewhere hu
    rfl

theorem step_kept {s t : State b} {m : Move b} (h : Kept s) (hm : Relays s m)
    (hs : step s m = some t) : Kept t := by
  cases m with
  | visit v => exact visit_kept h hm hs
  | act a => exact act_kept h hm hs

/-- In every run of a session whose cookie dict starts empty, every request gives its server
exactly the cookies that were set before, each with the last value that was set, whichever requests
fail and whatever is done to the other attributes. Each server sets its cookies in conforming
fields, in which no piece behind a comma looks like a cookie (`Visit.Serves`). The caller updates
the dict from each response he gets, assigns to it in no other way, and gives his requests neither
cookies nor a `Cookie` header of their own (`Relays`). -/
theorem relayed_cookies_arrive {b : Builtins} {session : Session b.lower} {w : World}
    {moves : List (Move b)} {s : State b} (hjar : session.cookies = .dict [])
    (hrelays : Along step Relays ⟨session, w, [], []⟩ moves)
    (hrun : run step ⟨session, w, [], []⟩ moves = some s) :
    ∀ x ∈ s.visited, Reads x.1 x.2 := by
  have hstart : Kept (⟨session, w, [], []⟩ : State b) := ⟨⟨[], hjar, fun _ => rfl⟩, by simp⟩
  have hend : Kept s := run_invariant_along (fun _ _ _ => step_kept) hstart hrelays hrun
  exact hend.visits

/-- `loginServer` as a visit. -/
def login : Visit Builtins.ascii where
  p := loginServer
  env := .noFiles
  method := "get".toList
  url := "http://h/".toList
  kw := {}
  sets _ := [{ expires with attrs := [], attrs_plain := by simp }]

theorem login_serves : login.Serves := by
  intro agent cfg r resp hresp
  obtain rfl := RunEnd.answered.inj hresp
  exact ⟨List.forall_mem_singleton.mpr (by decide), rfl, List.forall_mem_singleton.mpr (by decide)⟩

theorem relayed_cookies_arrive_login : ∃ s,
    run step ⟨Session.plain, World.initial, [], []⟩ [.visit login, .visit login] = some s ∧
      s.visited.map (fun x => (x.2.map fun f => (f.name, f.value))) =
        [[("sid".toList, "1".toList)], []] ∧
      ∀ x ∈ s.visited, Reads x.1 x.2 := by
  have hrelays : ∀ s : State Builtins.ascii, s.session.headers = Session.plain.headers →
      Relays s (.visit login) := by
    intro s hs
    obtain ⟨hcookies, hown, hgiven⟩ := untouched_request (s := ⟨s.session, s.world, []⟩) hs
      Platform.plain .noFiles "get".toList "http://h/".toList
    exact ⟨login_serves, hcookies, hown, hgiven⟩
  refine ⟨_, rfl, rfl, ?_⟩
  have halong : Along step Relays ⟨Session.plain, World.initial, [], []⟩
      [.visit login, .visit login] :=
    along_cons (hrelays _ rfl) rfl (along_cons (hrelays _ rfl) rfl trivial)
  exact relayed_cookies_arrive rfl halong rfl

end Runs
end Pyureq.CookieRelay
