import Pyureq.Requests.CookieEncoding
import Pyureq.Responses.HeaderFolding
import Pyureq.Sessions.Lifetime

/-! The order in which Rust iterates a `HashMap` changes from map to map. It decides the order of
the headers and cookies of a request and of the headers of a response, and nothing else. -/
namespace Pyureq.HashOrder
open Delimited PathAgreement Sending CookieEncoding Lifetime

/-- Two requests that differ in the order of their headers and of the cookies in them only. -/
structure Alike (r r' : Request) : Prop where
  method : r'.method = r.method
  uri : r'.uri = r.uri
  body : r'.body = r.body
  headers : (r.headers.filter fun e => !isCookie e).Perm (r'.headers.filter fun e => !isCookie e)
  cookies : ∀ blank, blank ' ' = true →
    (cookiesRead blank r.headers).Perm (cookiesRead blank r'.headers)

theorem Alike.refl (r : Request) : Alike r r :=
  ⟨rfl, rfl, rfl, List.Perm.refl _, fun _ _ => List.Perm.refl _⟩

/-- The same machine, but for the order of its maps, in front of a server to which requests
that are alike are one request. -/
structure Reordered (p q : Platform) : Prop where
  toUppercase : q.toUppercase = p.toUppercase
  toLowercase : q.toLowercase = p.toLowercase
  fromUtf8Lossy : q.fromUtf8Lossy = p.fromUtf8Lossy
  base64 : q.base64 = p.base64
  checkRequest : q.checkRequest = p.checkRequest
  newProxy : q.newProxy = p.newProxy
  run : ∀ agent cfg r r', Alike r r' → q.run agent cfg r' = p.run agent cfg r

/-- The builder looks at the method and the URI, and at the name and at each character of the
value of each header. -/
def ChecksEach (p : Platform) : Prop :=
  ∃ (line : Text → Text → Prop) (name : Text → Prop) (char : Char → Prop), ∀ r,
    p.checkRequest r = .ok () ↔
      line r.method r.uri ∧ ∀ e ∈ r.headers, name e.1 ∧ ∀ c ∈ e.2, char c

/-- What ureq returns has been parsed as HTTP. -/
def ParsesFields (p : Platform) : Prop :=
  ∀ agent cfg r resp, p.run agent cfg r = .answered resp → ∀ f ∈ resp.headers, isToken f.1 = true

variable {b : Builtins}

/-- Two responses that a caller cannot tell apart but by the order of their headers. -/
structure SameResponse (b : Builtins) (r r' : Response b.lower) : Prop where
  raw : r'.raw = r.raw
  items : r.headers.items.Perm r'.headers.items
  getItem : ∀ n, r'.headers.getItem n = r.headers.getItem n
  cookies : r'.cookies = r.cookies
  links : r'.links = r.links
  text : ∀ codecs override, r'.text b codecs override = r.text b codecs override

def SameEnd (b : Builtins) :
    Except PyErr (Response b.lower) → Except PyErr (Response b.lower) → Prop :=
  ExceptRel (fun e f => f.cls = e.cls) (SameResponse b)

section Requests
variable {p q : Platform}

/-- The same pieces joined in two orders. -/
def Rejoined (v v' : Text) : Prop :=
  ∃ ps qs : List Text, ps.Perm qs ∧ v = "; ".toList.intercalate ps ∧
    v' = "; ".toList.intercalate qs

theorem cookieValue_rejoined (p q : Platform) (cookies : Option (OrderedMap Text Text)) :
    Option.Rel Rejoined (cookieValue p cookies) (cookieValue q cookies) := by
  cases cookies with
  | none => exact Option.Rel.none
  | some m =>
    rw [cookieValue, cookieValue]
    by_cases hm : m.entries.isEmpty = true
    · rw [if_pos hm, if_pos hm]
      exact Option.Rel.none
    · rw [if_neg hm, if_neg hm]
      have hperm := (p.iteration_perm m).trans (q.iteration_perm m).symm
      exact Option.Rel.some ⟨_, _, hperm.map _, rfl, rfl⟩

/-- Two derived `Cookie` headers. -/
structure SameCookie (e e' : Text × Text) : Prop where
  left : e.1 = "Cookie".toList
  right : e'.1 = "Cookie".toList
  rejoined : Rejoined e.2 e'.2

theorem sentHeader_present {headers : Option (OrderedMap Text Text)} {n : Text}
    (h : hasHeader headers n = true) (v : Option Text) : sentHeader headers (n, v) = none :=
  if_pos h

theorem sentHeader_absent {headers : Option (OrderedMap Text Text)} {n : Text}
    (h : hasHeader headers n = false) (v : Option Text) :
    sentHeader headers (n, v) = v.map fun t => (n, t) := if_neg (by simp [h])

/-- The header lists of two machines: the caller's headers in two orders, the derived cookies,
and the other derived headers, which are the same. -/
theorem requestHeaders_split (h : Reordered p q) (headers cookies : Option (OrderedMap Text Text))
    (auth : Option (Text × Text)) (contentType : Option Text) :
    ∃ (own own' rest : List (Text × Text)) (d d' : Option (Text × Text)), own.Perm own' ∧
      Option.Rel SameCookie d d' ∧
      requestHeaders p headers cookies auth contentType = own ++ (d.toList ++ rest) ∧
      requestHeaders q headers cookies auth contentType = own' ++ (d'.toList ++ rest) := by
  obtain ⟨own, hown, hp⟩ := requestHeaders_eq p headers cookies auth contentType
  obtain ⟨own', hown', hq⟩ := requestHeaders_eq q headers cookies auth contentType
  have hcredentials : basicCredentials q = basicCredentials p := by
    funext a
    exact congrArg (fun base64 => "Basic ".toList ++
      base64 (PercentCoding.utf8 (a.1 ++ ':' :: a.2))) h.base64
  have happend : ∀ p : Platform, (derivedHeaders p cookies auth contentType).filterMap
      (sentHeader headers) = (sentHeader headers ("Cookie".toList, cookieValue p cookies)).toList ++
        [("Authorization".toList, auth.map (basicCredentials p)),
          ("Content-Type".toList, contentType)].filterMap (sentHeader headers) := by
    intro p
    rw [derivedHeaders, List.filterMap_cons]
    cases sentHeader headers ("Cookie".toList, cookieValue p cookies) <;> rfl
  rw [happend] at hp hq
  rw [hcredentials] at hq
  refine ⟨own, own', _, _, _, hown.trans hown'.symm, ?_, hp, hq⟩
  have hvalue := cookieValue_rejoined p q cookies
  cases hno : hasHeader headers "Cookie".toList with
  | true =>
    rw [sentHeader_present hno, sentHeader_present hno]
    exact Option.Rel.none
  | false =>
    rw [sentHeader_absent hno, sentHeader_absent hno]
    generalize cookieValue p cookies = v at hvalue ⊢
    generalize cookieValue q cookies = v' at hvalue ⊢
    cases hvalue with
    | none => exact Option.Rel.none
    | some hv => exact Option.Rel.some ⟨rfl, rfl, hv⟩

theorem request_alike (h : Reordered p q) (call : CallArgs) :
    Alike (request p call) (request q call) := by
  obtain ⟨own, own', rest, d, d', hown, hderived, hp, hq⟩ :=
    requestHeaders_split h call.headers call.cookies call.auth call.contentType
  refine ⟨by rw [request, request, h.toUppercase], rfl, rfl, ?_, ?_⟩
  · have hnone : (d.toList.filter fun e => !isCookie e) = [] ∧
        (d'.toList.filter fun e => !isCookie e) = [] := by
      cases hderived with
      | none => exact ⟨rfl, rfl⟩
      | some he => simp [isCookie_name he.left, isCookie_name he.right]
    rw [request, request, hp, hq]
    simp only [List.filter_append, hnone.1, hnone.2, List.nil_append]
    exact (hown.filter _).append_right _
  · intro blank hspace
    have hread : (cookiesRead blank d.toList).Perm (cookiesRead blank d'.toList) := by
      cases hderived with
      | none => exact List.Perm.refl _
      | @some e e' he =>
        have hpiece : ∀ {e : Text × Text}, e.1 = "Cookie".toList →
            cookiesRead blank (some e).toList = serverPairs blank e.2 := by
          intro e he
          simp [cookiesRead, isCookie_name he]
        obtain ⟨ps, qs, hperm, hv, hv'⟩ := he.rejoined
        rw [hpiece he.left, hpiece he.right, hv, hv', serverPairs_intercalate hspace,
          serverPairs_intercalate hspace]
        exact hperm.flatMap_right _
    have happend : ∀ l m n, cookiesRead blank (l ++ (m ++ n)) =
        cookiesRead blank l ++ (cookiesRead blank m ++ cookiesRead blank n) := by
      intro l m n
      simp only [cookiesRead, List.filter_append, List.flatMap_append]
    rw [request, request, hp, hq, happend, happend]
    exact ((hown.filter _).flatMap_right _).append (hread.append_right _)

/-- The builder accepts both requests or neither. -/
theorem checkRequest_iff (h : Reordered p q) (hcheck : ChecksEach p) (call : CallArgs) :
    p.checkRequest (request p call) = .ok () ↔ q.checkRequest (request q call) = .ok () := by
  obtain ⟨line, name, char, hcheck⟩ := hcheck
  obtain ⟨own, own', rest, d, d', hown, hderived, hp, hq⟩ :=
    requestHeaders_split h call.headers call.cookies call.auth call.contentType
  have hvalues : (∀ e ∈ d.toList, name e.1 ∧ ∀ c ∈ e.2, char c) ↔
      ∀ e ∈ d'.toList, name e.1 ∧ ∀ c ∈ e.2, char c := by
    cases hderived with
    | none => exact Iff.rfl
    | some he =>
      obtain ⟨ps, qs, hperm, hv, hv'⟩ := he.rejoined
      have hchars := @intercalate_perm _ "; ".toList _ _ hperm
      simp only [Option.toList_some, List.forall_mem_singleton, he.left, he.right, hv, hv',
        hchars.mem_iff]
  have halike := request_alike h call
  rw [h.checkRequest, hcheck, hcheck, halike.method, halike.uri, request, request, hp, hq]
  simp only [List.forall_mem_append, hvalues, hown.mem_iff]

/-- Up to the point where ureq is called, the two machines do the same. -/
theorem handover_alike (h : Reordered p q) (hcheck : ChecksEach p) (env : TlsEnv)
    (client : Option RustClient) (w : World) (args : RustArgs) :
    ExceptRel (fun e f => f = e ∨ e.cls = .valueError ∧ f.cls = .valueError)
      (fun x y => y.agent = x.agent ∧ y.cfg = x.cfg ∧ Alike x.req y.req)
      (handover p env client w args) (handover q env client w args) := by
  have hconfig : ∀ call, requestConfig q call = requestConfig p call := by
    intro call
    simp only [requestConfig, proxySetting, h.newProxy]
  unfold handover reach
  cases extractArgs args with
  | error e => exact ExceptRel.error (Or.inl rfl)
  | ok given =>
    cases pickAgent env client w args.verify with
    | error e => exact ExceptRel.error (Or.inl rfl)
    | ok agent =>
      have hiff := checkRequest_iff h hcheck (executeArgs client given)
      simp only [bind, Except.bind]
      cases hp : p.checkRequest (request p (executeArgs client given)) with
      | error e =>
        cases hq : q.checkRequest (request q (executeArgs client given)) with
        | error f => exact ExceptRel.error (Or.inr ⟨rfl, rfl⟩)
        | ok u => simp [hp, hq] at hiff
      | ok u =>
        rw [hiff.mp hp]
        simp only [hconfig]
        cases requestConfig p (executeArgs client given) with
        | error e => exact ExceptRel.error (Or.inl rfl)
        | ok cfg => exact ExceptRel.ok ⟨rfl, rfl, request_alike h _⟩

end Requests

section Responses
variable {p q : Platform}

theorem SameResponse.refl (r : Response b.lower) : SameResponse b r r :=
  ⟨rfl, List.Perm.refl _, fun _ => rfl, rfl, rfl, fun _ _ => rfl⟩

theorem SameEnd.refl (x : Except PyErr (Response b.lower)) : SameEnd b x x := by
  cases x with
  | error e => exact ExceptRel.error rfl
  | ok r => exact ExceptRel.ok (SameResponse.refl r)

theorem headersOut_eq (h : Reordered p q) : headersOut q = headersOut p := by
  have hfold : foldHeader q = foldHeader p := by
    funext m f
    simp only [foldHeader, h.fromUtf8Lossy, h.toLowercase]
  funext fields
  rw [headersOut, headersOut, hfold]

/-- What is made of an answer before its headers are handed to Python does not iterate. -/
theorem rawResponse_eq (h : Reordered p q) : rawResponse q = rawResponse p := by
  have hcharset : charsetOf q = charsetOf p := by
    funext ct
    simp only [charsetOf, h.toLowercase]
  funext resp
  simp only [rawResponse, headersOut_eq h, hcharset]

theorem init_same (h : Reordered p q) {resp : HttpResponse} {raw : RawResponse}
    (hnames : ∀ f ∈ resp.headers, isToken f.1 = true)
    (hraw : raw.headers = headersOut p resp.headers) :
    SameResponse b (Response.init b.lower p raw) (Response.init b.lower q raw) := by
  have hkeys : ∀ k ∈ raw.headers.keys, b.lower k = k := by
    rw [hraw]
    exact Response.lower_headersOut hnames
  have hget : ∀ n, (Response.init b.lower q raw).headers.getItem n =
      (Response.init b.lower p raw).headers.getItem n := by
    intro n
    rw [Response.init_getItem hkeys, Response.init_getItem hkeys]
  have hraw' : raw.headers = headersOut q resp.headers := by rw [hraw, headersOut_eq h]
  have hitems := HeaderFolding.items_perm (b := b) hnames hraw'
  rw [headersOut_eq h] at hitems
  refine ⟨rfl, (HeaderFolding.items_perm hnames hraw).trans hitems.symm, hget, ?_, ?_, ?_⟩
  · simp only [Response.cookies, hget]
  · simp only [Response.links, hget]
  · intro codecs override
    have hencoding : (Response.init b.lower q raw).encoding b override =
        (Response.init b.lower p raw).encoding b override := by
      simp only [Response.encoding, hget]
      rfl
    rw [Response.text, Response.text, hencoding]
    rfl

theorem exceptChain_cls {e f : PyErr} (h : f = e ∨ e.cls = .valueError ∧ f.cls = .valueError) :
    (exceptChain f).cls = (exceptChain e).cls := by
  rcases h with rfl | ⟨he, hf⟩
  · rfl
  · obtain ⟨c, m⟩ := e
    obtain ⟨c', m'⟩ := f
    obtain rfl : c = .valueError := he
    obtain rfl : c' = .valueError := hf
    rfl

theorem respond_same (h : Reordered p q) {x : RunEnd}
    (hfields : ∀ resp, x = .answered resp → ∀ f ∈ resp.headers, isToken f.1 = true) :
    SameEnd b (respond b p (receive p x)) (respond b q (receive q x)) := by
  cases x with
  | panicked | failed => exact ExceptRel.error rfl
  | answered resp =>
    rw [receive, receive, rawResponse_eq h]
    cases hraw : rawResponse p resp with
    | error e => exact ExceptRel.error rfl
    | ok raw => exact ExceptRel.ok (init_same h (hfields resp rfl) (rawResponse_ok hraw).1)

end Responses

section Calls
variable {p q : Platform}

/-- A call ends the same on both machines. -/
theorem callRust_end (h : Reordered p q) (hcheck : ChecksEach p) (hfields : ParsesFields p)
    (env : TlsEnv) (client : Option RustClient) (w : World) (args : RustArgs) :
    SameEnd b (respond b p (callRust p env client w args).result)
      (respond b q (callRust q env client w args).result) := by
  have hhandover := handover_alike h hcheck env client w args
  rw [callRust_eq, callRust_eq]
  generalize handover p env client w args = x at hhandover ⊢
  generalize handover q env client w args = y at hhandover ⊢
  cases hhandover with
  | error he => exact ExceptRel.error (exceptChain_cls he)
  | @ok x y hxy =>
    obtain ⟨hagent, hcfg, halike⟩ := hxy
    simp only [Except.bind, hagent, hcfg, h.run _ _ _ _ halike]
    exact respond_same h (hfields _ _ _)

/-- And it leaves the same behind. -/
theorem callRust_leaves (p q : Platform) (env : TlsEnv) (client : Option RustClient) (w : World)
    (args : RustArgs) :
    (callRust q env client w args).client = (callRust p env client w args).client ∧
      (callRust q env client w args).world = (callRust p env client w args).world := by
  cases client with
  | some c =>
    simp only [callRust, RustClient.request]
    cases extractArgs args <;> exact ⟨rfl, rfl⟩
  | none =>
    simp only [callRust, httpRequest]
    cases extractArgs args with
    | error e => exact ⟨rfl, rfl⟩
    | ok call => cases oneShotAgent env (pyOption args.verify) w <;> exact ⟨rfl, rfl⟩

variable (h : Reordered p q) (hcheck : ChecksEach p) (hfields : ParsesFields p) (env : TlsEnv)
  (s : Session b.lower) (w : World) (method url : Text) (kw : Kwargs b.lower)

include h hcheck

theorem sent_same :
    Option.Rel Alike (sent p env s w method url kw) (sent q env s w method url kw) := by
  rw [sent, sent]
  cases sessionArgs b s method url kw with
  | error e => exact Option.Rel.none
  | ok args =>
    have hhandover := handover_alike h hcheck env s.client w args
    simp only [Except.bind]
    generalize handover p env s.client w args = x at hhandover ⊢
    generalize handover q env s.client w args = y at hhandover ⊢
    cases hhandover with
    | error he => exact Option.Rel.none
    | ok hxy => exact Option.Rel.some hxy.2.2

include hfields

theorem request_end : SameEnd b (s.request b p env w method url kw).result
    (s.request b q env w method url kw).result := by
  rw [request_result, request_result]
  cases sessionArgs b s method url kw with
  | error e => exact ExceptRel.error rfl
  | ok args => exact callRust_end h hcheck hfields env s.client w args

theorem stateless_end : SameEnd b (statelessRequest b p env w method url kw).result
    (statelessRequest b q env w method url kw).result := by
  rw [statelessRequest_result, statelessRequest_result]
  cases statelessArgs b method url kw with
  | error e => exact ExceptRel.error rfl
  | ok args => exact callRust_end h hcheck hfields env none w args

omit h hcheck hfields in
theorem request_leaves (p q : Platform) :
    (s.request b q env w method url kw).client = (s.request b p env w method url kw).client ∧
      (s.request b q env w method url kw).world = (s.request b p env w method url kw).world := by
  unfold Session.request dispatch
  cases s.merge b kw with
  | error e => exact ⟨rfl, rfl⟩
  | ok merged =>
    simp only
    cases prepare b (b.upper method) url merged with
    | error e => exact ⟨rfl, rfl⟩
    | ok args => exact callRust_leaves p q env s.client w args

end Calls

section Runs
open Runs

structure SameExchange (x y : Exchange b.lower) : Prop where
  sent : Option.Rel Alike x.sent y.sent
  answer : SameEnd b x.answer y.answer

structure SameState (s t : State b.lower) : Prop where
  session : t.session = s.session
  world : t.world = s.world
  log : List.Forall₂ SameExchange s.log t.log

/-- One action of a program on two machines. -/
inductive SameAction : Action b.lower → Action b.lower → Prop where
  | same (a : Action b.lower) : SameAction a a
  | request {p q : Platform} (h : Reordered p q) (hcheck : ChecksEach p)
      (hfields : ParsesFields p) (env : TlsEnv) (method url : Text) (kw : Kwargs b.lower) :
      SameAction (.request p env method url kw) (.request q env method url kw)

theorem Alike.option_refl (r : Option Request) : Option.Rel Alike r r := by
  cases r with
  | none => exact Option.Rel.none
  | some r => exact Option.Rel.some (Alike.refl r)

theorem step_same {s t : State b.lower} {a a' : Action b.lower} (hs : SameState s t)
    (ha : SameAction a a') : Option.Rel SameState (step s a) (step t a') := by
  obtain ⟨_, _, log⟩ := s
  obtain ⟨session, world, log'⟩ := t
  obtain ⟨rfl, rfl, hlog⟩ := hs
  cases ha with
  | same a =>
    cases a with
    | set a => exact Option.Rel.some ⟨rfl, rfl, hlog⟩
    | setVerify env value => exact Option.Rel.some ⟨rfl, rfl, hlog⟩
    | close => exact Option.Rel.some ⟨rfl, rfl, hlog⟩
    | request p env method url kw =>
      exact Option.Rel.some ⟨rfl, rfl,
        List.Forall₂.cons ⟨Alike.option_refl _, SameEnd.refl _⟩ hlog⟩
    | elsewhere env mode =>
      rw [step, step]
      cases buildAgent env mode world with
      | error e => exact Option.Rel.some ⟨rfl, rfl, hlog⟩
      | ok r => exact Option.Rel.some ⟨rfl, rfl, hlog⟩
  | @request p q h hcheck hfields env method url kw =>
    obtain ⟨hclient, hworld⟩ := request_leaves env session world method url kw p q
    refine Option.Rel.some ⟨?_, hworld, List.Forall₂.cons ⟨?_, ?_⟩ hlog⟩
    · simp only [hclient]
    · exact sent_same h hcheck env session world method url kw
    · exact request_end h hcheck hfields env session world method url kw

/-- A program cannot tell in which order maps are iterated, nor can a server that reads headers
and cookies by their names: on machines that differ in it, maybe from request to request, runs
of a session send requests that are alike, get responses that read the same or errors of the
same class, and leave the same session. A call without a session ends the same, too. -/
theorem hash_order_unobservable {b : Builtins} {s t : State b.lower}
    {as bs : List (Action b.lower)} (hs : SameState s t) (h : List.Forall₂ SameAction as bs) :
    Option.Rel SameState (run step s as) (run step t bs) ∧
      ∀ p q, Reordered p q → ChecksEach p → ParsesFields p → ∀ env w method url kw,
        SameEnd b (statelessRequest b p env w method url kw).result
          (statelessRequest b q env w method url kw).result := by
  have hstep : ∀ (s t : State b.lower) a a', SameState s t → SameAction a a' →
      Option.Rel SameState (step s a) (step t a') := fun _ _ _ _ => step_same
  refine ⟨run_lockstep hstep hs h, ?_⟩
  intro p q hreordered hcheck hfields env w method url kw
  exact stateless_end hreordered hcheck hfields env w method url kw

/-- `Platform.plain` with maps that are iterated from their end. -/
def backwards : Platform where
  toUppercase := Platform.plain.toUppercase
  toLowercase := Platform.plain.toLowercase
  fromUtf8Lossy := Platform.plain.fromUtf8Lossy
  base64 := Platform.plain.base64
  iteration m := ⟨m.entries.reverse, by
    rw [List.map_reverse]
    exact List.nodup_reverse.mpr m.nodup⟩
  checkRequest := Platform.plain.checkRequest
  newProxy := Platform.plain.newProxy
  run := Platform.plain.run
  toLowercase_ascii := Platform.plain.toLowercase_ascii
  iteration_perm m := List.reverse_perm m.entries
  checkRequest_names := Platform.plain.checkRequest_names

theorem backwards_reordered : Reordered Platform.plain backwards where
  toUppercase := rfl
  toLowercase := rfl
  fromUtf8Lossy := rfl
  base64 := rfl
  checkRequest := rfl
  newProxy := rfl
  run agent cfg r r' h := by
    show Platform.plain.run agent cfg r' = Platform.plain.run agent cfg r
    simp only [Platform.plain, h.uri]

theorem plain_checksEach : ChecksEach Platform.plain := by
  refine ⟨fun _ _ => True, fun n => isToken n = true, fun _ => True, ?_⟩
  intro r
  have hall : (r.headers.all fun e => isToken e.1) = true ↔
      ∀ e ∈ r.headers, isToken e.1 = true := List.all_eq_true
  simp only [Platform.plain, true_and, implies_true, and_true, ← hall]
  split <;> simp [*]

theorem plain_parsesFields : ParsesFields Platform.plain := by
  intro agent cfg r resp hresp
  simp only [Platform.plain] at hresp
  split at hresp
  · cases hresp
  · obtain rfl := RunEnd.answered.inj hresp
    simp

/-- Two cookies, and a request with them. -/
def jarRun (p : Platform) : List (Action Builtins.ascii.lower) :=
  [.set (.cookies (.dict [(.str "a".toList, .str "1".toList), (.str "b".toList, .str "2".toList)])),
    .request p .noFiles "get".toList "http://h/".toList {}]

def cookieText (s : State Builtins.ascii.lower) : List Text :=
  s.log.flatMap fun x => x.sent.toList.flatMap fun r => (r.headers.filter isCookie).map Prod.snd

theorem hash_order_unobservable_jar : ∃ x y,
    run step (start Builtins.ascii.lower RustClient.plain World.initial) (jarRun Platform.plain) =
      some x ∧
    run step (start Builtins.ascii.lower RustClient.plain World.initial) (jarRun backwards) =
      some y ∧
    SameState x y ∧ cookieText x = ["a=1; b=2".toList] ∧ cookieText y = ["b=2; a=1".toList] := by
  have hs : SameState (start Builtins.ascii.lower RustClient.plain World.initial)
      (start Builtins.ascii.lower RustClient.plain World.initial) :=
    ⟨rfl, rfl, List.Forall₂.nil⟩
  have has : List.Forall₂ SameAction (jarRun Platform.plain) (jarRun backwards) :=
    .cons (.same _) (.cons (.request backwards_reordered plain_checksEach plain_parsesFields _ _ _ _) .nil)
  have h := (hash_order_unobservable hs has).1
  refine ⟨_, _, rfl, rfl, ?_, rfl, rfl⟩
  cases h with
  | some h => exact h

end Runs
end Pyureq.HashOrder
