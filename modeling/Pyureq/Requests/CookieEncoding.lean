import Pyureq.Requests.Sending

/-! The derived `Cookie` header as a server reads it. Names and values go into it as they are,
so the delimiters among their characters are read as delimiters. -/
namespace Pyureq.CookieEncoding
open Delimited Sending

/-- The cookie that a server reads from one piece, which it trims and cuts at the first `=`. -/
def serverPair (blank : Char → Bool) (piece : Text) : Option (Text × Text) :=
  match cut '=' (stripBy blank piece) with
  | (name, some value) => some (name, value)
  | (_, none) => none

def serverPairs (blank : Char → Bool) (header : Text) : List (Text × Text) :=
  (header.splitOn ';').filterMap (serverPair blank)

def isCookie (e : Text × Text) : Bool := eqIgnoreAsciiCase e.1 "Cookie".toList

/-- The cookies that a server reads from the `Cookie` headers of a request. -/
def cookiesRead (blank : Char → Bool) (headers : List (Text × Text)) : List (Text × Text) :=
  (headers.filter isCookie).flatMap fun e => serverPairs blank e.2

/-- A cookie without delimiters, and without blanks where the server trims. -/
def CleanPair (blank : Char → Bool) (e : Text × Text) : Prop :=
  (';' ∉ e.1 ∧ '=' ∉ e.1 ∧ ∀ c, e.1.head? = some c → blank c = false) ∧
    ';' ∉ e.2 ∧ ∀ c, e.2.getLast? = some c → blank c = false

def Clean (blank : Char → Bool) (m : OrderedMap Text Text) : Prop :=
  ∀ e ∈ m.entries, CleanPair blank e

section Reading
variable {blank : Char → Bool}

theorem serverPair_eq_some {piece : Text} {e : Text × Text} :
    serverPair blank piece = some e ↔ '=' ∉ e.1 ∧ stripBy blank piece = e.1 ++ '=' :: e.2 := by
  unfold serverPair
  constructor
  · intro h
    split at h
    next name value hcut =>
      obtain rfl := Option.some.inj h
      exact cut_eq_some hcut
    next => cases h
  · rintro ⟨hname, hstrip⟩
    rw [hstrip, cut_append_cons hname]

theorem serverPair_space (hspace : blank ' ' = true) (piece : Text) :
    serverPair blank (' ' :: piece) = serverPair blank piece := by
  unfold serverPair
  rw [stripBy_cons hspace]

/-- A server reads a join piece by piece. -/
theorem serverPairs_intercalate (hspace : blank ' ' = true) (pieces : List Text) :
    serverPairs blank ("; ".toList.intercalate pieces) = pieces.flatMap (serverPairs blank) := by
  have hsep : "; ".toList = [';', ' '] := by decide
  cases pieces with
  | nil =>
    have hempty : serverPair blank [] = none := rfl
    simp [serverPairs, hempty]
  | cons s pieces =>
    rw [hsep, serverPairs,
      filterMap_splitOn_intercalate (by decide) (serverPair_space hspace)]
    rfl

theorem isCookie_name {e : Text × Text} (h : e.1 = "Cookie".toList) : isCookie e = true := by
  rw [isCookie, h]
  decide

/-- Whatever a header says, the cookies that a server reads from it are clean. -/
theorem serverPairs_clean {header : Text} {e : Text × Text} (he : e ∈ serverPairs blank header) :
    CleanPair blank e := by
  obtain ⟨piece, hpiece, hread⟩ := List.mem_filterMap.mp he
  obtain ⟨hname, hstrip⟩ := serverPair_eq_some.mp hread
  have hsemi : ';' ∉ e.1 ++ '=' :: e.2 := by
    rw [← hstrip]
    exact fun hc => notMem_of_mem_splitOn hpiece (mem_of_mem_stripBy hc)
  obtain ⟨hstart, hend⟩ := stripBy_ends blank piece
  rw [hstrip] at hstart hend
  refine ⟨⟨fun hc => hsemi (List.mem_append_left _ hc), hname, ?_⟩,
    fun hc => hsemi (List.mem_append_right _ (List.mem_cons_of_mem _ hc)), ?_⟩
  · intro c hc
    apply hstart c
    rw [List.head?_append, hc]
    rfl
  · intro c hc
    apply hend c
    rw [List.getLast?_append, List.getLast?_cons, hc]
    rfl

/-- A clean cookie is read from its own rendering. -/
theorem serverPair_render (hequals : blank '=' = false) {e : Text × Text}
    (h : CleanPair blank e) : serverPair blank (e.1 ++ '=' :: e.2) = some e := by
  obtain ⟨⟨-, hname, hstart⟩, -, hend⟩ := h
  refine serverPair_eq_some.mpr ⟨hname, stripBy_eq_self_iff.mpr ⟨?_, ?_⟩⟩
  · intro c hc
    cases hn : e.1 with
    | nil =>
      rw [hn] at hc
      obtain rfl := Option.some.inj hc
      exact hequals
    | cons d n =>
      rw [hn] at hc
      exact hstart c (hn ▸ hc)
  · intro c hc
    rw [List.getLast?_append, List.getLast?_cons] at hc
    cases hv : e.2.getLast? with
    | none =>
      rw [hv] at hc
      obtain rfl := Option.some.inj hc
      exact hequals
    | some d =>
      rw [hv] at hc
      obtain rfl := Option.some.inj hc
      exact hend d hv

/-- Clean cookies are read back in the order in which they were written. -/
theorem serverPairs_join (hspace : blank ' ' = true) (hequals : blank '=' = false)
    {es : List (Text × Text)} (hne : es ≠ []) (h : ∀ e ∈ es, CleanPair blank e) :
    serverPairs blank ("; ".toList.intercalate (es.map fun e => e.1 ++ '=' :: e.2)) = es := by
  have hsep : "; ".toList = [';', ' '] := by decide
  have hpiece : ∀ e ∈ es, ((e.1 ++ '=' :: e.2).splitOn ';').filterMap (serverPair blank) = [e] := by
    intro e he
    have hsemi : ';' ∉ e.1 ++ '=' :: e.2 := by
      simp [(h e he).1.1, (h e he).2.1]
    rw [List.splitOn_eq_singleton hsemi, List.filterMap_cons, serverPair_render hequals (h e he)]
    rfl
  obtain ⟨e, rest, rfl⟩ := List.exists_cons_of_ne_nil hne
  rw [serverPairs, hsep, List.map_cons,
    filterMap_splitOn_intercalate (by decide) (serverPair_space hspace),
    ← List.map_cons (f := fun e : Text × Text => e.1 ++ '=' :: e.2), List.flatMap_map,
    List.flatMap_congr hpiece, List.flatMap_singleton']

end Reading

/-- In a request with cookies and no `Cookie` header of the caller's, the one `Cookie` header
gives a server the cookies of the map, and no others, exactly when they are clean. -/
theorem cookies_faithful_iff {p : Platform} {env : TlsEnv} {client : Option RustClient}
    {w : World} {args : RustArgs} {h : Handover} {m : OrderedMap Text Text} {blank : Char → Bool}
    (hspace : blank ' ' = true) (hequals : blank '=' = false) (hm : args.cookies = some m)
    (hne : m.entries ≠ []) (hno : hasHeader args.headers "Cookie".toList = false)
    (hh : handover p env client w args = .ok h) :
    ∃ text, (h.req.headers.filter fun e => eqIgnoreAsciiCase e.1 "Cookie".toList) =
        [("Cookie".toList, text)] ∧
      ((serverPairs blank text).Perm m.entries ↔ Clean blank m) := by
  have hvalue : cookieValue p (some m) = some ("; ".toList.intercalate
      ((p.iteration m).entries.map fun e => e.1 ++ '=' :: e.2)) := by
    rw [cookieValue, if_neg (by simpa using hne)]
  have hperm := p.iteration_perm m
  refine ⟨"; ".toList.intercalate ((p.iteration m).entries.map fun e => e.1 ++ '=' :: e.2), ?_, ?_⟩
  · rw [handover_headers hh, filter_cookie p _ _ _ hno, hm, hvalue]
    rfl
  · constructor
    · intro hsame e he
      exact serverPairs_clean (hsame.mem_iff.mpr he)
    · intro hclean
      have hiteration : (p.iteration m).entries ≠ [] := by
        intro hnil
        rw [hnil] at hperm
        exact hne hperm.nil_eq.symm
      rw [serverPairs_join hspace hequals hiteration fun e he => hclean e (hperm.mem_iff.mp he)]
      exact hperm

/-- `cookies={"a": value}`. -/
def jar (value : String) : OrderedMap Text Text := OrderedMap.ofList [("a".toList, value.toList)]

/-- A call with these cookies and nothing else. -/
def call (value : String) : RustArgs where
  method := "GET".toList
  url := "http://h/".toList
  headers := none
  params := none
  body := none
  contentType := none
  auth := none
  timeout := none
  verify := .bool true
  allowRedirects := .bool true
  cookies := some (jar value)
  noProxyAll := false
  proxy := none

theorem cookies_faithful_iff_plain : ∃ (h : Handover) (text : Text),
    handover Platform.plain .noFiles none World.initial (call "1 2") = .ok h ∧
      (h.req.headers.filter fun e => eqIgnoreAsciiCase e.1 "Cookie".toList) =
        [("Cookie".toList, text)] ∧
      (serverPairs isRustSpace text).Perm (jar "1 2").entries := by
  obtain ⟨text, htext, hiff⟩ := @cookies_faithful_iff Platform.plain .noFiles none World.initial
    (call "1 2") _ (jar "1 2") isRustSpace (by decide) (by decide) rfl (by decide) rfl rfl
  refine ⟨_, text, rfl, htext, hiff.mpr ?_⟩
  have hclean : CleanPair isRustSpace ("a".toList, "1 2".toList) := by
    refine ⟨⟨by decide, by decide, ?_⟩, by decide, ?_⟩
    · intro c hc
      obtain rfl := Option.some.inj hc
      decide
    · intro c hc
      obtain rfl := Option.some.inj hc
      decide
  exact List.forall_mem_singleton.mpr hclean

/-- The value `1; admin=1` makes the server see a cookie of its own. -/
theorem cookie_injected : ∃ (h : Handover) (text : Text),
    handover Platform.plain .noFiles none World.initial (call "1; admin=1") = .ok h ∧
      (h.req.headers.filter fun e => eqIgnoreAsciiCase e.1 "Cookie".toList) =
        [("Cookie".toList, text)] ∧
      serverPairs isRustSpace text =
        [("a".toList, "1".toList), ("admin".toList, "1".toList)] ∧
      (jar "1; admin=1").get? "admin".toList = none ∧
      ¬(serverPairs isRustSpace text).Perm (jar "1; admin=1").entries := by
  refine ⟨_, "a=1; admin=1".toList, rfl, by decide, by decide, by decide, ?_⟩
  intro hperm
  have hlen := hperm.length_eq
  revert hlen
  decide

end Pyureq.CookieEncoding
