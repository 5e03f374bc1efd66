import Pyureq.Requests.HeaderAssembly
import Pyureq.Requests.Sending

/-! Header values that are given as bytes. `_normalize_headers` reads them as Latin-1, and the
text goes into the request as UTF-8, which doubles every octet above ASCII. -/
namespace Pyureq.HeaderOctets
open PercentCoding PathAgreement Sending HeaderAssembly

/-- The octets of a value that is given as bytes. -/
def octets : PyVal → Option Bytes
  | .bytes v | .bytearray v => some v
  | _ => none

/-- The headers of an argument or attribute with the values as they are given. -/
def givenHeaders (b : Builtins) : Option (HeadersVal b.lower) →
    Except PyErr (OrderedMap Text PyVal)
  | none | some (.val .none) => .ok OrderedMap.empty
  | some (.cid d) => .ok (OrderedMap.ofList d.items)
  | some (.val v) => do
    let items ← v.toDict
    pure (OrderedMap.ofList (items.map fun e => (b.str e.1, e.2)))

/-- The headers of a request: the caller's take the place of the session's. -/
def headersInForce (b : Builtins) (s : Option (Session b.lower)) (kw : Kwargs b.lower) :
    Except PyErr (OrderedMap Text PyVal) :=
  match s with
  | some s => do
    let own ← givenHeaders b (some s.headers)
    let given ← givenHeaders b kw.headers
    pure (own.union given)
  | none => givenHeaders b kw.headers

section Latin1

theorem utf8_latin1_cons (x : UInt8) (v : Bytes) :
    utf8 (latin1 (x :: v)) = String.utf8EncodeChar (Char.ofNat x.toNat) ++ utf8 (latin1 v) := rfl

/-- An octet below 128 stays one octet, any other becomes two. -/
theorem length_utf8_latin1 (v : Bytes) :
    (utf8 (latin1 v)).length = v.length + (v.filter fun x => 128 ≤ x.toNat).length := by
  induction v with
  | nil => rfl
  | cons x v ih =>
    have hval : (Char.ofNat x.toNat).val.toNat = x.toNat := toNat_ofNat_byte x
    have hlt := x.toNat_lt
    rw [utf8_latin1_cons, List.length_append, ih, String.length_utf8EncodeChar,
      List.length_cons]
    by_cases hx : 128 ≤ x.toNat
    · have hsize : (Char.ofNat x.toNat).utf8Size = 2 := by
        rw [Char.utf8Size_eq_two_iff, UInt32.lt_iff_toNat_lt, UInt32.le_iff_toNat_le, hval]
        exact ⟨hx, show x.toNat ≤ 2047 by omega⟩
      rw [hsize, List.filter_cons_of_pos (by simpa using hx), List.length_cons]
      omega
    · have hsize : (Char.ofNat x.toNat).utf8Size = 1 := by
        rw [Char.utf8Size_eq_one_iff, UInt32.le_iff_toNat_le, hval]
        exact show x.toNat ≤ 127 by omega
      rw [hsize, List.filter_cons_of_neg (by simpa using hx)]
      omega

/-- The two charsets agree on ASCII only. -/
theorem utf8_latin1_iff {v : Bytes} : utf8 (latin1 v) = v ↔ ∀ x ∈ v, x.toNat < 128 := by
  constructor
  · intro h x hx
    have hlen := length_utf8_latin1 v
    rw [h, Nat.left_eq_add, List.length_eq_zero_iff, List.filter_eq_nil_iff] at hlen
    simpa using hlen x hx
  · intro h
    induction v with
    | nil => rfl
    | cons x v ih =>
      obtain ⟨hx, hv⟩ := List.forall_mem_cons.mp h
      have hchar := toNat_ofNat_byte x
      rw [utf8_latin1_cons, ih hv, utf8EncodeChar_ascii (by rwa [hchar]), hchar,
        UInt8.ofNat_toNat, List.singleton_append]

end Latin1

section Requests
variable {b : Builtins} {p : Platform} {env : TlsEnv}

/-- Normalising converts each value and nothing else. -/
theorem normalizeHeaders_get? {headers : Option (HeadersVal b.lower)} {m : OrderedMap Text Text}
    {given : OrderedMap Text PyVal} (hm : normalizeHeaders b headers = .ok m)
    (hgiven : givenHeaders b headers = .ok given) (n : Text) :
    m.get? n = (given.get? n).map (coerce b) := by
  have hitems : ∀ v, v ≠ PyVal.none →
      normalizeHeaders b (some (.val v)) = (v.toDict.bind fun items =>
        .ok (OrderedMap.ofList (items.map fun e => (b.str e.1, coerce b e.2)))) ∧
      givenHeaders b (some (.val v)) = (v.toDict.bind fun items =>
        .ok (OrderedMap.ofList (items.map fun e => (b.str e.1, e.2)))) := by
    intro v hv
    cases v <;> first | exact absurd rfl hv | exact ⟨rfl, rfl⟩
  rcases headers with _ | d | v
  · obtain rfl := Except.ok.inj hm
    obtain rfl := Except.ok.inj hgiven
    rfl
  · obtain rfl := Except.ok.inj hm
    obtain rfl := Except.ok.inj hgiven
    exact OrderedMap.get?_ofList_map (coerce b) d.items n
  · by_cases hv : v = .none
    · subst hv
      obtain rfl := Except.ok.inj hm
      obtain rfl := Except.ok.inj hgiven
      rfl
    · obtain ⟨hnormal, hraw⟩ := hitems v hv
      rw [hnormal] at hm
      rw [hraw] at hgiven
      cases hd : v.toDict with
      | error e => simp [hd, Except.bind] at hm
      | ok items =>
        rw [hd] at hm hgiven
        obtain rfl := Except.ok.inj hm
        obtain rfl := Except.ok.inj hgiven
        have h := OrderedMap.get?_ofList_map (coerce b) (items.map fun e => (b.str e.1, e.2)) n
        rw [List.map_map] at h
        exact h

/-- The headers of the request are made from those in force. -/
theorem handed_headers {s : Option (Session b.lower)} {w : World} {method url : Text}
    {kw : Kwargs b.lower} {force : OrderedMap Text PyVal} {h : Handover}
    (hforce : headersInForce b s kw = .ok force)
    (hh : handed b p env s w method url kw = .ok h) :
    ∃ (m : OrderedMap Text Text) (cookies : Option (OrderedMap Text Text))
      (auth : Option (Text × Text)) (contentType : Option Text),
      h.req.headers = requestHeaders p (mapOrNone m) cookies auth contentType ∧
        ∀ n, m.get? n = (force.get? n).map (coerce b) := by
  obtain ⟨args, hargs, hh⟩ := bind_eq_ok.mp hh
  cases s with
  | none =>
    obtain ⟨m, hm, heq⟩ := (prepare_spec hargs).headers
    exact ⟨m, _, _, _, heq ▸ handover_headers hh, normalizeHeaders_get? hm hforce⟩
  | some s =>
    obtain ⟨merged, hmerged, hargs⟩ := bind_eq_ok.mp hargs
    obtain ⟨own, given, hown, hgiven, hheaders⟩ := (merge_spec hmerged).headers
    obtain ⟨m, hm, heq⟩ := (prepare_spec hargs).headers
    rw [hheaders, normalizeHeaders_ofStrDict] at hm
    obtain rfl := Except.ok.inj hm
    obtain ⟨rawOwn, hrawOwn, hforce⟩ := bind_eq_ok.mp hforce
    obtain ⟨rawGiven, hrawGiven, hforce⟩ := bind_eq_ok.mp hforce
    obtain rfl := Except.ok.inj hforce
    refine ⟨own.union given, _, _, _, heq ▸ handover_headers hh, ?_⟩
    intro n
    rw [OrderedMap.get?_union, OrderedMap.get?_union, normalizeHeaders_get? hown hrawOwn,
      normalizeHeaders_get? hgiven hrawGiven, Option.map_or]

/-- A caller's header is sent once, and nothing is sent under its name besides it. -/
theorem filter_requestHeaders {m : OrderedMap Text Text} {n t : Text} (h : m.get? n = some t)
    (cookies : Option (OrderedMap Text Text)) (auth : Option (Text × Text))
    (contentType : Option Text) :
    ((requestHeaders p (mapOrNone m) cookies auth contentType).filter fun e => e.1 = n) =
      [(n, t)] := by
  obtain ⟨own, hperm, heq⟩ := requestHeaders_eq p (mapOrNone m) cookies auth contentType
  rw [callerEntries_mapOrNone] at hperm
  have hmem : (n, t) ∈ own := hperm.mem_iff.mpr (OrderedMap.get?_eq_some.mp h)
  have hnodup : (own.map Prod.fst).Nodup := (hperm.map _).nodup_iff.mpr m.nodup
  have hsent : ((derivedHeaders p cookies auth contentType).filterMap
      (sentHeader (mapOrNone m))).filter (fun e => e.1 = n) = [] := by
    apply List.filter_eq_nil_iff.mpr
    intro e he hn
    obtain ⟨d, -, hd⟩ := List.mem_filterMap.mp he
    obtain ⟨hno, -, hname⟩ := sentHeader_eq_some.mp hd
    have hyes : hasHeader (mapOrNone m) d.1 = true := by
      refine hasHeader_eq_true.mpr ⟨(n, t), ?_, ?_⟩
      · rw [callerEntries_mapOrNone]
        exact OrderedMap.get?_eq_some.mp h
      · rw [← hname, of_decide_eq_true hn]
        exact eqIgnoreAsciiCase_iff.mpr rfl
    rw [hno] at hyes
    contradiction
  rw [heq, List.filter_append, hsent, List.append_nil]
  exact filter_image hnodup hmem

end Requests

/-- A value given as bytes goes into the request with its octets exactly when all of them are
ASCII. -/
theorem octets_kept_iff {b : Builtins} {p : Platform} {env : TlsEnv}
    {s : Option (Session b.lower)} {w : World} {method url : Text} {kw : Kwargs b.lower}
    {force : OrderedMap Text PyVal} {h : Handover} {n : Text} {v : Bytes}
    (hforce : headersInForce b s kw = .ok force) (hv : (force.get? n).bind octets = some v)
    (hh : handed b p env s w method url kw = .ok h) :
    ((h.req.headers.filter fun e => e.1 = n).map fun e => utf8 e.2) = [v] ↔
      ∀ x ∈ v, x.toNat < 128 := by
  obtain ⟨m, cookies, auth, contentType, heq, hget⟩ := handed_headers hforce hh
  obtain ⟨value, hvalue, hoctets⟩ := Option.bind_eq_some_iff.mp hv
  have htext : coerce b value = latin1 v := by
    cases value <;> simp [octets] at hoctets <;> rw [← hoctets] <;> rfl
  have hm : m.get? n = some (latin1 v) := by rw [hget, hvalue, Option.map_some, htext]
  rw [heq, filter_requestHeaders hm, List.map_singleton, List.cons_eq_cons, utf8_latin1_iff]
  simp

/-- `headers={"X-Sig": v}`. -/
def signed (v : Bytes) : Kwargs Builtins.ascii.lower :=
  { headers := some (.val (.dict [(.str "X-Sig".toList, .bytes v)])) }

theorem octets_kept_iff_ascii : ∃ h : Handover,
    handed Builtins.ascii Platform.plain .noFiles (some Session.plain) World.initial "get".toList
      "http://h/".toList (signed [97, 49]) = .ok h ∧
    ((h.req.headers.filter fun e => e.1 = "X-Sig".toList).map fun e => utf8 e.2) = [[97, 49]] := by
  refine ⟨_, rfl, ?_⟩
  apply (@octets_kept_iff Builtins.ascii Platform.plain .noFiles (some Session.plain) World.initial
    "get".toList "http://h/".toList (signed [97, 49]) _ _ "X-Sig".toList [97, 49] rfl rfl rfl).mpr
  exact forall_mem_of_all (by decide)

/-- The octet E9 arrives as the two octets C3 A9. -/
theorem octets_changed : ∃ h : Handover,
    handed Builtins.ascii Platform.plain .noFiles (some Session.plain) World.initial "get".toList
      "http://h/".toList (signed [0xE9]) = .ok h ∧
    ((h.req.headers.filter fun e => e.1 = "X-Sig".toList).map fun e => utf8 e.2) =
      [[0xC3, 0xA9]] ∧
    ((h.req.headers.filter fun e => e.1 = "X-Sig".toList).map fun e => utf8 e.2) ≠ [[0xE9]] := by
  refine ⟨_, rfl, ?_, ?_⟩ <;> decide

end Pyureq.HeaderOctets
