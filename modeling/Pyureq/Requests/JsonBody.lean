import Pyureq.Python.Json
import Pyureq.Requests.Sending

/-! JSON over a request: the body that `json=` sends, and what `Response.json()` makes of an
answer. -/
namespace Pyureq

/-- The encodings that `json.detect_encoding` tells apart. -/
inductive JsonEncoding where
  | utf8 | utf8Sig | utf16 | utf16be | utf16le | utf32 | utf32be | utf32le
  deriving DecidableEq

/-- `bytes.decode(encoding, "surrogatepass")`. -/
structure UnicodeCodecs where
  decode : JsonEncoding → Bytes → Except PyErr Text
  decode_utf8 : ∀ s, decode .utf8 (PercentCoding.utf8 s) = .ok s

def byteOrderMarks : List (Bytes × JsonEncoding) :=
  [([0, 0, 0xFE, 0xFF], .utf32), ([0xFF, 0xFE, 0, 0], .utf32), ([0xFE, 0xFF], .utf16),
    ([0xFF, 0xFE], .utf16), ([0xEF, 0xBB, 0xBF], .utf8Sig)]

/-- Without a mark the zero octets among the first ones tell. -/
def encodingByZeros : Bytes → JsonEncoding
  | x :: y :: z :: u :: _ =>
    if x = 0 then if y = 0 then .utf32be else .utf16be
    else if y = 0 then if z = 0 ∧ u = 0 then .utf32le else .utf16le
    else .utf8
  | [x, y] => if x = 0 then .utf16be else if y = 0 then .utf16le else .utf8
  | _ => .utf8

/-- `json.detect_encoding`. -/
def detectEncoding (body : Bytes) : JsonEncoding :=
  match byteOrderMarks.find? fun mark => mark.1.isPrefixOf body with
  | some mark => mark.2
  | none => encodingByZeros body

/-- `json` without keyword arguments. -/
def Response.json {lower : Text → Text} (codecs : UnicodeCodecs) (floats : PyJson.Floats)
    (r : Response lower) : Except PyErr PyVal := do
  let text ← codecs.decode (detectEncoding r.raw.body) r.raw.body
  PyJson.loads floats text

namespace JsonBody
open PercentCoding Sending PyJson Json

section Detection

theorem encodingByZeros_ascii {body : Bytes} (h : ∀ x ∈ body, x ≠ 0) :
    encodingByZeros body = .utf8 := by
  match body with
  | [] | [_] | [_, _, _] => rfl
  | [x, y] =>
    simp only [List.forall_mem_cons] at h
    rw [encodingByZeros, if_neg h.1, if_neg h.2.1]
  | x :: y :: z :: u :: rest =>
    simp only [List.forall_mem_cons] at h
    rw [encodingByZeros, if_neg h.1, if_neg h.2.1]

/-- Every mark has an octet that printed JSON does not have. -/
theorem byteOrderMarks_outside :
    ∀ mark ∈ byteOrderMarks, ∃ x ∈ mark.1, ¬(32 ≤ x.toNat ∧ x.toNat < 127) := by
  simp [byteOrderMarks]

theorem detectEncoding_ascii {body : Bytes} (h : ∀ x ∈ body, 32 ≤ x.toNat ∧ x.toNat < 127) :
    detectEncoding body = .utf8 := by
  have hnone : byteOrderMarks.find? (fun mark => mark.1.isPrefixOf body) = none := by
    apply List.find?_eq_none.mpr
    intro mark hmark hprefix
    obtain ⟨x, hx, hout⟩ := byteOrderMarks_outside mark hmark
    exact hout (h x ((List.isPrefixOf_iff_prefix.mp hprefix).subset hx))
  have hzero : ∀ x ∈ body, x ≠ 0 := by
    rintro x hx rfl
    exact absurd (h 0 hx).1 (by decide)
  rw [detectEncoding, hnone]
  exact encodingByZeros_ascii hzero

theorem utf8_printable {s : Text} (h : ∀ c ∈ s, Printable c) :
    ∀ x ∈ utf8 s, 32 ≤ x.toNat ∧ x.toNat < 127 := by
  intro x hx
  obtain ⟨c, hc, hx⟩ := List.mem_flatMap.mp hx
  obtain ⟨hlow, hhigh⟩ := h c hc
  rw [utf8EncodeChar_ascii (hhigh.trans (by decide)), List.mem_singleton] at hx
  rw [hx, UInt8.toNat_ofNat_of_lt' (hhigh.trans (by decide))]
  exact ⟨hlow, hhigh⟩

/-- What was dumped into a body is read from it, whatever charset the answer names. -/
theorem json_dumped {floats : Floats} {v : PyVal} {text : Text} (hv : Doubles floats v)
    (htext : dumps floats v = .ok text) : ∃ j, toJson floats v = .ok j ∧
      ∀ {lower : Text → Text} (codecs : UnicodeCodecs) (r : Response lower),
        r.raw.body = utf8 text → r.json codecs floats = .ok (ofJson j) := by
  obtain ⟨⟨j, hj, hloads⟩, hprintable⟩ := loads_dumps hv htext
  refine ⟨j, hj, ?_⟩
  intro lower codecs r hbody
  rw [Response.json, hbody, detectEncoding_ascii (utf8_printable hprintable), codecs.decode_utf8]
  exact hloads

end Detection

variable {b : Builtins} {p : Platform} {env : TlsEnv}

theorem pathArgs_body {s : Option (Session b.lower)} {method url : Text} {kw : Kwargs b.lower}
    {args : RustArgs} (h : pathArgs b s method url kw = .ok args) :
    prepareBody b (orNone kw.data) (orNone kw.json) = .ok (args.body, args.contentType) := by
  cases s with
  | none => exact (prepare_spec h).body
  | some s =>
    obtain ⟨merged, hmerged, h⟩ := bind_eq_ok.mp h
    have hspec := merge_spec hmerged
    have hbody := (prepare_spec h).body
    rw [hspec.data, hspec.json] at hbody
    exact hbody

/-- A `json` argument other than `None` takes the place of `data`. -/
theorem prepareBody_json {data v : PyVal} {body : Option Bytes × Option Text} (hv : v ≠ .none)
    (h : prepareBody b data v = .ok body) : ∃ text, b.jsonDumps v = .ok text ∧
      body = (some (utf8 text), some "application/json".toList) := by
  have hstep : prepareBody b data v = (b.jsonDumps v).bind fun text =>
      .ok (some (utf8 text), some "application/json".toList) := by
    cases v <;> first | exact absurd rfl hv | rfl
  rw [hstep] at h
  obtain ⟨text, htext, h⟩ := bind_eq_ok.mp h
  exact ⟨text, htext, (Except.ok.inj h).symm⟩

/-- A value given as `json` arrives: the body is printable ASCII under one Content-Type, and an
answer with this body, under whatever charset, has the value as its `json()`. What is no JSON
value is read as the JSON value it was dumped as. -/
theorem json_read_back {b : Builtins} {p : Platform} {env : TlsEnv}
    {s : Option (Session b.lower)} {w : World} {method url : Text} {kw : Kwargs b.lower}
    {args : RustArgs} {h : Handover} {floats : Floats} {v : PyVal}
    (hdumps : b.jsonDumps = dumps floats) (hjson : kw.json = some v) (hv : v ≠ .none)
    (hdoubles : Doubles floats v) (hargs : pathArgs b s method url kw = .ok args)
    (hh : handed b p env s w method url kw = .ok h) :
    (∀ x ∈ h.req.body, 32 ≤ x.toNat ∧ x.toNat < 127) ∧
      (hasHeader args.headers "Content-Type".toList = false →
        (h.req.headers.filter fun e => eqIgnoreAsciiCase e.1 "Content-Type".toList) =
          [("Content-Type".toList, "application/json".toList)]) ∧
      ∃ j, toJson floats v = .ok j ∧ (Plain v → ofJson j = v) ∧
        ∀ (codecs : UnicodeCodecs) (r : Response b.lower), r.raw.body = h.req.body →
          r.json codecs floats = .ok (ofJson j) := by
  have hbody := pathArgs_body hargs
  rw [hjson] at hbody
  obtain ⟨text, htext, hpair⟩ := prepareBody_json hv hbody
  obtain ⟨hsome, htype⟩ := Prod.mk.inj hpair
  rw [handed, hargs] at hh
  have hsent : h.req.body = utf8 text := by rw [handover_body hh, hsome, Option.getD_some]
  rw [hdumps] at htext
  obtain ⟨j, hj, hread⟩ := json_dumped hdoubles htext
  refine ⟨?_, ?_, j, hj, fun hplain => ofJson_toJson hplain hj, ?_⟩
  · rw [hsent]
    exact utf8_printable (loads_dumps hdoubles htext).2
  · intro hno
    rw [handover_headers hh, filter_derived p args.cookies args.auth args.contentType
      (d := ("Content-Type".toList, args.contentType)) (by simp [derivedHeaders]) hno, htype]
    rfl
  · exact fun codecs r hr => hread codecs r (hr.trans hsent)

/-- Without doubles. -/
def noFloats : Floats where
  double _ := False
  repr _ := []
  ofText _ := .nan
  repr_fraction _ h := h.elim
  ofText_repr _ h := h.elim

/-- `Builtins.ascii` with `json.dumps`. -/
def dumping : Builtins := { Builtins.ascii with jsonDumps := dumps noFloats }

/-- `json={"é": [1, None]}`. -/
def posted : PyVal := .dict [(.str "é".toList, .list [.int 1, .none])]

theorem json_read_back_posted : ∃ h : Handover,
    handed dumping Platform.plain .noFiles (some Session.plain) World.initial "post".toList
      "http://h/".toList { json := some posted } = .ok h ∧
    h.req.body = utf8 "\x7b\"\\u00e9\":[1,null]\x7d".toList ∧
    ∀ (codecs : UnicodeCodecs) (r : Response dumping.lower), r.raw.body = h.req.body →
      r.json codecs noFloats = .ok posted := by
  refine ⟨_, rfl, rfl, ?_⟩
  have h := @json_read_back dumping Platform.plain .noFiles (some Session.plain) World.initial
    "post".toList "http://h/".toList { json := some posted } _ _ noFloats posted rfl rfl
    (by simp [posted]) (by simp [posted, Doubles, DoublesItems, DoublesList]) rfl rfl
  obtain ⟨-, -, j, -, hplain, hread⟩ := h
  rw [hplain ⟨List.pairwise_singleton _ _, ⟨_, rfl⟩, ⟨trivial, trivial, trivial⟩, trivial⟩] at hread
  exact hread

end JsonBody
end Pyureq
