import Pyureq.Core.Execute
import Pyureq.Structures

/-! The parts of `Response` in `models.py` that read the raw response's headers or decode
its body. -/

namespace Pyureq
open Delimited PercentCoding

/-- The text encodings that the interpreter knows by name, each as its decoder under
`errors="replace"`. Some raise all the same: `undefined` and `idna` on all bytes, `punycode` on
some. UTF-8 never does. -/
structure Codecs where
  lookup : Text → Option (Bytes → Except PyErr Text)
  lookup_utf8 : ∃ decoder, lookup "utf-8".toList = some decoder ∧
    ∀ body, ∃ t, decoder body = .ok t

/-- `body.decode(name, errors="replace")`; no codec is looked up for empty bytes. -/
def Codecs.decode (codecs : Codecs) (name : Text) (body : Bytes) : Except PyErr Text :=
  if body.isEmpty then .ok []
  else
    match codecs.lookup name with
    | some decoder => decoder body
    | none => .error ⟨.lookupError, "unknown encoding: ".toList ++ name⟩

structure Response (lower : Text → Text) where
  raw : RawResponse
  headers : CaseInsensitiveDict lower Text

namespace Response
variable {lower : Text → Text}

/-- `Response.__init__`; the dict that Python receives lists the headers in the order in
which the `HashMap` was iterated. -/
def init (lower : Text → Text) (p : Platform) (raw : RawResponse) : Response lower where
  raw := raw
  headers := CaseInsensitiveDict.ofPairs (p.iteration raw.headers).entries

/-- One round of the loop in `cookies`. -/
def readCookie (result : OrderedMap Text Text) (cookie : Text) : OrderedMap Text Text :=
  let firstPart := strip ((cookie.splitOn ';').headD [])
  if firstPart.contains '=' then
    result.insert (strip (partition '=' firstPart).1) (strip (partition '=' firstPart).2)
  else result

def cookies (r : Response lower) : OrderedMap Text Text :=
  let cookieHeader := (r.headers.getItem "set-cookie".toList).getD []
  if cookieHeader.isEmpty then OrderedMap.empty
  else (cookieHeader.splitOn ',').foldl readCookie OrderedMap.empty

/-- One round of the inner loop in `links`. -/
def readAttr (link : OrderedMap Text Text) (attr : Text) : OrderedMap Text Text :=
  let attr := strip attr
  if attr.contains '=' then
    link.insert (strip (partition '=' attr).1)
      (stripBy (· = '"') (strip (partition '=' attr).2))
  else link

/-- One round of the outer loop in `links`. -/
def readLink (result : OrderedMap Text (OrderedMap Text Text)) (part : Text) :
    OrderedMap Text (OrderedMap Text Text) :=
  let segments := (strip part).splitOn ';'
  let url := stripBy (fun c => c = '<' || c = '>') (strip (segments.headD []))
  let link := segments.tail.foldl readAttr (OrderedMap.empty.insert "url".toList url)
  result.insert ((link.get? "rel".toList).getD url) link

def links (r : Response lower) : OrderedMap Text (OrderedMap Text Text) :=
  let header := (r.headers.getItem "link".toList).getD []
  if header.isEmpty then OrderedMap.empty
  else (header.splitOn ',').foldl readLink OrderedMap.empty

/-- The scan in `encoding`: the value of the first part that names a charset. -/
def scanCharset (b : Builtins) : List Text → Option Text
  | [] => none
  | part :: parts =>
    if "charset=".toList.isPrefixOf (b.lower (strip part)) then
      some (stripBy (· = '"') (strip ((strip part).drop "charset=".length)))
    else scanCharset b parts

/-- `x if x else None` for an optional string. -/
def orFalsy : Option Text → Option Text
  | some s => if s.isEmpty then none else some s
  | none => none

/-- `encoding`; `override` is what was last assigned to it. -/
def encoding (b : Builtins) (r : Response b.lower) (override : Option Text) : Text :=
  match orFalsy override with
  | some e => e
  | none =>
    match orFalsy r.raw.encoding with
    | some e => e
    | none =>
      let ct := (r.headers.getItem "content-type".toList).getD []
      (scanCharset b (ct.splitOn ';')).getD "utf-8".toList

/-- `text`. -/
def text (b : Builtins) (codecs : Codecs) (r : Response b.lower) (override : Option Text) :
    Except PyErr Text :=
  codecs.decode (r.encoding b override) r.raw.body

/-- Without an override the raw response comes first, then the scan. -/
theorem encoding_none (b : Builtins) (r : Response b.lower) : r.encoding b none =
    (orFalsy r.raw.encoding).getD ((scanCharset b
      (((r.headers.getItem "content-type".toList).getD []).splitOn ';')).getD "utf-8".toList) := by
  have hnone : orFalsy none = none := rfl
  rw [encoding, hnone]
  cases orFalsy r.raw.encoding <;> rfl

theorem iteration_get? (p : Platform) (m : OrderedMap Text Text) (k : Text) :
    (p.iteration m).get? k = m.get? k := by
  have h : ∀ v, (p.iteration m).get? k = some v ↔ m.get? k = some v := by
    intro v
    rw [OrderedMap.get?_eq_some, OrderedMap.get?_eq_some, (p.iteration_perm m).mem_iff]
  exact Option.ext h

/-- If the raw names are lowered, a lookup in the response is one in the raw headers. -/
theorem init_getItem {p : Platform} {raw : RawResponse}
    (h : ∀ k ∈ raw.headers.keys, lower k = k) (n : Text) :
    (init lower p raw).headers.getItem n = raw.headers.get? (lower n) := by
  have hkeys : ∀ e ∈ (p.iteration raw.headers).entries, lower e.1 = e.1 := by
    intro e he
    exact h e.1 (OrderedMap.mem_keys_of_mem ((p.iteration_perm raw.headers).mem_iff.mp he))
  rw [init, CaseInsensitiveDict.getItem_ofPairs hkeys, OrderedMap.ofList_entries, iteration_get?]

/-- The names of the raw headers are lowered already. -/
theorem lower_headersOut {b : Builtins} {p : Platform} {fields : List (Text × Bytes)}
    (h : ∀ f ∈ fields, isToken f.1 = true) : ∀ k ∈ (headersOut p fields).keys, b.lower k = k := by
  intro k hk
  obtain ⟨f, hf, rfl⟩ := headersOut_keys p hk
  have hascii := isToken_ascii (h f hf)
  have hlower : ∀ c ∈ f.1.map Char.toLower, c.toNat < 128 := by
    intro c hc
    obtain ⟨x, hx, rfl⟩ := List.mem_map.mp hc
    exact (toLower_ascii (hascii x hx)).1
  rw [p.toLowercase_ascii _ hascii, b.lower_ascii _ hlower, List.map_map]
  apply List.map_congr_left
  exact fun c hc => (toLower_ascii (hascii c hc)).2

/-- A lookup under a lowered ASCII name finds the join of the fields of that name. -/
theorem init_getItem_field {b : Builtins} {p : Platform} {resp : HttpResponse}
    {raw : RawResponse} (hnames : ∀ f ∈ resp.headers, isToken f.1 = true)
    (hheaders : raw.headers = headersOut p resp.headers) {n : Text}
    (hascii : ∀ c ∈ n, c.toNat < 128) (hlower : n.map Char.toLower = n) :
    (init b.lower p raw).headers.getItem n = (headersOut p resp.headers).get? n := by
  have hkeys : ∀ k ∈ raw.headers.keys, b.lower k = k := by
    rw [hheaders]
    exact lower_headersOut hnames
  rw [init_getItem hkeys, b.lower_ascii n hascii, hlower, hheaders]

end Response
end Pyureq
