import Pyureq.Models

/-! The charset of a response. The core and `Response.encoding` both read it from the
Content-Type text; the core keeps the quotes that the scan in Python strips, and neither
asks whether what it found names a codec that can decode the body. -/
namespace Pyureq.Charset
open Delimited PercentCoding

/-- The charset that one part of a Content-Type text gives, if it gives one. -/
def charsetParam (part : Text) : Option Text :=
  if "charset=".toList.isPrefixOf ((trim part).map Char.toLower) then
    some (trim ((trim part).drop "charset=".length))
  else none

/-- The charset that a Content-Type text names first, as it is written there. -/
def written (ct : Text) : Option Text := (ct.splitOn ';').findSome? charsetParam

/-- What the http crate admits in a field value: no control character but the tab. -/
def IsFieldText (s : Text) : Prop := ∀ c ∈ s, 32 ≤ c.toNat ∨ c = '\t'

/-- Whether a text starts with `word` when it is lowered depends on its ASCII letters alone. -/
def Finds (lower : Text → Text) (word : Text) : Prop :=
  ∀ s, word.isPrefixOf (lower s) = word.isPrefixOf (s.map Char.toLower)

def unquote (v : Text) : Text := stripBy (· = '"') v

/-- A text encoding of this name is known, and its decoder takes the bytes. -/
def Takes (codecs : Codecs) (name : Text) (body : Bytes) : Prop :=
  ∃ decoder, codecs.lookup name = some decoder ∧ ∃ t, decoder body = .ok t

/-- The Content-Type text of a response: the values of its fields of that name, joined. -/
def contentType (p : Platform) (resp : HttpResponse) : Text :=
  ", ".toList.intercalate ((resp.headers.filter fun f =>
    p.toLowercase f.1 = "content-type".toList).map fun f => p.fromUtf8Lossy f.2)

section Scanners

theorem strip_eq_trim {s : Text} (h : IsFieldText s) : strip s = trim s := by
  apply stripBy_congr
  intro c hc
  have hcontrol : (28 ≤ c.toNat && c.toNat ≤ 31) = false := by
    rcases h c hc with hc | rfl
    · simp only [Bool.and_eq_false_imp, decide_eq_true_eq, decide_eq_false_iff_not]
      omega
    · decide
  rw [isRustSpace, hcontrol, Bool.not_false, Bool.and_true]

theorem unquote_eq_self_iff {v : Text} :
    unquote v = v ↔ v.head? ≠ some '"' ∧ v.getLast? ≠ some '"' := by
  simp only [unquote, stripBy_eq_self_iff, decide_eq_false_iff_not]
  constructor
  · rintro ⟨hs, he⟩
    exact ⟨fun h => hs _ h rfl, fun h => he _ h rfl⟩
  · rintro ⟨hs, he⟩
    exact ⟨fun c h hc => hs (hc ▸ h), fun c h hc => he (hc ▸ h)⟩

/-- The core takes the charset as it is written. -/
theorem charsetOf_eq {p : Platform} (hp : Finds p.toLowercase "charset=".toList) (ct : Text) :
    charsetOf p ct = written ct := by
  unfold charsetOf written
  induction ct.splitOn ';' with
  | nil => rfl
  | cons part parts ih =>
    rw [List.find?_cons, List.findSome?_cons, charsetParam, hp]
    cases "charset=".toList.isPrefixOf ((trim part).map Char.toLower) with
    | true => rfl
    | false => exact ih

/-- The scan in Python takes it without the quotes around it. -/
theorem scanCharset_eq {b : Builtins} (hb : Finds b.lower "charset=".toList) {ct : Text}
    (hct : IsFieldText ct) :
    Response.scanCharset b (ct.splitOn ';') = (written ct).map unquote := by
  have hparts : ∀ part ∈ ct.splitOn ';', IsFieldText part :=
    fun part hpart c hc => hct c (mem_of_mem_splitOn hpart hc)
  unfold written
  generalize ct.splitOn ';' = parts at hparts ⊢
  induction parts with
  | nil => rfl
  | cons part parts ih =>
    obtain ⟨hpart, hparts⟩ := List.forall_mem_cons.mp hparts
    have hrest : IsFieldText ((trim part).drop "charset=".length) :=
      fun c hc => hpart c (mem_of_mem_stripBy (List.mem_of_mem_drop hc))
    rw [Response.scanCharset, List.findSome?_cons, charsetParam, hb, strip_eq_trim hpart,
      strip_eq_trim hrest]
    cases "charset=".toList.isPrefixOf ((trim part).map Char.toLower) with
    | true => rfl
    | false => exact ih hparts

end Scanners

section Responses
variable {b : Builtins} {p : Platform} {resp : HttpResponse} {raw : RawResponse}

/-- A missing field reads as an empty one. -/
theorem headersOut_contentType (p : Platform) (resp : HttpResponse) :
    ((headersOut p resp.headers).get? "content-type".toList).getD [] = contentType p resp := by
  rw [headersOut_get?, contentType]
  cases (resp.headers.filter fun f => p.toLowercase f.1 = "content-type".toList).map
      fun f => p.fromUtf8Lossy f.2 with
  | nil => rfl
  | cons v vs => rw [foldl_joinField, Option.getD_some]

theorem written_nil : written [] = none := by decide

theorem raw_encoding (hp : Finds p.toLowercase "charset=".toList)
    (hraw : rawResponse p resp = .ok raw) : raw.encoding = written (contentType p resp) := by
  rw [(rawResponse_ok hraw).2, ← headersOut_contentType]
  cases (headersOut p resp.headers).get? "content-type".toList with
  | none => rw [Option.bind_none, Option.getD_none, written_nil]
  | some ct => rw [Option.bind_some, Option.getD_some, charsetOf_eq hp]

theorem init_contentType (hnames : ∀ f ∈ resp.headers, isToken f.1 = true)
    (hheaders : raw.headers = headersOut p resp.headers) :
    ((Response.init b.lower p raw).headers.getItem "content-type".toList).getD [] =
      contentType p resp := by
  rw [Response.init_getItem_field hnames hheaders (forall_mem_of_all (by decide)) (by decide),
    headersOut_contentType]

/-- Without a charset from the core, `Response.encoding` is what its own scan finds. -/
theorem encoding_scan (hnames : ∀ f ∈ resp.headers, isToken f.1 = true)
    (hplain : IsFieldText (contentType p resp)) (hb : Finds b.lower "charset=".toList)
    (hheaders : raw.headers = headersOut p resp.headers)
    (hfound : Response.orFalsy raw.encoding = none) :
    (Response.init b.lower p raw).encoding b none =
      ((written (contentType p resp)).map unquote).getD "utf-8".toList := by
  rw [Response.encoding_none]
  show (Response.orFalsy raw.encoding).getD _ = _
  rw [hfound, Option.getD_none, init_contentType hnames hheaders, scanCharset_eq hb hplain]

/-- With what the core found it is the charset as it is written, quotes included. -/
theorem encoding_written (hnames : ∀ f ∈ resp.headers, isToken f.1 = true)
    (hplain : IsFieldText (contentType p resp)) (hb : Finds b.lower "charset=".toList)
    (hp : Finds p.toLowercase "charset=".toList) (hraw : rawResponse p resp = .ok raw) :
    (Response.init b.lower p raw).encoding b none =
      (written (contentType p resp)).getD "utf-8".toList := by
  have hencoding := raw_encoding hp hraw
  cases hfound : Response.orFalsy raw.encoding with
  | none =>
    rw [encoding_scan hnames hplain hb (rawResponse_ok hraw).1 hfound]
    rw [hencoding] at hfound
    cases hw : written (contentType p resp) with
    | none => rfl
    | some v =>
      -- an empty charset is overlooked in the raw response and found again by the scan
      cases v with
      | nil => rfl
      | cons c v => simp [hw, Response.orFalsy] at hfound
  | some e =>
    rw [Response.encoding_none]
    show (Response.orFalsy raw.encoding).getD _ = _
    rw [hfound, Option.getD_some]
    rw [hencoding] at hfound
    cases hw : written (contentType p resp) with
    | none => simp [hw, Response.orFalsy] at hfound
    | some v =>
      rw [hw, Response.orFalsy, Option.ite_none_left_eq_some] at hfound
      exact (Option.some.inj hfound.2).symm

/-- The two extractions agree exactly when the charset is not written with a quote at either
end. -/
theorem extractors_agree_iff (hnames : ∀ f ∈ resp.headers, isToken f.1 = true)
    (hplain : IsFieldText (contentType p resp)) (hb : Finds b.lower "charset=".toList)
    (hp : Finds p.toLowercase "charset=".toList) (hraw : rawResponse p resp = .ok raw) :
    (raw.encoding = Response.scanCharset b ((contentType p resp).splitOn ';') ∧
      (Response.init b.lower p raw).encoding b none =
        (Response.init b.lower p { raw with encoding := none }).encoding b none) ↔
      ∀ v, written (contentType p resp) = some v → v.head? ≠ some '"' ∧ v.getLast? ≠ some '"' := by
  have hscan : (Response.init b.lower p { raw with encoding := none }).encoding b none =
      ((written (contentType p resp)).map unquote).getD "utf-8".toList := by
    have hheaders := (rawResponse_ok hraw).1
    exact encoding_scan hnames hplain hb hheaders rfl
  rw [hscan, encoding_written hnames hplain hb hp hraw, raw_encoding hp hraw,
    scanCharset_eq hb hplain]
  simp only [← unquote_eq_self_iff]
  cases written (contentType p resp) with
  | none => simp
  | some v =>
    simp only [Option.map_some, Option.some.injEq, Option.getD_some, forall_eq', and_self]
    exact eq_comm

/-- Decoding empty bytes always succeeds, and decoding others does when the codec takes them. -/
theorem decode_ok_iff (codecs : Codecs) (name : Text) (body : Bytes) :
    (∃ t, codecs.decode name body = .ok t) ↔ body = [] ∨ Takes codecs name body := by
  rw [Codecs.decode]
  cases body with
  | nil => exact iff_of_true ⟨[], rfl⟩ (Or.inl rfl)
  | cons x body =>
    rw [List.isEmpty_cons, if_neg Bool.false_ne_true, or_iff_right (List.cons_ne_nil x body), Takes]
    cases codecs.lookup name with
    | none => simp
    | some decoder => simp

/-- `Response.text` returns exactly when the body is empty, or the charset, as it is written, is
missing or that of a codec that takes the body. -/
theorem text_returns_iff (hnames : ∀ f ∈ resp.headers, isToken f.1 = true)
    (hplain : IsFieldText (contentType p resp)) (hb : Finds b.lower "charset=".toList)
    (hp : Finds p.toLowercase "charset=".toList) (hraw : rawResponse p resp = .ok raw)
    (codecs : Codecs) :
    (∃ t, (Response.init b.lower p raw).text b codecs none = .ok t) ↔
      raw.body = [] ∨ ∀ v, written (contentType p resp) = some v → Takes codecs v raw.body := by
  rw [Response.text, encoding_written hnames hplain hb hp hraw]
  refine (decode_ok_iff codecs _ raw.body).trans (or_congr_right ?_)
  cases written (contentType p resp) with
  | none =>
    obtain ⟨decoder, hlookup, hdecoder⟩ := codecs.lookup_utf8
    exact iff_of_true ⟨decoder, hlookup, hdecoder raw.body⟩ (by simp)
  | some v => simp

end Responses

/-- A response with the given Content-Type and the body `x`. -/
def answer (ct : String) : HttpResponse :=
  ⟨200, "http://h/".toList,
    [("content-type".toList, ct.toList.map fun c => UInt8.ofNat c.toNat)], .ok [120]⟩

/-- An interpreter that knows UTF-8 under one name, on ASCII bytes, and `undefined`, whose
`UnicodeError` is a `ValueError`. -/
def twoCodecs : Codecs where
  lookup name :=
    if name = "utf-8".toList then some fun body => .ok (body.map fun x => Char.ofNat x.toNat)
    else if name = "undefined".toList then
      some fun _ => .error (PyVal.valueError "decoding with 'undefined' codec failed")
    else none
  lookup_utf8 := ⟨_, if_pos rfl, fun _ => ⟨_, rfl⟩⟩

def spaced : HttpResponse := answer "Text/HTML; CharSet = x; CHARSET= utf-8 "
def quoted : HttpResponse := answer "text/plain; charset=\"utf-8\""
def misspelt : HttpResponse := answer "text/plain; charset=utf-eight"
def undecodable : HttpResponse := answer "text/plain; charset=undefined"

theorem finds_ascii (word : Text) : Finds (List.map Char.toLower) word := fun _ => rfl

theorem extractors_agree_iff_spaced : ∃ raw, rawResponse Platform.plain spaced = .ok raw ∧
    raw.encoding = Response.scanCharset Builtins.ascii
      ((contentType Platform.plain spaced).splitOn ';') ∧
    (Response.init Builtins.ascii.lower Platform.plain raw).encoding Builtins.ascii none =
      (Response.init Builtins.ascii.lower Platform.plain { raw with encoding := none }).encoding
        Builtins.ascii none := by
  have hwritten : written (contentType Platform.plain spaced) = some "utf-8".toList := by decide
  refine ⟨_, rfl, ?_⟩
  apply (@extractors_agree_iff Builtins.ascii Platform.plain spaced _ (by decide)
    (forall_mem_of_all (by decide)) (finds_ascii _) (finds_ascii _) rfl).mpr
  intro v hv
  obtain rfl := Option.some.inj (hwritten.symm.trans hv)
  decide

/-- The core stores the charset with its quotes. -/
theorem extractors_disagree : (∀ f ∈ quoted.headers, isToken f.1 = true) ∧
    IsFieldText (contentType Platform.plain quoted) ∧
    ∃ raw, rawResponse Platform.plain quoted = .ok raw ∧
      raw.encoding = some "\"utf-8\"".toList ∧
      Response.scanCharset Builtins.ascii ((contentType Platform.plain quoted).splitOn ';') =
        some "utf-8".toList ∧
      (Response.init Builtins.ascii.lower Platform.plain raw).encoding Builtins.ascii none =
        "\"utf-8\"".toList ∧
      (Response.init Builtins.ascii.lower Platform.plain { raw with encoding := none }).encoding
        Builtins.ascii none = "utf-8".toList :=
  ⟨by decide, forall_mem_of_all (by decide), _, rfl, by decide, by decide, by decide, by decide⟩

theorem text_returns_iff_spaced : ∃ raw, rawResponse Platform.plain spaced = .ok raw ∧
    ∃ t, (Response.init Builtins.ascii.lower Platform.plain raw).text Builtins.ascii twoCodecs
      none = .ok t := by
  have hwritten : written (contentType Platform.plain spaced) = some "utf-8".toList := by decide
  refine ⟨_, rfl, ?_⟩
  apply (@text_returns_iff Builtins.ascii Platform.plain spaced _ (by decide)
    (forall_mem_of_all (by decide)) (finds_ascii _) (finds_ascii _) rfl twoCodecs).mpr
  refine Or.inr ?_
  intro v hv
  obtain rfl := Option.some.inj (hwritten.symm.trans hv)
  obtain ⟨decoder, hlookup, hdecoder⟩ := twoCodecs.lookup_utf8
  exact ⟨decoder, hlookup, hdecoder _⟩

/-- A charset that is not a codec reaches `bytes.decode`, and so does one that is a codec with no
way to replace what it cannot decode. -/
theorem text_raises :
    ((∀ f ∈ misspelt.headers, isToken f.1 = true) ∧
      IsFieldText (contentType Platform.plain misspelt) ∧
      ∃ raw, rawResponse Platform.plain misspelt = .ok raw ∧
        (Response.init Builtins.ascii.lower Platform.plain raw).text Builtins.ascii twoCodecs none =
          .error ⟨.lookupError, "unknown encoding: utf-eight".toList⟩) ∧
    (∀ f ∈ undecodable.headers, isToken f.1 = true) ∧
      IsFieldText (contentType Platform.plain undecodable) ∧
      ∃ raw, rawResponse Platform.plain undecodable = .ok raw ∧
        (Response.init Builtins.ascii.lower Platform.plain raw).text Builtins.ascii twoCodecs none =
          .error (PyVal.valueError "decoding with 'undefined' codec failed") :=
  ⟨⟨by decide, forall_mem_of_all (by decide), _, rfl, by decide⟩, by decide,
    forall_mem_of_all (by decide), _, rfl, by decide⟩

end Pyureq.Charset
