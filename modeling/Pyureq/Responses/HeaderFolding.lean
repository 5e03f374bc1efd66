import Mathlib.Data.List.Dedup
import Pyureq.Models

/-! From the fields of a response to `Response.headers`: the core folds them into a map by
lowered name, and the dict that Python builds from the map keeps its entries. -/
namespace Pyureq.HeaderFolding
open Delimited PercentCoding

def lowerName (f : Text × Bytes) : Text := f.1.map Char.toLower

/-- The values of one name, in the order of the fields. -/
def valuesOf (p : Platform) (fields : List (Text × Bytes)) (n : Text) : List Text :=
  (fields.filter fun f => lowerName f = n).map fun f => p.fromUtf8Lossy f.2

variable {b : Builtins} {p : Platform} {fields : List (Text × Bytes)}

theorem toLowercase_eq (h : ∀ f ∈ fields, isToken f.1 = true) :
    ∀ f ∈ fields, p.toLowercase f.1 = lowerName f :=
  fun f hf => p.toLowercase_ascii f.1 (isToken_ascii (h f hf))

/-- The map has the join of the values of a name that occurs. -/
theorem headersOut_join (h : ∀ f ∈ fields, isToken f.1 = true) {n : Text}
    (hn : n ∈ fields.map lowerName) :
    (headersOut p fields).get? n = some (", ".toList.intercalate (valuesOf p fields n)) := by
  have hfilter : (fields.filter fun f => p.toLowercase f.1 = n) =
      fields.filter fun f => lowerName f = n := by
    apply List.filter_congr
    intro f hf
    rw [toLowercase_eq h f hf]
  obtain ⟨f, hf, rfl⟩ := List.mem_map.mp hn
  have hmem : f ∈ fields.filter fun g => lowerName g = lowerName f :=
    List.mem_filter.mpr ⟨hf, by simp⟩
  rw [headersOut_get?, hfilter, valuesOf]
  cases hv : (fields.filter fun g => lowerName g = lowerName f).map
      fun f => p.fromUtf8Lossy f.2 with
  | nil =>
    rw [List.map_eq_nil_iff] at hv
    rw [hv] at hmem
    contradiction
  | cons v vs => exact foldl_joinField v vs

/-- The names of the map are the lowered names of the fields. -/
theorem mem_headersOut_keys (h : ∀ f ∈ fields, isToken f.1 = true) {n : Text} :
    n ∈ (headersOut p fields).keys ↔ n ∈ fields.map lowerName := by
  constructor
  · intro hn
    obtain ⟨f, hf, rfl⟩ := headersOut_keys p hn
    rw [toLowercase_eq h f hf]
    exact List.mem_map_of_mem hf
  · intro hn
    rw [OrderedMap.mem_keys_iff_get?, headersOut_join h hn]
    rfl

/-- The dict of the response has the entries of the map, in some order. -/
theorem items_perm (h : ∀ f ∈ fields, isToken f.1 = true) {raw : RawResponse}
    (hraw : raw.headers = headersOut p fields) :
    (Response.init b.lower p raw).headers.items.Perm (headersOut p fields).entries := by
  have hlower : ((p.iteration raw.headers).entries.map fun e => b.lower e.1) =
      (p.iteration raw.headers).keys := by
    apply List.map_congr_left
    intro e he
    apply Response.lower_headersOut h (p := p)
    rw [← hraw]
    exact OrderedMap.mem_keys_of_mem ((p.iteration_perm raw.headers).mem_iff.mp he)
  have hitems : (Response.init b.lower p raw).headers.items =
      (p.iteration raw.headers).entries := by
    apply CaseInsensitiveDict.items_ofPairs
    rw [hlower]
    exact (p.iteration raw.headers).nodup
  rw [hitems, ← hraw]
  exact p.iteration_perm raw.headers

/-- Only ASCII text lowers to ASCII text, letter by letter. -/
theorem ascii_of_map_toLower {n : Text} (h : ∀ c ∈ n.map Char.toLower, c.toNat < 128) :
    ∀ c ∈ n, c.toNat < 128 := by
  intro c hc
  have hlower := h _ (List.mem_map_of_mem hc)
  unfold Char.toLower at hlower
  split at hlower
  next hupper => exact lt_of_le_of_lt hupper.2 (by decide)
  next => exact hlower

/-- Every lowered name that occurs is one entry of `Response.headers`, with all its values
joined in the order of their fields, and is found under any casing. -/
theorem headers_folded {resp : HttpResponse} {raw : RawResponse}
    (hnames : ∀ f ∈ resp.headers, isToken f.1 = true) (hraw : rawResponse p resp = .ok raw) :
    let headers := (Response.init b.lower p raw).headers
    (headers.items.map Prod.fst).Perm (resp.headers.map lowerName).dedup ∧
      (∀ e ∈ headers.items, e.2 = ", ".toList.intercalate (valuesOf p resp.headers e.1)) ∧
      ∀ f ∈ resp.headers, ∀ n, n.map Char.toLower = lowerName f →
        headers.getItem n =
          some (", ".toList.intercalate (valuesOf p resp.headers (lowerName f))) := by
  intro headers
  have hheaders := (rawResponse_ok hraw).1
  have hperm : headers.items.Perm (headersOut p resp.headers).entries :=
    items_perm hnames hheaders
  refine ⟨?_, ?_, ?_⟩
  · have hdedup : (headersOut p resp.headers).keys.Perm (resp.headers.map lowerName).dedup := by
      apply (List.perm_ext_iff_of_nodup (headersOut p resp.headers).nodup
        (List.nodup_dedup _)).mpr
      intro n
      rw [List.mem_dedup]
      exact mem_headersOut_keys hnames
    exact (hperm.map Prod.fst).trans hdedup
  · intro e he
    have hentry : e ∈ (headersOut p resp.headers).entries := hperm.mem_iff.mp he
    have hname := (mem_headersOut_keys hnames).mp (OrderedMap.mem_keys_of_mem hentry)
    have hget := OrderedMap.get?_eq_some.mpr hentry
    rw [headersOut_join hnames hname] at hget
    exact (Option.some.inj hget).symm
  · intro f hf n hn
    have hascii : ∀ c ∈ lowerName f, c.toNat < 128 := by
      intro c hc
      obtain ⟨x, hx, rfl⟩ := List.mem_map.mp hc
      exact (toLower_ascii (isToken_ascii (hnames f hf) x hx)).1
    have hkeys : ∀ k ∈ raw.headers.keys, b.lower k = k := by
      rw [hheaders]
      exact Response.lower_headersOut hnames
    have hlower : b.lower n = lowerName f := by
      rw [b.lower_ascii n (ascii_of_map_toLower (hn ▸ hascii)), hn]
    show (Response.init b.lower p raw).headers.getItem n = _
    rw [Response.init_getItem hkeys, hlower, hheaders]
    exact headersOut_join hnames (List.mem_map_of_mem hf)

/-- Two fields of one name around a third. -/
def interleaved : HttpResponse where
  status := 200
  uri := "http://h/".toList
  headers := [("via".toList, [97]), ("Date".toList, [98]), ("Via".toList, [99])]
  body := .ok []

theorem headers_folded_interleaved : ∃ raw,
    rawResponse Platform.plain interleaved = .ok raw ∧
      ((Response.init Builtins.ascii.lower Platform.plain raw).headers.items.map Prod.fst).Perm
        ["date".toList, "via".toList] ∧
      (Response.init Builtins.ascii.lower Platform.plain raw).headers.getItem "VIA".toList =
        some "a, c".toList := by
  obtain ⟨hperm, -, hget⟩ := @headers_folded Builtins.ascii Platform.plain interleaved _
    (by decide) rfl
  exact ⟨_, rfl, hperm, hget _ List.mem_cons_self "VIA".toList (by decide)⟩

end Pyureq.HeaderFolding
