import Pyureq.Sessions

/-! What `_prepare_body` makes of the documented shapes of `data`. A list of tuples is the one
shape that it has no branch for. -/
namespace Pyureq.Bodies
open Delimited PercentCoding

/-- The documented in-memory shapes of `data`. -/
inductive Data where
  | dict (d : OrderedMap Text Text)
  | tuples (ps : List (Text × Text))
  | bytes (v : Bytes)
  | str (s : Text)

def Data.toPyVal : Data → PyVal
  | .dict d => .ofStrDict d
  | .tuples ps => .ofStrPairs ps
  | .bytes v => .bytes v
  | .str s => .str s

/-- Reading `application/x-www-form-urlencoded` text, as a server does. -/
def formPairs (text : Text) : List (Bytes × Bytes) :=
  ((text.splitOn '&').filter fun segment => segment ≠ []).map fun segment =>
    (decodePlus (cut '=' segment).1, decodePlus ((cut '=' segment).2.getD []))

/-- A body and its content type carry form text that decodes to the pairs. -/
def Carries (ps : List (Text × Text)) (body : Option Bytes × Option Text) : Prop :=
  ∃ text, body = (some (utf8 text), some "application/x-www-form-urlencoded".toList) ∧
    formPairs text = ps.map fun e => (utf8 e.1, utf8 e.2)

/-- The body represents the data completely. -/
def Data.Represented : Data → Option Bytes × Option Text → Prop
  | .dict d, body => Carries d.entries body
  | .tuples ps, body => Carries ps body
  | .bytes v, body => body.1 = some v
  | .str s, body => body.1 = some (utf8 s)

section Quoting

theorem quotePlus_cons (x : UInt8) (bs : Bytes) : quotePlus (x :: bs) =
    (if x = 32 then ['+'] else encodeByte (fun c => !pctKeeps c) x) ++ quotePlus bs := rfl

/-- What a kept byte is written as. -/
theorem kept_plain {x : UInt8} (h : pctKeeps x = true) :
    x.toNat < 128 ∧ Char.ofNat x.toNat ∉ ['&', '=', '+', '%'] := by
  have htable : ∀ n < 256, pctKeeps (UInt8.ofNat n) = true →
      n < 128 ∧ Char.ofNat n ∉ ['&', '=', '+', '%'] := by decide +kernel
  apply htable x.toNat x.toNat_lt
  rwa [UInt8.ofNat_toNat]

theorem escape_plain (x : UInt8) : ∀ c ∈ escape x, c ∉ ['&', '=', '+'] := by
  intro c hc
  rcases escape_chars x c hc with rfl | ⟨n, hn, rfl⟩
  · decide
  · have hdigits : ∀ n < 16, hexDigit n ∉ ['&', '=', '+'] := by decide
    exact hdigits n hn

theorem decodePlus_cons {c : Char} (hplus : c ≠ '+') (hpercent : c ≠ '%') (s : Text) :
    decodePlus (c :: s) = String.utf8EncodeChar c ++ decodePlus s := by
  rw [decodePlus, List.map_cons, if_neg hplus, decode_cons_ne hpercent, decodePlus]

theorem decodePlus_escape (x : UInt8) (s : Text) :
    decodePlus (escape x ++ s) = x :: decodePlus s := by
  have hid : (escape x).map (fun c => if c = '+' then ' ' else c) = escape x := by
    conv_rhs => rw [← List.map_id (escape x)]
    apply List.map_congr_left
    intro c hc
    refine if_neg ?_
    rintro rfl
    exact escape_plain x _ hc (by decide)
  rw [decodePlus, List.map_append, hid, decode_escape, decodePlus]

/-- Form decoding undoes the quoting. -/
theorem decodePlus_quotePlus (bs : Bytes) : decodePlus (quotePlus bs) = bs := by
  induction bs with
  | nil => rfl
  | cons x bs ih =>
    rw [quotePlus_cons]
    by_cases hspace : x = 32
    · rw [if_pos hspace, hspace, List.singleton_append, decodePlus, List.map_cons, if_pos rfl,
        decode_cons_ne (by decide), ← decodePlus, ih]
      rfl
    · rw [if_neg hspace, encodeByte]
      by_cases hkeeps : pctKeeps x = true
      · obtain ⟨hascii, hplain⟩ := kept_plain hkeeps
        have hplus : Char.ofNat x.toNat ≠ '+' := fun h => hplain (by simp [h])
        have hpercent : Char.ofNat x.toNat ≠ '%' := fun h => hplain (by simp [h])
        have hchar := toNat_ofNat_byte x
        have hencode : String.utf8EncodeChar (Char.ofNat x.toNat) = [x] := by
          rw [utf8EncodeChar_ascii (by rwa [hchar]), hchar, UInt8.ofNat_toNat]
        rw [if_neg (by simp [hkeeps]), List.singleton_append, decodePlus_cons hplus hpercent,
          hencode, ih, List.singleton_append]
      · rw [if_pos (by simp [hkeeps]), decodePlus_escape, ih]

/-- No delimiter of a form occurs in quoted text. -/
theorem quotePlus_free (bs : Bytes) : '&' ∉ quotePlus bs ∧ '=' ∉ quotePlus bs := by
  have h : ∀ d ∈ ['&', '='], d ∉ quotePlus bs := by
    intro d hd hm
    obtain ⟨x, -, hx⟩ := List.mem_flatMap.mp hm
    have hplain : d ∈ ['&', '=', '+'] := List.mem_append_left ['+'] hd
    by_cases hspace : x = 32
    · rw [if_pos hspace, List.mem_singleton] at hx
      rw [hx] at hd
      contradiction
    · rw [if_neg hspace, encodeByte] at hx
      by_cases hkeeps : pctKeeps x = true
      · rw [if_neg (by simp [hkeeps]), List.mem_singleton] at hx
        rw [hx] at hplain
        exact (kept_plain hkeeps).2 (List.mem_append_left ['%'] hplain)
      · rw [if_pos (by simp [hkeeps])] at hx
        exact escape_plain x d hx hplain
  exact ⟨h _ (by decide), h _ (by decide)⟩

/-- A server reads the items back from what `urlencode` writes, in their order. -/
theorem formPairs_urlencode (b : Builtins) (items : List (PyVal × PyVal)) :
    formPairs (urlencode b items) = items.map fun e => (formBytes b e.1, formBytes b e.2) := by
  cases items with
  | nil => rfl
  | cons e items =>
    have hfree : ∀ s ∈ (e :: items).map fun e =>
        quotePlus (formBytes b e.1) ++ '=' :: quotePlus (formBytes b e.2), '&' ∉ s := by
      intro s hs
      obtain ⟨f, -, rfl⟩ := List.mem_map.mp hs
      simp [(quotePlus_free (formBytes b f.1)).1, (quotePlus_free (formBytes b f.2)).1]
    have hsome : ∀ s ∈ (e :: items).map fun e =>
        quotePlus (formBytes b e.1) ++ '=' :: quotePlus (formBytes b e.2), s ≠ [] := by
      intro s hs
      obtain ⟨f, -, rfl⟩ := List.mem_map.mp hs
      simp
    rw [formPairs, urlencode, List.splitOn_intercalate '&' hfree (by simp),
      List.filter_eq_self.mpr (by simpa using hsome), List.map_map]
    apply List.map_congr_left
    intro f _
    rw [Function.comp_apply, cut_append_cons (quotePlus_free _).2, Option.getD_some,
      decodePlus_quotePlus, decodePlus_quotePlus]

end Quoting

/-- Every documented shape is sent as it is, except a list of tuples, which is dropped. -/
theorem represented_iff (b : Builtins) (data : Data) :
    (∃ body, prepareBody b data.toPyVal .none = .ok body ∧ data.Represented body) ↔
      ∀ ps, data ≠ .tuples ps := by
  cases data with
  | bytes v => exact iff_of_true ⟨_, rfl, rfl⟩ (by simp)
  | str s => exact iff_of_true ⟨_, rfl, rfl⟩ (by simp)
  | dict d =>
    refine iff_of_true ⟨_, rfl, _, rfl, ?_⟩ (by simp)
    rw [formPairs_urlencode, PyVal.dictItems_ofStrDict, List.map_map]
    apply List.map_congr_left
    intro e _
    simp [formBytes, b.str_str]
  | tuples ps =>
    refine iff_of_false ?_ (by simp)
    rintro ⟨body, hbody, text, htext, -⟩
    obtain rfl := Except.ok.inj hbody
    simp at htext

/-- `data=[("a", "1")]` leaves the request without a body. -/
theorem tuples_dropped :
    prepareBody Builtins.ascii (.list [.tuple [.str "a".toList, .str "1".toList]]) .none =
        .ok (none, none) ∧
      ¬∃ body, prepareBody Builtins.ascii
          (Data.tuples [("a".toList, "1".toList)]).toPyVal .none = .ok body ∧
        (Data.tuples [("a".toList, "1".toList)]).Represented body := by
  refine ⟨rfl, ?_⟩
  rintro ⟨body, hbody, text, htext, -⟩
  obtain rfl := Except.ok.inj hbody
  simp at htext

end Pyureq.Bodies
