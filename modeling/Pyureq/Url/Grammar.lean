import Pyureq.Url.TargetCompliance

/-! The part of the RFC 3986 grammar that an `http` URL is written in, and how its path and
query are read off it. -/
namespace Pyureq.Grammar
open Delimited PercentCoding TargetCompliance

def isAlpha (c : Char) : Bool := ('A' ≤ c && c ≤ 'Z') || ('a' ≤ c && c ≤ 'z')

def isDigit (c : Char) : Bool := '0' ≤ c && c ≤ '9'

def isSchemeChar (c : Char) : Bool := isAlpha c || isDigit c || "+-.".toList.contains c

def isSubDelim (c : Char) : Bool := "!$&'()*+,;=".toList.contains c

/-- What a registered name is made of, escapes aside. -/
def isRegChar (c : Char) : Bool := isUnreserved c || isSubDelim c

def isUserinfoChar (c : Char) : Bool := isRegChar c || c == ':'

def isPchar (c : Char) : Bool := isRegChar c || c == ':' || c == '@'

def isQueryChar (c : Char) : Bool := isPchar c || c == '/' || c == '?'

/-- A text over the characters `ok` and well-formed percent-encodings. -/
inductive Encoded (ok : Char → Bool) : Text → Prop
  | nil : Encoded ok []
  | char {c : Char} {s : Text} : ok c = true → Encoded ok s → Encoded ok (c :: s)
  | pct {h l : Char} {s : Text} : hexValue h ≠ none → hexValue l ≠ none → Encoded ok s →
      Encoded ok ('%' :: h :: l :: s)

def IsScheme (s : Text) : Prop :=
  ∃ c t, s = c :: t ∧ isAlpha c = true ∧ ∀ d ∈ t, isSchemeChar d = true

/-- A registered name or IPv4 address, or an address literal, whose brackets may enclose more
here than the addresses that exist. -/
inductive IsHost : Text → Prop
  | name {s : Text} : Encoded isRegChar s → IsHost s
  | literal {s : Text} : (∀ c ∈ s, isUserinfoChar c = true) → IsHost ('[' :: s ++ [']'])

/-- `scheme://userinfo@host:port/segments?query`, without a fragment. -/
structure CompliantUrl where
  scheme : Text
  userinfo : Option Text
  host : Text
  port : Option Text
  segments : List Text
  query : Option Text
  scheme_ok : IsScheme scheme
  userinfo_ok : ∀ s ∈ userinfo, Encoded isUserinfoChar s
  host_ok : IsHost host
  port_ok : ∀ s ∈ port, ∀ c ∈ s, isDigit c = true
  segments_ok : ∀ s ∈ segments, Encoded isPchar s
  query_ok : ∀ s ∈ query, Encoded isQueryChar s

namespace CompliantUrl
variable (u : CompliantUrl)

def authority : Text :=
  (match u.userinfo with | some s => s ++ ['@'] | none => []) ++ u.host ++
    match u.port with | some s => ':' :: s | none => []

def path : Text := u.segments.flatMap fun s => '/' :: s

def render : Text :=
  u.scheme ++ "://".toList ++ u.authority ++ u.path ++
    match u.query with | some s => '?' :: s | none => []

end CompliantUrl

/-- The path and the query of an absolute URL: behind the authority, without the fragment. -/
def pathAndQuery (url : Text) : Option (Text × Option Text) :=
  (cutSub "://".toList (cut '#' url).1).map fun r =>
    cut '?' (r.2.dropWhile fun c => c != '/' && c != '?')

theorem isUnreserved_ascii {c : Char} (h : isUnreserved c = true) : c.toNat < 128 := by
  simp only [isUnreserved, Bool.or_eq_true, Bool.and_eq_true, decide_eq_true_eq] at h
  rcases h with ((⟨-, h⟩ | ⟨-, h⟩) | ⟨-, h⟩) | h
  · exact lt_of_le_of_lt h (by decide)
  · exact lt_of_le_of_lt h (by decide)
  · exact lt_of_le_of_lt h (by decide)
  · have hall : ∀ d ∈ "-._~".toList, d.toNat < 128 := forall_mem_of_all (by decide)
    exact hall c (by simpa using h)

theorem isSubDelim_ascii {c : Char} (h : isSubDelim c = true) : c.toNat < 128 := by
  have hall : ∀ d ∈ "!$&'()*+,;=".toList, d.toNat < 128 := forall_mem_of_all (by decide)
  exact hall c (by simpa [isSubDelim] using h)

theorem isRegChar_ascii {c : Char} (h : isRegChar c = true) : c.toNat < 128 := by
  rcases Bool.or_eq_true_iff.mp h with h | h
  · exact isUnreserved_ascii h
  · exact isSubDelim_ascii h

theorem isSchemeChar_reg {c : Char} (h : isSchemeChar c = true) : isRegChar c = true := by
  simp only [isSchemeChar, isAlpha, isDigit, Bool.or_eq_true] at h
  rcases h with (h | h) | h
  · simp only [isRegChar, isUnreserved, Bool.or_eq_true]
    tauto
  · simp only [isRegChar, isUnreserved, Bool.or_eq_true]
    tauto
  · have hall : ∀ d ∈ "+-.".toList, isRegChar d = true := forall_mem_of_all (by decide)
    exact hall c (by simpa using h)

theorem IsScheme.chars {s : Text} (h : IsScheme s) : ∀ c ∈ s, isSchemeChar c = true := by
  obtain ⟨c, t, rfl, hc, ht⟩ := h
  refine List.forall_mem_cons.mpr ⟨?_, ht⟩
  simp [isSchemeChar, hc]

theorem http_isScheme : IsScheme "http".toList :=
  ⟨'h', "ttp".toList, rfl, by decide, forall_mem_of_all (by decide)⟩

/-- A property of the characters allowed, of `%` and of the digits is one of the text. -/
theorem Encoded.forall_mem {ok : Char → Bool} {P : Char → Prop} (hok : ∀ c, ok c = true → P c)
    (hp : P '%') (hhex : ∀ c, hexValue c ≠ none → P c) {s : Text} (h : Encoded ok s) :
    ∀ c ∈ s, P c := by
  induction h with
  | nil => simp
  | char hc _ ih => exact List.forall_mem_cons.mpr ⟨hok _ hc, ih⟩
  | pct hh hl _ ih =>
    refine List.forall_mem_cons.mpr ⟨hp, List.forall_mem_cons.mpr ⟨hhex _ hh, ?_⟩⟩
    exact List.forall_mem_cons.mpr ⟨hhex _ hl, ih⟩

theorem pathAndQuery_of_scheme {scheme rest : Text} (hs : IsScheme scheme)
    (hrest : '#' ∉ rest) : pathAndQuery (scheme ++ "://".toList ++ rest) =
      some (cut '?' (rest.dropWhile fun c => c != '/' && c != '?')) := by
  have hfree : ∀ d ∈ [':', '#'], d ∉ scheme := by
    intro d hd hm
    have hc := hs.chars d hm
    revert hc
    have hall : ∀ d ∈ [':', '#'], ¬isSchemeChar d = true := forall_mem_of_all (by decide)
    exact hall d hd
  have hhash : '#' ∉ scheme ++ "://".toList ++ rest := by
    have hsep : '#' ∉ "://".toList := by decide
    simp only [List.mem_append, not_or]
    exact ⟨⟨hfree '#' (by simp), hsep⟩, hrest⟩
  have hcut := @cutSub_append_cons Char _ ':' ['/', '/'] scheme (hfree ':' (by simp)) rest
  rw [pathAndQuery, cut_of_notMem hhash]
  exact congrArg _ hcut

end Pyureq.Grammar
