import Pyureq.Base.PercentCoding
import Pyureq.Core.Verify

/-! What `http_execute` calls in the ureq, http and base64 crates and in Rust's standard
library, with the part of their documented behaviour that the development uses. -/

namespace Pyureq

/-- The variants of `ureq::Error` that `map_ureq_error` names, and the others by number. -/
inductive UreqErrorKind where
  | timeout | hostNotFound | connectionFailed | io | tooManyRedirects | tls | nativeTls | pem
  | der | badUri | http | requireHttpsOnly | invalidProxyUrl | connectProxyFailed | decompress
  | other (id : ℕ)
  deriving DecidableEq

/-- An error with the text that `to_string` gives. -/
structure UreqError where
  kind : UreqErrorKind
  msg : Text
  deriving DecidableEq

/-- A parsed `ureq::Proxy`. -/
structure Proxy where
  uri : Text
  deriving DecidableEq

/-- The proxy of one request: the agent's own choice, which comes from the environment,
no proxy at all, or the given one. -/
inductive ProxySetting where
  | inherit
  | disabled
  | via (p : Proxy)
  deriving DecidableEq

/-- The per-request overrides; a timeout is in seconds. -/
structure RequestConfig where
  maxRedirects : ℕ
  timeoutGlobal : Option ℚ
  proxy : ProxySetting

/-- What the request builder was given. -/
structure Request where
  method : Text
  uri : Text
  headers : List (Text × Text)
  body : Bytes
  deriving DecidableEq

structure HttpResponse where
  status : ℕ
  uri : Text
  headers : List (Text × Bytes)
  body : Except UreqError Bytes

/-- How `Agent::run` ends. It panics when the deadline of the request, its timeout from now, is
further off than an `Instant` can hold. -/
inductive RunEnd where
  | answered (resp : HttpResponse)
  | failed (e : UreqError)
  | panicked (msg : Text)

/-- The characters of an RFC 9110 token. -/
def isTokenChar (c : Char) : Bool :=
  ('A' ≤ c && c ≤ 'Z') || ('a' ≤ c && c ≤ 'z') || ('0' ≤ c && c ≤ '9') ||
    "!#$%&'*+-.^_`|~".toList.contains c

def isToken (s : Text) : Bool := !s.isEmpty && s.all isTokenChar

structure Platform where
  toUppercase : Text → Text
  toLowercase : Text → Text
  fromUtf8Lossy : Bytes → Text
  base64 : Bytes → Text
  /-- The order in which a `HashMap` is iterated. -/
  iteration : OrderedMap Text Text → OrderedMap Text Text
  /-- `Builder::body`, which reports what the builder rejected. -/
  checkRequest : Request → Except Text Unit
  newProxy : Text → Except Text Proxy
  run : Agent → RequestConfig → Request → RunEnd
  toLowercase_ascii : ∀ s, (∀ c ∈ s, c.toNat < 128) → toLowercase s = s.map Char.toLower
  iteration_perm : ∀ m, (iteration m).entries.Perm m.entries
  checkRequest_names : ∀ r, checkRequest r = .ok () → ∀ h ∈ r.headers, isToken h.1 = true

theorem isToken_ascii {s : Text} (h : isToken s = true) : ∀ c ∈ s, c.toNat < 128 := by
  have hchar : ∀ c : Char, isTokenChar c = true → c.toNat < 128 := by
    intro c hc
    simp only [isTokenChar, Bool.or_eq_true, Bool.and_eq_true, decide_eq_true_eq] at hc
    rcases hc with ((⟨-, hc⟩ | ⟨-, hc⟩) | ⟨-, hc⟩) | hc
    · exact lt_of_le_of_lt hc (by decide)
    · exact lt_of_le_of_lt hc (by decide)
    · exact lt_of_le_of_lt hc (by decide)
    · have hall : ∀ d ∈ "!#$%&'*+-.^_`|~".toList, d.toNat < 128 :=
        PercentCoding.forall_mem_of_all (by decide)
      exact hall c (by simpa using hc)
  intro c hc
  rw [isToken, Bool.and_eq_true, List.all_eq_true] at h
  exact hchar c (h.2 c hc)

/-- Neither a delimiter of a header value nor a space occurs in a token. -/
theorem isToken_plain {s : Text} (h : isToken s = true) :
    ∀ c ∈ s, c ≠ ',' ∧ c ≠ ';' ∧ c ≠ '=' ∧ isSpace c = false := by
  intro c hc
  have hascii := isToken_ascii h c hc
  have htoken : isTokenChar c = true := by
    rw [isToken, Bool.and_eq_true, List.all_eq_true] at h
    exact h.2 c hc
  revert htoken
  apply PercentCoding.ascii_forall (P := fun c => isTokenChar c = true →
    c ≠ ',' ∧ c ≠ ';' ∧ c ≠ '=' ∧ isSpace c = false) _ hascii
  decide +kernel

/-- A machine whose maps keep their order and whose clock counts seconds in 63 bits, where every
request with proper header names is answered by an empty 200 response from its own URI. -/
def Platform.plain : Platform where
  toUppercase s := s.map Char.toUpper
  toLowercase s := s.map Char.toLower
  fromUtf8Lossy b := b.map fun x => Char.ofNat x.toNat
  base64 _ := []
  iteration := id
  checkRequest r :=
    if r.headers.all fun h => isToken h.1 then .ok () else .error "invalid HTTP header name".toList
  newProxy s := .ok ⟨s⟩
  run _ cfg r :=
    if cfg.timeoutGlobal.any fun q => 2 ^ 63 ≤ q then
      .panicked "overflow when adding duration to instant".toList
    else .answered ⟨200, r.uri, [], .ok []⟩
  toLowercase_ascii := Builtins.ascii.lower_ascii
  iteration_perm _ := List.Perm.refl _
  checkRequest_names r h := by
    split at h
    next ha => exact fun e he => List.all_eq_true.mp ha e he
    next => cases h

end Pyureq
