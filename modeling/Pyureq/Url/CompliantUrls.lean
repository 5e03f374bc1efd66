import Pyureq.Url.Grammar

/-! URLs that need no encoding. Of the characters that RFC 3986 allows in front of the query
the path set denies one, the dollar sign. -/
namespace Pyureq.CompliantUrls
open Delimited PercentCoding Grammar TargetCompliance

/-- The characters in front of the query. -/
def isHeadChar (c : Char) : Bool := isRegChar c || ":@/[]%".toList.contains c

namespace Head

theorem ascii {c : Char} (h : isHeadChar c = true) : c.toNat < 128 := by
  rcases Bool.or_eq_true_iff.mp h with h | h
  · exact isRegChar_ascii h
  · have hall : ∀ d ∈ ":@/[]%".toList, d.toNat < 128 := forall_mem_of_all (by decide)
    exact hall c (by simpa using h)

/-- None of them is a question mark, both sets keep them, and the path set denies the dollar. -/
theorem kept {c : Char} (h : isHeadChar c = true) : c ≠ '?' ∧
    shouldEncode urlQuery (UInt8.ofNat c.toNat) = false ∧
    (shouldEncode urlPath (UInt8.ofNat c.toNat) = true ↔ c = '$') := by
  have ha := ascii h
  revert h
  apply ascii_forall (P := fun c => isHeadChar c = true → c ≠ '?' ∧
    shouldEncode urlQuery (UInt8.ofNat c.toNat) = false ∧
    (shouldEncode urlPath (UInt8.ofNat c.toNat) = true ↔ c = '$')) _ ha
  decide +kernel

theorem of_hex {c : Char} (h : hexValue c ≠ none) : isHeadChar c = true := by
  have ha := hexValue_ascii h
  revert h
  apply ascii_forall (P := fun c => hexValue c ≠ none → isHeadChar c = true) _ ha
  decide +kernel

theorem of_encoded {ok : Char → Bool} (hok : ∀ c, ok c = true → isHeadChar c = true) {s : Text}
    (h : Encoded ok s) : ∀ c ∈ s, isHeadChar c = true :=
  h.forall_mem hok (by decide) fun _ => of_hex

theorem of_reg {c : Char} (h : isRegChar c = true) : isHeadChar c = true := by
  simp [isHeadChar, h]

theorem of_userinfo {c : Char} (h : isUserinfoChar c = true) : isHeadChar c = true := by
  rcases Bool.or_eq_true_iff.mp h with h | h
  · exact of_reg h
  · rw [eq_of_beq h]
    decide

theorem of_pchar {c : Char} (h : isPchar c = true) : isHeadChar c = true := by
  rcases Bool.or_eq_true_iff.mp h with h | h
  · exact of_userinfo h
  · rw [eq_of_beq h]
    decide

end Head

theorem host_chars {s : Text} (h : IsHost s) : ∀ c ∈ s, isHeadChar c = true := by
  cases h with
  | name h => exact Head.of_encoded (fun _ => Head.of_reg) h
  | literal h =>
    have hb : isHeadChar '[' = true ∧ isHeadChar ']' = true := by decide
    rw [List.cons_append, List.forall_mem_cons, List.forall_mem_append, List.forall_mem_singleton]
    exact ⟨hb.1, fun c hc => Head.of_userinfo (h c hc), hb.2⟩

section Url
variable (u : CompliantUrl)

theorem authority_chars : ∀ c ∈ u.authority, isHeadChar c = true := by
  have hat : isHeadChar '@' = true ∧ isHeadChar ':' = true := by decide
  have huserinfo : ∀ s ∈ u.userinfo, ∀ c ∈ s, isHeadChar c = true := fun s hs =>
    Head.of_encoded (fun _ => Head.of_userinfo) (u.userinfo_ok s hs)
  have hport : ∀ s ∈ u.port, ∀ c ∈ s, isHeadChar c = true := by
    intro s hs c hc
    apply Head.of_reg
    apply isSchemeChar_reg
    simp [isSchemeChar, u.port_ok s hs c hc]
  rw [CompliantUrl.authority, List.forall_mem_append, List.forall_mem_append]
  refine ⟨⟨?_, host_chars u.host_ok⟩, ?_⟩
  · cases hu : u.userinfo with
    | none => simp
    | some s =>
      rw [List.forall_mem_append, List.forall_mem_singleton]
      exact ⟨huserinfo s hu, hat.1⟩
  · cases hp : u.port with
    | none => simp
    | some s => exact List.forall_mem_cons.mpr ⟨hat.2, hport s hp⟩

theorem path_chars : ∀ c ∈ u.path, isHeadChar c = true := by
  intro c hc
  obtain ⟨s, hs, hc⟩ := List.mem_flatMap.mp hc
  rcases List.mem_cons.mp hc with rfl | hc
  · decide
  · exact Head.of_encoded (fun _ => Head.of_pchar) (u.segments_ok s hs) c hc

/-- Everything in front of the query. -/
def head : Text := u.scheme ++ "://".toList ++ u.authority ++ u.path

theorem head_chars : ∀ c ∈ head u, isHeadChar c = true := by
  rw [head, List.forall_mem_append, List.forall_mem_append, List.forall_mem_append]
  refine ⟨⟨⟨?_, forall_mem_of_all (by decide)⟩, authority_chars u⟩, path_chars u⟩
  exact fun c hc => Head.of_reg (isSchemeChar_reg (u.scheme_ok.chars c hc))

theorem query_encoded : ∀ s ∈ u.query, utf8PercentEncode s urlQuery = s := by
  intro s hs
  have hquestion : '?'.toNat < 128 ∧ shouldEncode urlQuery (UInt8.ofNat '?'.toNat) = false := by
    decide +kernel
  have hhead : ∀ c : Char, isHeadChar c = true →
      c.toNat < 128 ∧ shouldEncode urlQuery (UInt8.ofNat c.toNat) = false :=
    fun c hc => ⟨Head.ascii hc, (Head.kept hc).2.1⟩
  apply encode_of_kept
  apply (u.query_ok s hs).forall_mem _ (hhead '%' (by decide)) fun c hc => hhead c (Head.of_hex hc)
  intro c hc
  simp only [isQueryChar, Bool.or_eq_true, beq_iff_eq] at hc
  rcases hc with (hc | rfl) | rfl
  · exact hhead c (Head.of_pchar hc)
  · exact hhead '/' (by decide)
  · exact hquestion

/-- The path set leaves the head alone exactly when it has no dollar sign. -/
theorem head_encoded_iff {s : Text} (hs : ∀ c ∈ s, isHeadChar c = true) :
    utf8PercentEncode s urlPath = s ↔ '$' ∉ s := by
  constructor
  · intro h hd
    rw [← h] at hd
    -- the encoder never writes a dollar sign
    rcases mem_encode (shouldEncode_high urlPath) hd with (hp | ⟨n, hn, he⟩) | ⟨-, -, hk⟩
    · exact absurd hp (by decide)
    · exact hexDigit_ne '$' (by decide) n hn he.symm
    · rw [(Head.kept (c := '$') (by decide)).2.2.mpr rfl] at hk
      contradiction
  · intro h
    apply encode_of_kept
    intro c hc
    refine ⟨Head.ascii (hs c hc), ?_⟩
    rw [← Bool.not_eq_true, (Head.kept (hs c hc)).2.2]
    rintro rfl
    exact h hc

theorem dollar_notMem_head : '$' ∉ head u ↔ '$' ∉ u.authority ∧ '$' ∉ u.path := by
  have hscheme : '$' ∉ u.scheme := by
    intro h
    have hc := u.scheme_ok.chars '$' h
    revert hc
    decide
  have hsep : '$' ∉ "://".toList := by decide
  simp only [head, List.mem_append, hscheme, hsep, false_or, not_or]

end Url

/-- A compliant URL is sent as it is exactly when neither its authority nor its path has a
dollar sign. -/
theorem compliant_untouched_iff (u : CompliantUrl) :
    percentEncodeUri u.render = u.render ↔ '$' ∉ u.authority ∧ '$' ∉ u.path := by
  have hhead := head_chars u
  have hquestion : '?' ∉ head u := fun h => (Head.kept (hhead '?' h)).1 rfl
  rw [← dollar_notMem_head, ← head_encoded_iff hhead]
  cases hq : u.query with
  | none =>
    have hr : u.render = head u := by simp [CompliantUrl.render, head, hq]
    rw [hr, percentEncodeUri_of_path hquestion]
  | some s =>
    have hr : u.render = head u ++ '?' :: s := by simp [CompliantUrl.render, head, hq]
    rw [hr, percentEncodeUri_of_query hquestion, query_encoded u s hq]
    exact List.append_left_inj _

/-- `http://h/a$b`. -/
def dollar : CompliantUrl where
  scheme := "http".toList
  userinfo := none
  host := "h".toList
  port := none
  segments := ["a$b".toList]
  query := none
  scheme_ok := http_isScheme
  userinfo_ok := by simp
  host_ok := .name (.char (by decide) .nil)
  port_ok := by simp
  segments_ok := List.forall_mem_singleton.mpr
    (.char (by decide) (.char (by decide) (.char (by decide) .nil)))
  query_ok := by simp

/-- The dollar sign of a path is a sub-delimiter, and it is escaped. -/
theorem compliant_touched : percentEncodeUri dollar.render = "http://h/a%24b".toList ∧
    percentEncodeUri dollar.render ≠ dollar.render := by
  constructor <;> decide +kernel

end Pyureq.CompliantUrls
