import Pyureq.Core.Headers

/-! The header list of `http_execute`: every caller header once, each of the three derived
headers at most once, and a derived one only where the caller left its name free. -/
namespace Pyureq.HeaderAssembly

/-- The derived names, each with whether the call has something to derive it from. -/
def sources (cookies : Option (OrderedMap Text Text)) (auth : Option (Text × Text))
    (contentType : Option Text) : List (Text × Bool) :=
  [("Cookie".toList, cookies.any fun cks => !cks.entries.isEmpty),
    ("Authorization".toList, auth.isSome), ("Content-Type".toList, contentType.isSome)]

variable {p : Platform} {headers cookies : Option (OrderedMap Text Text)}
  {auth : Option (Text × Text)} {contentType : Option Text}

theorem cookieValue_isSome : (cookieValue p cookies).isSome =
    cookies.any fun cks => !cks.entries.isEmpty := by
  cases cookies with
  | none => rfl
  | some cks => by_cases h : cks.entries.isEmpty = true <;> simp [cookieValue, h]

theorem sources_eq : sources cookies auth contentType =
    (derivedHeaders p cookies auth contentType).map fun d => (d.1, d.2.isSome) := by
  simp [sources, derivedHeaders, cookieValue_isSome]

/-- Among elements with distinct images only `a` has the image of `a`. -/
theorem filter_image {α β : Type*} [DecidableEq β] {f : α → β} {l : List α}
    (h : (l.map f).Nodup) {a : α} (ha : a ∈ l) : (l.filter fun x => f x = f a) = [a] := by
  obtain ⟨s, t, rfl⟩ := List.append_of_mem ha
  rw [List.map_append, List.map_cons] at h
  obtain ⟨hs, ht⟩ := List.nodup_middle.mp h |> List.nodup_cons.mp
  have hother : ∀ x ∈ s ++ t, ¬f x = f a := by
    intro x hx he
    apply hs
    rw [← he, ← List.map_append]
    exact List.mem_map_of_mem hx
  have hnil : ∀ r : List α, (∀ x ∈ r, x ∈ s ++ t) → (r.filter fun x => f x = f a) = [] := by
    intro r hr
    apply List.filter_eq_nil_iff.mpr
    intro x hx
    simpa using hother x (hr x hx)
  rw [List.filter_append, List.filter_cons_of_pos (by simp), hnil s (by simp +contextual),
    hnil t (by simp +contextual), List.nil_append]

/-- At most one element has a given image. -/
theorem filter_image_le {α β : Type*} [DecidableEq β] {f : α → β} {l : List α}
    (h : (l.map f).Nodup) (b : β) : (l.filter fun x => f x = b).length ≤ 1 := by
  by_cases hb : ∃ a ∈ l, f a = b
  · obtain ⟨a, ha, rfl⟩ := hb
    rw [filter_image h ha, List.length_singleton]
  · have hnil : (l.filter fun x => f x = b) = [] := by
      apply List.filter_eq_nil_iff.mpr
      intro x hx
      simpa using fun he => hb ⟨x, hx, he⟩
    rw [hnil]
    exact Nat.zero_le 1

theorem sameName_eq (n : Text) : (fun e : Text × Text => eqIgnoreAsciiCase e.1 n) =
    fun e => decide (e.1.map Char.toLower = n.map Char.toLower) := by
  funext e
  rw [Bool.eq_iff_iff, eqIgnoreAsciiCase_iff, decide_eq_true_iff]

/-- A sent header is none of the caller's. -/
theorem sentHeader_notMem {d : Text × Option Text} {e : Text × Text}
    (h : sentHeader headers d = some e) : e ∉ callerEntries headers := by
  intro he
  obtain ⟨hno, -, hn⟩ := sentHeader_eq_some.mp h
  have hyes : hasHeader headers d.1 = true :=
    hasHeader_eq_true.mpr ⟨e, he, eqIgnoreAsciiCase_iff.mpr (by rw [hn])⟩
  rw [hno] at hyes
  contradiction

/-- A header of the list that is not the caller's has a derived name exactly when that
name has a source and the caller left it free. -/
theorem derived_iff {d : Text × Option Text} (hd : d ∈ derivedHeaders p cookies auth contentType) :
    (∃ e ∈ requestHeaders p headers cookies auth contentType,
      e ∉ callerEntries headers ∧ eqIgnoreAsciiCase e.1 d.1 = true) ↔
      d.2.isSome = true ∧ ∀ e ∈ callerEntries headers, eqIgnoreAsciiCase e.1 d.1 = false := by
  rw [← hasHeader_eq_false]
  constructor
  · rintro ⟨e, he, hcaller, hname⟩
    rcases (mem_requestHeaders p cookies auth contentType).mp he with hc | ⟨c, hc, hs⟩
    · exact absurd hc hcaller
    · obtain ⟨hno, hv, hn⟩ := sentHeader_eq_some.mp hs
      -- the three derived names differ, so `c` is `d`
      have hcd : c = d := by
        apply List.inj_on_of_nodup_map (derivedHeaders_names p cookies auth contentType) hc hd
        rw [← hn]
        exact eqIgnoreAsciiCase_iff.mp hname
      subst hcd
      exact ⟨by rw [hv]; rfl, hno⟩
  · rintro ⟨hv, hno⟩
    obtain ⟨v, hv⟩ := Option.isSome_iff_exists.mp hv
    have hs : sentHeader headers d = some (d.1, v) := sentHeader_eq_some.mpr ⟨hno, hv, rfl⟩
    refine ⟨(d.1, v), ?_, sentHeader_notMem hs, eqIgnoreAsciiCase_iff.mpr rfl⟩
    exact (mem_requestHeaders p cookies auth contentType).mpr (Or.inr ⟨d, hd, hs⟩)

/-- Whatever order the two maps are iterated in: the caller's headers are sent once each and
unchanged, no derived name is sent twice, a derived header is sent exactly when it has a
source and the caller set no header of that name, and nothing else is sent. -/
theorem headers_assembled_once (p : Platform) (headers cookies : Option (OrderedMap Text Text))
    (auth : Option (Text × Text)) (contentType : Option Text)
    (hdistinct : ((callerEntries headers).map fun e => e.1.map Char.toLower).Nodup) :
    let sent := requestHeaders p headers cookies auth contentType
    (∀ e ∈ callerEntries headers, (sent.filter fun f => eqIgnoreAsciiCase f.1 e.1) = [e]) ∧
      (∀ s ∈ sources cookies auth contentType,
        (sent.filter fun f => eqIgnoreAsciiCase f.1 s.1).length ≤ 1 ∧
          ((∃ f ∈ sent, f ∉ callerEntries headers ∧ eqIgnoreAsciiCase f.1 s.1 = true) ↔
            s.2 = true ∧ ∀ e ∈ callerEntries headers, eqIgnoreAsciiCase e.1 s.1 = false)) ∧
      (∀ f ∈ sent, f ∈ callerEntries headers ∨
        (f.1, some f.2) ∈ derivedHeaders p cookies auth contentType) := by
  have hnodup := requestHeaders_nodup p cookies auth contentType hdistinct
  refine ⟨?_, ?_, ?_⟩
  · intro e he
    rw [sameName_eq]
    apply filter_image hnodup
    exact (mem_requestHeaders p cookies auth contentType).mpr (Or.inl he)
  · intro s hs
    rw [sources_eq (p := p)] at hs
    obtain ⟨d, hd, rfl⟩ := List.mem_map.mp hs
    refine ⟨?_, derived_iff hd⟩
    rw [sameName_eq]
    exact filter_image_le hnodup _
  · intro f hf
    rcases (mem_requestHeaders p cookies auth contentType).mp hf with hc | ⟨d, hd, hs⟩
    · exact Or.inl hc
    · obtain ⟨-, hv, hn⟩ := sentHeader_eq_some.mp hs
      apply Or.inr
      rwa [hn, ← hv]

/-- A caller who sets only `cookie`, in lower case, still gets the derived Content-Type. -/
theorem headers_assembled_once_cookie :
    let headers := some (OrderedMap.ofList [("cookie".toList, "a=1".toList)])
    let cookies := some (OrderedMap.ofList [("b".toList, "2".toList)])
    let sent := requestHeaders Platform.plain headers cookies none (some "text/plain".toList)
    (∀ e ∈ callerEntries headers, (sent.filter fun f => eqIgnoreAsciiCase f.1 e.1) = [e]) ∧
      (∀ s ∈ sources cookies none (some "text/plain".toList),
        (sent.filter fun f => eqIgnoreAsciiCase f.1 s.1).length ≤ 1 ∧
          ((∃ f ∈ sent, f ∉ callerEntries headers ∧ eqIgnoreAsciiCase f.1 s.1 = true) ↔
            s.2 = true ∧ ∀ e ∈ callerEntries headers, eqIgnoreAsciiCase e.1 s.1 = false)) ∧
      (∀ f ∈ sent, f ∈ callerEntries headers ∨
        (f.1, some f.2) ∈ derivedHeaders Platform.plain cookies none (some "text/plain".toList)) :=
  headers_assembled_once Platform.plain (some (OrderedMap.ofList [("cookie".toList, "a=1".toList)]))
    (some (OrderedMap.ofList [("b".toList, "2".toList)])) none (some "text/plain".toList) (by decide)

end Pyureq.HeaderAssembly
