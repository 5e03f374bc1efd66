import Mathlib.Data.List.Nodup
import Pyureq.Base.Delimited
import Pyureq.Core.Ureq
import Pyureq.Base.PercentCoding

/-! The header handling of `http_execute`: the list that the request builder is given, and
the folding of the response fields into one map. -/

namespace Pyureq
open PercentCoding

/-- The closure `has_header` over the caller's headers. -/
def hasHeader (headers : Option (OrderedMap Text Text)) (name : Text) : Bool :=
  match headers with
  | some h => h.keys.any fun k => eqIgnoreAsciiCase k name
  | none => false

/-- The text of the derived `Cookie` header, when there is one. -/
def cookieValue (p : Platform) : Option (OrderedMap Text Text) → Option Text
  | some cks =>
    if cks.entries.isEmpty then none
    else some ("; ".toList.intercalate ((p.iteration cks).entries.map fun e => e.1 ++ '=' :: e.2))
  | none => none

def basicCredentials (p : Platform) (auth : Text × Text) : Text :=
  "Basic ".toList ++ p.base64 (utf8 (auth.1 ++ ':' :: auth.2))

/-- `builder.header(name, value)`, which appends, unless there is no value or the caller
set the name. -/
def derive (headers : Option (OrderedMap Text Text)) (name : Text) (value : Option Text)
    (builder : List (Text × Text)) : List (Text × Text) :=
  if hasHeader headers name then builder
  else
    match value with
    | some v => builder ++ [(name, v)]
    | none => builder

def requestHeaders (p : Platform) (headers cookies : Option (OrderedMap Text Text))
    (auth : Option (Text × Text)) (contentType : Option Text) : List (Text × Text) :=
  let builder : List (Text × Text) :=
    match headers with
    | some hdrs => (p.iteration hdrs).entries
    | none => []
  let builder := derive headers "Cookie".toList (cookieValue p cookies) builder
  let builder := derive headers "Authorization".toList (auth.map (basicCredentials p)) builder
  derive headers "Content-Type".toList contentType builder

section Assembly
variable (p : Platform) (headers cookies : Option (OrderedMap Text Text))
  (auth : Option (Text × Text)) (contentType : Option Text)

/-- The caller's headers, in any order. -/
def callerEntries : List (Text × Text) :=
  match headers with
  | some h => h.entries
  | none => []

/-- The three headers that can be derived, with the value each then gets. -/
def derivedHeaders : List (Text × Option Text) :=
  [("Cookie".toList, cookieValue p cookies),
    ("Authorization".toList, auth.map (basicCredentials p)), ("Content-Type".toList, contentType)]

/-- A derived header that is sent: it has a value and the caller did not set it. -/
def sentHeader (d : Text × Option Text) : Option (Text × Text) :=
  if hasHeader headers d.1 then none else d.2.map fun v => (d.1, v)

variable {headers}

theorem hasHeader_eq_true {name : Text} : hasHeader headers name = true ↔
    ∃ e ∈ callerEntries headers, eqIgnoreAsciiCase e.1 name = true := by
  cases headers with
  | none => simp [hasHeader, callerEntries]
  | some h => simp [hasHeader, callerEntries, OrderedMap.keys]

theorem hasHeader_eq_false {name : Text} : hasHeader headers name = false ↔
    ∀ e ∈ callerEntries headers, eqIgnoreAsciiCase e.1 name = false := by
  rw [← Bool.not_eq_true, hasHeader_eq_true]
  simp

theorem sentHeader_eq_some {d : Text × Option Text} {e : Text × Text} :
    sentHeader headers d = some e ↔ hasHeader headers d.1 = false ∧ d.2 = some e.2 ∧ e.1 = d.1 := by
  obtain ⟨n, v⟩ := e
  rw [sentHeader, Option.ite_none_left_eq_some, Bool.not_eq_true, Option.map_eq_some_iff]
  constructor
  · rintro ⟨h, w, hw, hd⟩
    obtain ⟨rfl, rfl⟩ := Prod.mk.inj hd
    exact ⟨h, hw, rfl⟩
  · rintro ⟨h, hv, hn⟩
    exact ⟨h, v, hv, Prod.ext hn.symm rfl⟩

variable (headers)

theorem derive_eq (d : Text × Option Text) (builder : List (Text × Text)) :
    derive headers d.1 d.2 builder = builder ++ [d].filterMap (sentHeader headers) := by
  unfold derive sentHeader
  rcases d with ⟨n, _ | v⟩ <;> by_cases h : hasHeader headers n = true <;> simp [h]

/-- The builder is given the caller's headers and then the derived ones that are sent. -/
theorem requestHeaders_eq : ∃ own, own.Perm (callerEntries headers) ∧
    requestHeaders p headers cookies auth contentType =
      own ++ (derivedHeaders p cookies auth contentType).filterMap (sentHeader headers) := by
  have heq : ∀ own : List (Text × Text),
      derive headers "Content-Type".toList contentType
        (derive headers "Authorization".toList (auth.map (basicCredentials p))
          (derive headers "Cookie".toList (cookieValue p cookies) own)) =
        own ++ (derivedHeaders p cookies auth contentType).filterMap (sentHeader headers) := by
    intro own
    rw [derive_eq headers ("Cookie".toList, cookieValue p cookies),
      derive_eq headers ("Authorization".toList, auth.map (basicCredentials p)),
      derive_eq headers ("Content-Type".toList, contentType), List.append_assoc,
      List.append_assoc, ← List.filterMap_append, ← List.filterMap_append]
    rfl
  cases headers with
  | none => exact ⟨[], List.Perm.refl _, heq []⟩
  | some h => exact ⟨_, p.iteration_perm h, heq _⟩

variable {headers}

theorem mem_requestHeaders {e : Text × Text} :
    e ∈ requestHeaders p headers cookies auth contentType ↔ e ∈ callerEntries headers ∨
      ∃ d ∈ derivedHeaders p cookies auth contentType, sentHeader headers d = some e := by
  obtain ⟨own, hperm, heq⟩ := requestHeaders_eq p headers cookies auth contentType
  rw [heq, List.mem_append, hperm.mem_iff, List.mem_filterMap]

theorem filter_sentHeader (n : Text) (ds : List (Text × Option Text)) :
    ((ds.filterMap (sentHeader headers)).filter fun e => eqIgnoreAsciiCase e.1 n) =
      (ds.filter fun d => eqIgnoreAsciiCase d.1 n).filterMap (sentHeader headers) := by
  induction ds with
  | nil => rfl
  | cons d ds ih =>
    rw [List.filterMap_cons, List.filter_cons]
    cases hd : sentHeader headers d with
    | none => by_cases hn : eqIgnoreAsciiCase d.1 n = true <;> simp [hn, hd, ih]
    | some e =>
      have hname := (sentHeader_eq_some.mp hd).2.2
      by_cases hn : eqIgnoreAsciiCase d.1 n = true <;> simp [hn, hd, hname, ih]

/-- Unless the caller sends one, the only header of a derived name is the derived one. -/
theorem filter_derived {d : Text × Option Text}
    (hd : d ∈ derivedHeaders p cookies auth contentType) (hno : hasHeader headers d.1 = false) :
    ((requestHeaders p headers cookies auth contentType).filter fun e =>
      eqIgnoreAsciiCase e.1 d.1) = (d.2.map fun v => (d.1, v)).toList := by
  obtain ⟨own, hperm, heq⟩ := requestHeaders_eq p headers cookies auth contentType
  have hown : (own.filter fun e => eqIgnoreAsciiCase e.1 d.1) = [] := by
    apply List.filter_eq_nil_iff.mpr
    intro e he hname
    rw [hasHeader_eq_true.mpr ⟨e, hperm.mem_iff.mp he, hname⟩] at hno
    contradiction
  have hself : (derivedHeaders p cookies auth contentType).filter
      (fun e => eqIgnoreAsciiCase e.1 d.1) = [d] := by
    simp only [derivedHeaders, List.mem_cons, List.not_mem_nil, or_false] at hd
    rcases hd with rfl | rfl | rfl <;> rfl
  rw [heq, List.filter_append, hown, List.nil_append, filter_sentHeader, hself,
    List.filterMap_cons, sentHeader, hno]
  cases d.2 <;> rfl

theorem filter_cookie (hno : hasHeader headers "Cookie".toList = false) :
    ((requestHeaders p headers cookies auth contentType).filter fun e =>
      eqIgnoreAsciiCase e.1 "Cookie".toList) =
        ((cookieValue p cookies).map fun text => ("Cookie".toList, text)).toList :=
  filter_derived p cookies auth contentType (d := ("Cookie".toList, cookieValue p cookies))
    List.mem_cons_self hno

theorem derivedHeaders_names :
    ((derivedHeaders p cookies auth contentType).map fun d => d.1.map Char.toLower).Nodup := by
  have h : (["Cookie".toList, "Authorization".toList, "Content-Type".toList].map
      (List.map Char.toLower)).Nodup := by decide
  exact h

/-- If the caller's names differ up to case, so do all names that are sent. -/
theorem requestHeaders_nodup
    (h : ((callerEntries headers).map fun e => e.1.map Char.toLower).Nodup) :
    ((requestHeaders p headers cookies auth contentType).map
      fun e => e.1.map Char.toLower).Nodup := by
  obtain ⟨own, hperm, heq⟩ := requestHeaders_eq p headers cookies auth contentType
  have hsent : (((derivedHeaders p cookies auth contentType).filterMap (sentHeader headers)).map
      fun e => e.1.map Char.toLower).Sublist
        ((derivedHeaders p cookies auth contentType).map fun d => d.1.map Char.toLower) := by
    induction derivedHeaders p cookies auth contentType with
    | nil => exact List.Sublist.refl _
    | cons d ds ih =>
      rw [List.filterMap_cons]
      split
      · exact ih.cons _
      next e he =>
        obtain ⟨-, -, hn⟩ := sentHeader_eq_some.mp he
        rw [List.map_cons, List.map_cons, hn]
        exact ih.cons_cons _
  rw [heq, List.map_append]
  apply List.nodup_append.mpr
  refine ⟨(hperm.map _).nodup_iff.mpr h, hsent.nodup (derivedHeaders_names ..), ?_⟩
  intro n hn m hm hnm
  obtain ⟨e, he, rfl⟩ := List.mem_map.mp hn
  obtain ⟨f, hf, rfl⟩ := List.mem_map.mp hm
  obtain ⟨d, -, hd⟩ := List.mem_filterMap.mp hf
  obtain ⟨hno, -, hfd⟩ := sentHeader_eq_some.mp hd
  -- a sent header has a name that no caller header has
  have hyes : hasHeader headers d.1 = true :=
    hasHeader_eq_true.mpr ⟨e, hperm.mem_iff.mp he, eqIgnoreAsciiCase_iff.mpr (hfd ▸ hnm)⟩
  rw [hno] at hyes
  contradiction

end Assembly

/-- One round of the loop over the response fields. -/
def foldHeader (p : Platform) (m : OrderedMap Text Text) (f : Text × Bytes) :
    OrderedMap Text Text :=
  let val := p.fromUtf8Lossy f.2
  let name := p.toLowercase f.1
  match m.get? name with
  | some e => m.insert name (e ++ ", ".toList ++ val)
  | none => m.insert name val

def headersOut (p : Platform) (fields : List (Text × Bytes)) : OrderedMap Text Text :=
  fields.foldl (foldHeader p) OrderedMap.empty

/-- The charset of a Content-Type value. Only ASCII text lowers to `charset=`, so the slice
by bytes is a slice by characters. -/
def charsetOf (p : Platform) (ct : Text) : Option Text :=
  ((ct.splitOn ';').find? fun s => "charset=".toList.isPrefixOf (p.toLowercase (trim s))).map
    fun s => trim ((trim s).drop "charset=".length)

section Folding
variable (p : Platform)

/-- What one more field of a name makes of the text collected so far. -/
def joinField (acc : Option Text) (val : Text) : Option Text :=
  match acc with
  | some e => some (e ++ ", ".toList ++ val)
  | none => some val

theorem foldl_joinField (v : Text) (vs : List Text) :
    (v :: vs).foldl joinField none = some (", ".toList.intercalate (v :: vs)) := by
  have h : ∀ (vs : List Text) (e : Text),
      vs.foldl joinField (some e) = some (e ++ vs.flatMap (", ".toList ++ ·)) := by
    intro vs
    induction vs with
    | nil => simp
    | cons w vs ih =>
      intro e
      rw [List.foldl_cons, joinField, ih, List.flatMap_cons, List.append_assoc, List.append_assoc,
        List.append_assoc]
  rw [Delimited.intercalate_cons_flatMap, ← h]
  rfl

theorem foldHeader_get? (m : OrderedMap Text Text) (f : Text × Bytes) (k : Text) :
    (foldHeader p m f).get? k = if k = p.toLowercase f.1 then
      joinField (m.get? k) (p.fromUtf8Lossy f.2) else m.get? k := by
  unfold foldHeader
  cases h : m.get? (p.toLowercase f.1) <;> simp only [h, OrderedMap.get?_insert] <;>
    split <;> simp_all [joinField]

/-- Under its lowered name a header has the join of its values in their order. -/
theorem headersOut_get? (fields : List (Text × Bytes)) (k : Text) :
    (headersOut p fields).get? k = ((fields.filter fun f => p.toLowercase f.1 = k).map
      fun f => p.fromUtf8Lossy f.2).foldl joinField none := by
  have h : ∀ m : OrderedMap Text Text, (fields.foldl (foldHeader p) m).get? k =
      ((fields.filter fun f => p.toLowercase f.1 = k).map
        fun f => p.fromUtf8Lossy f.2).foldl joinField (m.get? k) := by
    induction fields with
    | nil => exact fun _ => rfl
    | cons f fields ih =>
      intro m
      rw [List.foldl_cons, ih, foldHeader_get?]
      by_cases hk : p.toLowercase f.1 = k
      · simp [hk]
      · have hk' : ¬k = p.toLowercase f.1 := fun h => hk h.symm
        simp [hk, hk']
  exact h OrderedMap.empty

theorem headersOut_keys {fields : List (Text × Bytes)} {k : Text}
    (h : k ∈ (headersOut p fields).keys) : ∃ f ∈ fields, p.toLowercase f.1 = k := by
  rw [OrderedMap.mem_keys_iff_get?, headersOut_get?] at h
  cases hf : fields.filter fun f => p.toLowercase f.1 = k with
  | nil => simp [hf] at h
  | cons f fs =>
    have hmem : f ∈ fields.filter fun f => p.toLowercase f.1 = k := by simp [hf]
    exact ⟨f, (List.mem_filter.mp hmem).1, by simpa using (List.mem_filter.mp hmem).2⟩

end Folding
end Pyureq
