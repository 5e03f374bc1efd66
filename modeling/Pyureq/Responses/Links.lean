import Mathlib.Algebra.Order.BigOperators.Group.List
import Pyureq.Models
import Pyureq.Url.Grammar

/-! Reading links back. `Response.links` splits at commas and semicolons wherever they stand,
so a URI or a quoted value that has one of them is cut in two, and the quoting of backslashes
is left in the values. -/
namespace Pyureq.Links
open Delimited PercentCoding Grammar

/-- The characters that RFC 3986 admits in a URI. -/
def isUriChar (c : Char) : Bool := isQueryChar c || "#[]%".toList.contains c

/-- A link with the parameters that are sent with it, one of which is its `rel`. -/
structure Link where
  uri : Text
  params : List (Text × Text)
  uri_chars : ∀ c ∈ uri, isUriChar c = true
  names_token : ∀ e ∈ params, isToken e.1 = true
  names_free : ∀ e ∈ params, e.1 ≠ "url".toList
  values_unquoted : ∀ e ∈ params, '"' ∉ e.2
  has_rel : "rel".toList ∈ params.map Prod.fst

/-- The content of a quoted string: a backslash is written with one in front of it. -/
def escape (v : Text) : Text := v.flatMap fun c => if c = '\\' then ['\\', '\\'] else [c]

def renderParam (e : Text × Text) : Text := e.1 ++ '=' :: '"' :: (escape e.2 ++ ['"'])

namespace Link
variable (l : Link)

/-- Of several `rel` parameters the first one counts. -/
def rel : Text := (l.params.lookup "rel".toList).getD []

def render : Text :=
  '<' :: (l.uri ++ ['>']) ++ l.params.flatMap fun e => "; ".toList ++ renderParam e

/-- An entry that has the link's URL and its parameters, and nothing else. -/
def KeptIn (entry : OrderedMap Text Text) : Prop :=
  entry.get? "url".toList = some l.uri ∧ (∀ e ∈ l.params, entry.get? e.1 = some e.2) ∧
    ∀ k ∈ entry.keys, k = "url".toList ∨ k ∈ l.params.map Prod.fst

/-- Nothing in the link is cut, escaped or overridden. -/
def Plain : Prop :=
  (∀ c ∈ l.uri, c ≠ ',' ∧ c ≠ ';') ∧
    (∀ e ∈ l.params, ∀ c ∈ e.2, c ≠ ',' ∧ c ≠ ';' ∧ c ≠ '\\') ∧
    ∀ e ∈ l.params, ∀ f ∈ l.params, e.1 = f.1 → e.2 = f.2

end Link

/-- A Link field with the links of a group. -/
def field (group : List Link) : Text := ", ".toList.intercalate (group.map Link.render)

/-- One entry for each link under its `rel`, with all that belongs to it, and no other entry. -/
structure Exact (result : OrderedMap Text (OrderedMap Text Text)) (links : List Link) : Prop where
  keys : result.keys.Perm (links.map Link.rel)
  kept : ∀ l ∈ links, ∃ entry, result.get? l.rel = some entry ∧ l.KeptIn entry

section Reading

/-- The parameter that one segment of a link gives, if it gives one. -/
def attrOf (attr : Text) : Option (Text × Text) :=
  if (strip attr).contains '=' then
    some (strip (partition '=' (strip attr)).1,
      stripBy (· = '"') (strip (partition '=' (strip attr)).2))
  else none

def urlOf (part : Text) : Text :=
  stripBy (fun c => c = '<' || c = '>') (strip (((strip part).splitOn ';').headD []))

def linkOf (part : Text) : OrderedMap Text Text :=
  OrderedMap.ofList
    (("url".toList, urlOf part) :: ((strip part).splitOn ';').tail.filterMap attrOf)

/-- The entry that one comma-separated part of the header makes. -/
def entryOf (part : Text) : Text × OrderedMap Text Text :=
  (((linkOf part).get? "rel".toList).getD (urlOf part), linkOf part)

theorem foldl_readAttr (m : OrderedMap Text Text) (attrs : List Text) :
    attrs.foldl Response.readAttr m = m.update (attrs.filterMap attrOf) := by
  induction attrs generalizing m with
  | nil => rfl
  | cons attr attrs ih =>
    rw [List.foldl_cons, ih, List.filterMap_cons, Response.readAttr, attrOf]
    by_cases h : (strip attr).contains '=' = true
    · simp only [h, if_true, OrderedMap.update]
    · simp only [h, Bool.false_eq_true, if_false]

theorem foldl_readLink (m : OrderedMap Text (OrderedMap Text Text)) (parts : List Text) :
    parts.foldl Response.readLink m = m.update (parts.map entryOf) := by
  induction parts generalizing m with
  | nil => rfl
  | cons part parts ih =>
    rw [List.foldl_cons, ih, List.map_cons, OrderedMap.update, Response.readLink]
    simp only [foldl_readAttr]
    rfl

/-- The space that the join leaves in front of a part is stripped. -/
theorem entryOf_space (part : Text) : entryOf (' ' :: part) = entryOf part := by
  have hstrip : strip (' ' :: part) = strip part := stripBy_cons (by decide) part
  simp only [entryOf, linkOf, urlOf, hstrip]

theorem attrOf_mem {attr : Text} {e : Text × Text} (h : attrOf attr = some e) {c : Char}
    (hc : c ∈ e.2) : c ∈ attr := by
  rw [attrOf, Option.ite_none_right_eq_some] at h
  obtain rfl := Option.some.inj h.2
  exact mem_of_mem_stripBy (mem_of_mem_partition (mem_of_mem_stripBy (mem_of_mem_stripBy hc)))

/-- What is read from a part of the header has no delimiter in it. -/
theorem linkOf_free {part : Text} (h : ',' ∉ part) {n v : Text}
    (hv : (linkOf part).get? n = some v) : ∀ c ∈ v, c ≠ ',' ∧ c ≠ ';' := by
  have hsegment : ∀ segment ∈ (strip part).splitOn ';', ∀ c ∈ segment, c ≠ ',' ∧ c ≠ ';' := by
    rintro segment hs c hc
    refine ⟨?_, ?_⟩
    · rintro rfl
      exact h (mem_of_mem_stripBy (mem_of_mem_splitOn hs hc))
    · rintro rfl
      exact notMem_of_mem_splitOn hs hc
  obtain ⟨segment, segments, hsplit⟩ := List.exists_cons_of_ne_nil
    (List.splitOn_ne_nil ';' (strip part))
  rw [hsplit] at hsegment
  rcases List.mem_cons.mp (OrderedMap.mem_of_get?_ofList hv) with he | he
  · intro c hc
    rw [(Prod.mk.inj he).2, urlOf, hsplit] at hc
    exact hsegment segment List.mem_cons_self c (mem_of_mem_stripBy (mem_of_mem_stripBy hc))
  · obtain ⟨attr, hattr, hread⟩ := List.mem_filterMap.mp he
    rw [hsplit] at hattr
    exact fun c hc => hsegment attr (List.mem_cons_of_mem _ hattr) c (attrOf_mem hread hc)

end Reading

section Rendered

theorem isUriChar_plain {c : Char} (h : isUriChar c = true) : c ≠ '<' ∧ c ≠ '>' := by
  constructor
  · rintro rfl
    revert h
    decide
  · rintro rfl
    revert h
    decide

theorem length_escape (v : Text) : (escape v).length = v.length + v.count '\\' := by
  induction v with
  | nil => rfl
  | cons c v ih =>
    rw [escape, List.flatMap_cons, ← escape, List.length_append, ih, List.count_cons,
      List.length_cons]
    by_cases hc : c = '\\'
    · simp only [hc, if_true, beq_self_eq_true, List.length_cons, List.length_nil]
      omega
    · simp only [hc, if_false, beq_iff_eq, List.length_cons, List.length_nil]
      omega

theorem mem_escape {v : Text} {c : Char} : c ∈ escape v ↔ c ∈ v := by
  rw [escape, List.mem_flatMap]
  constructor
  · rintro ⟨d, hd, hc⟩
    by_cases hb : d = '\\'
    · have he : c = d := by simpa [hb] using hc
      rwa [he]
    · have he : c = d := by simpa [hb] using hc
      rwa [he]
  · intro hc
    refine ⟨c, hc, ?_⟩
    split
    next h => simp [h]
    next => exact List.mem_singleton_self c

/-- Only a text without a backslash is its own escape. -/
theorem escape_eq_self_iff {v : Text} : escape v = v ↔ '\\' ∉ v := by
  constructor
  · intro h
    have hlen := length_escape v
    rw [h] at hlen
    exact List.count_eq_zero.mp (by omega)
  · intro h
    have hsingle : ∀ c ∈ v, (if c = '\\' then ['\\', '\\'] else [c]) = [c] := by
      intro c hc
      rw [if_neg]
      rintro rfl
      exact h hc
    rw [escape, List.flatMap_congr hsingle, List.flatMap_singleton']

variable (l : Link)

/-- The entry that the link itself makes, if nothing in it is cut. -/
def linkRead : OrderedMap Text Text :=
  OrderedMap.ofList (("url".toList, l.uri) :: l.params.map fun e => (e.1, escape e.2))

def keyRead : Text := ((linkRead l).get? "rel".toList).getD l.uri

/-- Nothing in the link is cut. -/
def Whole : Prop :=
  (∀ c ∈ l.uri, c ≠ ',' ∧ c ≠ ';') ∧ ∀ e ∈ l.params, ∀ c ∈ e.2, c ≠ ',' ∧ c ≠ ';'

variable {l}

theorem uri_free (h : Whole l) : ∀ c ∈ '<' :: (l.uri ++ ['>']), c ≠ ',' ∧ c ≠ ';' := by
  intro c hc
  rcases List.mem_cons.mp hc with rfl | hc
  · decide
  · rcases List.mem_append.mp hc with hc | hc
    · exact h.1 c hc
    · rw [List.mem_singleton.mp hc]
      decide

theorem renderParam_free (h : Whole l) {e : Text × Text} (he : e ∈ l.params) :
    ∀ c ∈ renderParam e, c ≠ ',' ∧ c ≠ ';' := by
  intro c hc
  rcases List.mem_append.mp hc with hc | hc
  · obtain ⟨hcomma, hsemi, -⟩ := isToken_plain (l.names_token e he) c hc
    exact ⟨hcomma, hsemi⟩
  · rcases List.mem_cons.mp hc with rfl | hc
    · decide
    rcases List.mem_cons.mp hc with rfl | hc
    · decide
    rcases List.mem_append.mp hc with hc | hc
    · exact h.2 e he c (mem_escape.mp hc)
    · rw [List.mem_singleton.mp hc]
      decide

/-- A parameter is read from its segment, with the space that is left in front of it. -/
theorem attrOf_renderParam {e : Text × Text} (he : e ∈ l.params) :
    attrOf (' ' :: renderParam e) = some (e.1, escape e.2) := by
  have hname := isToken_plain (l.names_token e he)
  have hequals : '=' ∉ e.1 := fun h => (hname _ h).2.2.1 rfl
  obtain ⟨c, n, hn⟩ : ∃ c n, e.1 = c :: n := by
    apply List.exists_cons_of_ne_nil
    intro hnil
    have htoken := l.names_token e he
    rw [hnil] at htoken
    contradiction
  have hstrip : strip (' ' :: renderParam e) = renderParam e := by
    have hfirst : isSpace c = false := (hname c (hn ▸ List.mem_cons_self)).2.2.2
    have hshape : renderParam e = c :: ((n ++ '=' :: '"' :: escape e.2) ++ ['"']) := by
      rw [renderParam, hn]
      simp
    rw [strip, stripBy_cons (by decide), hshape]
    exact stripBy_cons_append hfirst (by decide) _
  have hcontains : (renderParam e).contains '=' = true := by simp [renderParam]
  have hsplit : partition '=' (renderParam e) = (e.1, '"' :: (escape e.2 ++ ['"'])) :=
    partition_append hequals _
  have hkey : strip e.1 = e.1 := strip_of_no_space fun d hd => (hname d hd).2.2.2
  have hquoted : strip ('"' :: (escape e.2 ++ ['"'])) = '"' :: (escape e.2 ++ ['"']) :=
    stripBy_cons_append (by decide) (by decide) _
  have hvalue : stripBy (· = '"') ('"' :: (escape e.2 ++ ['"'])) = escape e.2 := by
    apply stripBy_enclosed (by decide) (by decide)
    rintro d hd
    have hd' : d ≠ '"' := fun h => l.values_unquoted e he (h ▸ mem_escape.mp hd)
    simpa using hd'
  rw [attrOf, hstrip, if_pos hcontains, hsplit, hkey, hquoted, hvalue]

theorem strip_render : strip l.render = l.render := by
  have hlast : ∃ s a, isSpace a = false ∧ l.render = '<' :: (s ++ [a]) := by
    cases hp : l.params using List.reverseRecOn with
    | nil => exact ⟨l.uri, '>', by decide, by rw [Link.render, hp]; simp⟩
    | append_singleton params e =>
      refine ⟨l.uri ++ ['>'] ++ (params.flatMap fun e => "; ".toList ++ renderParam e) ++
        "; ".toList ++ e.1 ++ '=' :: '"' :: escape e.2, '"', by decide, ?_⟩
      rw [Link.render, hp]
      simp [renderParam]
  obtain ⟨s, a, ha, hs⟩ := hlast
  rw [hs]
  exact stripBy_cons_append (by decide) ha s

/-- The segments of a whole link are its URI and its parameters. -/
theorem splitOn_render (h : Whole l) : l.render.splitOn ';' =
    ('<' :: (l.uri ++ ['>'])) :: l.params.map fun e => ' ' :: renderParam e := by
  have hsep : "; ".toList = [';', ' '] := by decide
  have hrender : l.render =
      [';', ' '].intercalate (('<' :: (l.uri ++ ['>'])) :: l.params.map renderParam) := by
    rw [Link.render, intercalate_cons_flatMap, List.flatMap_map, hsep]
  rw [hrender, splitOn_intercalate_cons,
    List.splitOn_eq_singleton fun hc => (uri_free h _ hc).2 rfl, List.singleton_append,
    List.flatMap_map, List.map_eq_flatMap]
  congr 1
  apply List.flatMap_congr
  intro e he
  apply List.splitOn_eq_singleton
  intro hc
  rcases List.mem_cons.mp hc with hc | hc
  · contradiction
  · exact (renderParam_free h he _ hc).2 rfl

theorem entryOf_render (h : Whole l) : entryOf l.render = (keyRead l, linkRead l) := by
  have hurl : urlOf l.render = l.uri := by
    have hbare : strip ('<' :: (l.uri ++ ['>'])) = '<' :: (l.uri ++ ['>']) :=
      stripBy_cons_append (by decide) (by decide) _
    rw [urlOf, strip_render, splitOn_render h, List.headD_cons, hbare]
    apply stripBy_enclosed (by decide) (by decide)
    intro c hc
    simpa using isUriChar_plain (l.uri_chars c hc)
  have hattrs : (l.params.map fun e => ' ' :: renderParam e).filterMap attrOf =
      l.params.map fun e => (e.1, escape e.2) := by
    rw [List.filterMap_map, ← List.filterMap_eq_map]
    apply List.filterMap_congr
    exact fun e he => attrOf_renderParam he
  have hlink : linkOf l.render = linkRead l := by
    rw [linkOf, hurl, strip_render, splitOn_render h, List.tail_cons, hattrs, linkRead]
  rw [entryOf, hlink, hurl, keyRead]

theorem render_free (h : Whole l) : ',' ∉ l.render := by
  rw [Link.render, List.mem_append, List.mem_flatMap]
  rintro (hc | ⟨e, he, hc⟩)
  · exact (uri_free h _ hc).1 rfl
  · rcases List.mem_append.mp hc with hc | hc
    · revert hc
      decide
    · exact (renderParam_free h he _ hc).1 rfl

end Rendered

section Response
variable {b : Builtins} {p : Platform} {resp : HttpResponse} {raw : RawResponse}

/-- Several fields of the core's join are one list of links. -/
theorem field_intercalate {groups : List (List Link)} (h : ∀ g ∈ groups, g ≠ []) :
    ", ".toList.intercalate (groups.map field) =
      ", ".toList.intercalate (groups.flatten.map Link.render) := by
  have hmap : ∀ g ∈ groups.map (List.map Link.render), g ≠ [] := by
    intro g hg
    obtain ⟨links, hlinks, rfl⟩ := List.mem_map.mp hg
    simpa using h links hlinks
  rw [List.map_flatten, ← intercalate_flatten hmap, List.map_map]
  rfl

/-- Every part of every link makes an entry. -/
theorem links_eq (hnames : ∀ f ∈ resp.headers, isToken f.1 = true) {groups : List (List Link)}
    (hgroups : ∀ g ∈ groups, g ≠ [])
    (hfields : ((resp.headers.filter fun f => p.toLowercase f.1 = "link".toList).map
      fun f => p.fromUtf8Lossy f.2) = groups.map field)
    (hraw : rawResponse p resp = .ok raw) :
    (Response.init b.lower p raw).links =
      OrderedMap.ofList (groups.flatten.flatMap fun l => (l.render.splitOn ',').map entryOf) := by
  have hget : (Response.init b.lower p raw).headers.getItem "link".toList =
      (groups.map field).foldl joinField none := by
    rw [Response.init_getItem_field hnames (rawResponse_ok hraw).1
      (forall_mem_of_all (by decide)) (by decide), headersOut_get?, hfields]
  rw [Response.links, hget]
  cases groups with
  | nil => rfl
  | cons g groups =>
    obtain ⟨l, ls, rfl⟩ := List.exists_cons_of_ne_nil (hgroups g List.mem_cons_self)
    have hsep : ", ".toList = [',', ' '] := by decide
    rw [List.map_cons, foldl_joinField, ← List.map_cons, field_intercalate hgroups,
      List.flatten_cons, List.cons_append, List.map_cons]
    have hne : (", ".toList.intercalate
        (l.render :: (ls ++ groups.flatten).map Link.render)).isEmpty = false := by
      rw [intercalate_cons_flatMap, Link.render]
      rfl
    have hread := filterMap_splitOn_intercalate (f := some ∘ entryOf) (d := ',') (x := ' ')
      (by decide) (fun s => congrArg some (entryOf_space s)) l.render
      ((ls ++ groups.flatten).map Link.render)
    simp only [List.filterMap_eq_map] at hread
    rw [Option.getD_some, hne, if_neg Bool.false_ne_true, foldl_readLink, hsep, hread,
      ← List.map_cons, List.flatMap_map]
    rfl

end Response

section Exactness
variable {l : Link} {links : List Link}

theorem rel_mem (l : Link) : ("rel".toList, l.rel) ∈ l.params := by
  have hsome : (l.params.lookup "rel".toList).isSome := by
    rw [Option.isSome_iff_ne_none, ne_eq, List.lookup_eq_none_iff]
    intro h
    obtain ⟨e, he, hrel⟩ := List.mem_map.mp l.has_rel
    simpa [hrel] using h e he
  obtain ⟨v, hv⟩ := Option.isSome_iff_exists.mp hsome
  obtain ⟨l₁, l₂, hl, -⟩ := List.lookup_eq_some_iff.mp hv
  rw [Link.rel, hv, hl]
  exact List.mem_append_cons_self

theorem linkRead_mem {n v : Text} (h : (linkRead l).get? n = some v) (hn : n ≠ "url".toList) :
    ∃ w, (n, w) ∈ l.params ∧ escape w = v := by
  rcases List.mem_cons.mp (OrderedMap.mem_of_get?_ofList h) with he | he
  · exact absurd (Prod.mk.inj he).1 hn
  · obtain ⟨e, hmem, he⟩ := List.mem_map.mp he
    obtain ⟨rfl, rfl⟩ := Prod.mk.inj he
    exact ⟨e.2, hmem, rfl⟩

theorem linkRead_keys {k : Text} :
    k ∈ (linkRead l).keys ↔ k = "url".toList ∨ k ∈ l.params.map Prod.fst := by
  rw [linkRead, OrderedMap.mem_keys_ofList, List.map_cons, List.mem_cons, List.map_map]
  rfl

theorem linkRead_url (l : Link) : (linkRead l).get? "url".toList = some l.uri := by
  obtain ⟨v, hmem, hv⟩ := OrderedMap.exists_get?_ofList
    (OrderedMap.mem_keys_ofList.mp (linkRead_keys.mpr (Or.inl rfl) : _ ∈ (linkRead l).keys))
  rcases List.mem_cons.mp hmem with he | he
  · rw [← (Prod.mk.inj he).2]
    exact hv
  · obtain ⟨e, he, hname⟩ := List.mem_map.mp he
    exact absurd (Prod.mk.inj hname).1 (l.names_free e he)

/-- A parameter of the link has some value in what is read. -/
theorem linkRead_exists {e : Text × Text} (he : e ∈ l.params) :
    ∃ w, (e.1, w) ∈ l.params ∧ (linkRead l).get? e.1 = some (escape w) := by
  have hkey : e.1 ∈ (linkRead l).keys := linkRead_keys.mpr (Or.inr (List.mem_map_of_mem he))
  obtain ⟨v, -, hv⟩ := OrderedMap.exists_get?_ofList (OrderedMap.mem_keys_ofList.mp hkey)
  obtain ⟨w, hw, rfl⟩ := linkRead_mem hv (l.names_free e he)
  exact ⟨w, hw, hv⟩

theorem keyRead_mem (l : Link) : ∃ w, ("rel".toList, w) ∈ l.params ∧ keyRead l = escape w ∧
    (linkRead l).get? "rel".toList = some (keyRead l) := by
  obtain ⟨w, hw, hget⟩ := linkRead_exists (rel_mem l)
  have hkey : keyRead l = escape w := by rw [keyRead, hget, Option.getD_some]
  exact ⟨w, hw, hkey, hkey ▸ hget⟩

theorem Link.Plain.whole (h : l.Plain) : Whole l := by
  refine ⟨h.1, ?_⟩
  intro e he c hc
  obtain ⟨hcomma, hsemi, -⟩ := h.2.1 e he c hc
  exact ⟨hcomma, hsemi⟩

/-- A plain link is read as it is. -/
theorem Link.Plain.kept (h : l.Plain) : keyRead l = l.rel ∧ l.KeptIn (linkRead l) := by
  obtain ⟨-, hvalues, hagree⟩ := h
  have hescape : ∀ e ∈ l.params, escape e.2 = e.2 := by
    intro e he
    exact escape_eq_self_iff.mpr fun hb => (hvalues e he _ hb).2.2 rfl
  have hget : ∀ e ∈ l.params, (linkRead l).get? e.1 = some e.2 := by
    intro e he
    obtain ⟨w, hw, hget⟩ := linkRead_exists he
    rw [hget, hescape _ hw, hagree _ hw e he rfl]
  refine ⟨?_, linkRead_url l, hget, fun k hk => linkRead_keys.mp hk⟩
  rw [keyRead, hget _ (rel_mem l), Option.getD_some]

/-- If everything is kept, no link is cut: what is read from a part has no delimiter. -/
theorem Exact.whole (h : Exact (OrderedMap.ofList
    (links.flatMap fun l => (l.render.splitOn ',').map entryOf)) links) :
    ∀ l ∈ links, Whole l := by
  intro l hl
  obtain ⟨entry, hget, huri, hparams, -⟩ := h.kept l hl
  obtain ⟨m, -, hm⟩ := List.mem_flatMap.mp (OrderedMap.mem_of_get?_ofList hget)
  obtain ⟨part, hpart, hread⟩ := List.mem_map.mp hm
  obtain rfl : linkOf part = entry := congrArg Prod.snd hread
  have hcomma := notMem_of_mem_splitOn hpart
  exact ⟨linkOf_free hcomma huri, fun e he => linkOf_free hcomma (hparams e he)⟩

theorem read_whole (h : ∀ l ∈ links, Whole l) :
    (links.flatMap fun l => (l.render.splitOn ',').map entryOf) =
      links.map fun l => (keyRead l, linkRead l) := by
  rw [List.map_eq_flatMap]
  apply List.flatMap_congr
  intro l hl
  rw [List.splitOn_eq_singleton (render_free (h l hl)), List.map_singleton,
    entryOf_render (h l hl)]

/-- The keys are the `rel` values with their backslashes doubled, so if they are the `rel`
values, there are no backslashes. -/
theorem keys_plain (hrels : (links.map Link.rel).Nodup)
    (hkeys : ∀ l ∈ links, keyRead l = escape l.rel)
    (hread : ∀ l ∈ links, ∃ m ∈ links, keyRead m = l.rel) :
    ∀ l ∈ links, keyRead l = l.rel := by
  have hsub : links.map Link.rel ⊆ links.map keyRead := by
    intro r hr
    obtain ⟨l, hl, rfl⟩ := List.mem_map.mp hr
    obtain ⟨m, hm, hkey⟩ := hread l hl
    exact hkey ▸ List.mem_map_of_mem hm
  have hperm : (links.map Link.rel).Perm (links.map keyRead) :=
    (List.subperm_of_subset hrels hsub).perm_of_length_le (by simp)
  have hsum : (links.map fun l => l.rel.length).sum =
      (links.map fun l => l.rel.length + l.rel.count '\\').sum := by
    have h := (hperm.map List.length).sum_eq
    rw [List.map_map, List.map_map] at h
    refine h.trans (congrArg List.sum (List.map_congr_left ?_))
    intro l hl
    rw [Function.comp_apply, hkeys l hl, length_escape]
  rw [List.sum_map_add, Nat.left_eq_add, List.sum_eq_zero_iff] at hsum
  intro l hl
  have hcount := hsum _ (List.mem_map_of_mem hl)
  rw [hkeys l hl, escape_eq_self_iff, ← List.count_eq_zero, hcount]

/-- If whole links are kept, they are plain. -/
theorem Exact.plain (hrels : (links.map Link.rel).Nodup) (hwhole : ∀ l ∈ links, Whole l)
    (h : Exact (OrderedMap.ofList (links.map fun l => (keyRead l, linkRead l))) links) :
    ∀ l ∈ links, l.Plain := by
  have hentry : ∀ l ∈ links, ∃ m ∈ links, keyRead m = l.rel ∧ l.KeptIn (linkRead m) := by
    intro l hl
    obtain ⟨entry, hget, hkept⟩ := h.kept l hl
    obtain ⟨m, hm, he⟩ := List.mem_map.mp (OrderedMap.mem_of_get?_ofList hget)
    obtain ⟨hkey, rfl⟩ := Prod.mk.inj he
    exact ⟨m, hm, hkey, hkept⟩
  have hkeys : ∀ l ∈ links, keyRead l = escape l.rel := by
    intro l hl
    obtain ⟨m, hm, hkey, -, hparams, -⟩ := hentry l hl
    obtain ⟨w, hw, hescape, -⟩ := keyRead_mem l
    obtain ⟨-, -, -, hget⟩ := keyRead_mem m
    have hrel : w = keyRead m := Option.some.inj ((hparams _ hw).symm.trans hget)
    rw [hescape, hrel, hkey]
  have hplain := keys_plain hrels hkeys fun l hl =>
    (hentry l hl).imp fun m hm => ⟨hm.1, hm.2.1⟩
  intro l hl
  obtain ⟨m, hm, hkey, -, hparams, -⟩ := hentry l hl
  -- distinct `rel` values: the entry is the link's own
  obtain rfl : m = l := List.inj_on_of_nodup_map hrels hm hl (by rw [← hkey, hplain m hm])
  have hescape : ∀ e ∈ m.params, escape e.2 = e.2 := by
    intro e he
    obtain ⟨w, hw, hread⟩ := linkRead_mem (hparams e he) (m.names_free e he)
    have hwe : w = e.2 := Option.some.inj ((hparams _ hw).symm.trans (hparams e he))
    rw [← hwe, hread, hwe]
  refine ⟨(hwhole m hm).1, ?_, ?_⟩
  · intro e he c hc
    obtain ⟨hcomma, hsemi⟩ := (hwhole m hm).2 e he c hc
    refine ⟨hcomma, hsemi, ?_⟩
    rintro rfl
    exact escape_eq_self_iff.mp (hescape e he) hc
  · intro e he f hf hef
    have hget := hparams f hf
    rw [← hef, hparams e he] at hget
    exact Option.some.inj hget

/-- Plain links are kept. -/
theorem exact_of_plain (hrels : (links.map Link.rel).Nodup) (h : ∀ l ∈ links, l.Plain) :
    Exact (OrderedMap.ofList (links.map fun l => (keyRead l, linkRead l))) links := by
  have hlist : (links.map fun l => (keyRead l, linkRead l)) =
      links.map fun l => (l.rel, linkRead l) := by
    apply List.map_congr_left
    intro l hl
    rw [(h l hl).kept.1]
  have hfst : (links.map fun l => (l.rel, linkRead l)).map Prod.fst = links.map Link.rel := by
    rw [List.map_map]
    rfl
  have hentries := OrderedMap.ofList_of_nodup (hfst ▸ hrels)
  rw [hlist]
  constructor
  · rw [OrderedMap.keys, hentries, hfst]
  · intro l hl
    refine ⟨linkRead l, ?_, (h l hl).kept.2⟩
    rw [OrderedMap.get?_eq_some, hentries]
    exact List.mem_map.mpr ⟨l, hl, rfl⟩

end Exactness

/-- `Response.links` returns the links that were sent exactly when none of them has a comma, a
semicolon, a backslash or two values for one parameter. -/
theorem links_exact_iff {b : Builtins} {p : Platform} {resp : HttpResponse} {raw : RawResponse}
    (hnames : ∀ f ∈ resp.headers, isToken f.1 = true) {groups : List (List Link)}
    (hgroups : ∀ g ∈ groups, g ≠ [])
    (hfields : ((resp.headers.filter fun f => p.toLowercase f.1 = "link".toList).map
      fun f => p.fromUtf8Lossy f.2) = groups.map field)
    (hraw : rawResponse p resp = .ok raw) (hrels : (groups.flatten.map Link.rel).Nodup) :
    Exact (Response.init b.lower p raw).links groups.flatten ↔
      ∀ l ∈ groups.flatten, l.Plain := by
  rw [links_eq hnames hgroups hfields hraw]
  constructor
  · intro h
    have hwhole := h.whole
    rw [read_whole hwhole] at h
    exact h.plain hrels hwhole
  · intro h
    rw [read_whole fun l hl => (h l hl).whole]
    exact exact_of_plain hrels h

/-- A response with one Link field for each group. -/
def answer (groups : List (List Link)) : HttpResponse :=
  ⟨200, "http://h/".toList,
    groups.map fun g => ("Link".toList, (field g).map fun c => UInt8.ofNat c.toNat), .ok []⟩

/-- `<http://h/?page=2>; rel="next"; title="a = b"`. -/
def next : Link where
  uri := "http://h/?page=2".toList
  params := [("rel".toList, "next".toList), ("title".toList, "a = b".toList)]
  uri_chars := forall_mem_of_all (by decide)
  names_token := forall_mem_of_all (by decide)
  names_free := by decide
  values_unquoted := by decide
  has_rel := by decide

/-- `<http://h/>; rel="first"`. -/
def first : Link where
  uri := "http://h/".toList
  params := [("rel".toList, "first".toList)]
  uri_chars := forall_mem_of_all (by decide)
  names_token := forall_mem_of_all (by decide)
  names_free := by decide
  values_unquoted := by decide
  has_rel := by decide

theorem links_exact_iff_two : ∃ raw,
    rawResponse Platform.plain (answer [[next, first]]) = .ok raw ∧
      Exact (Response.init Builtins.ascii.lower Platform.plain raw).links [next, first] := by
  refine ⟨_, rfl, ?_⟩
  apply (@links_exact_iff Builtins.ascii Platform.plain (answer [[next, first]]) _ (by decide)
    [[next, first]] (by decide) (by decide) rfl (by decide)).mpr
  have hnext : next.Plain := by
    refine ⟨forall_mem_of_all (by decide), List.forall_mem_cons.mpr ⟨?_, ?_⟩, by decide⟩
    · exact forall_mem_of_all (by decide)
    · exact List.forall_mem_singleton.mpr (forall_mem_of_all (by decide))
  have hfirst : first.Plain := by
    refine ⟨forall_mem_of_all (by decide), List.forall_mem_singleton.mpr ?_, by decide⟩
    exact forall_mem_of_all (by decide)
  exact List.forall_mem_cons.mpr ⟨hnext, List.forall_mem_singleton.mpr hfirst⟩

/-- `<http://h/?ids=1,2>; rel="next"`. -/
def ids : Link where
  uri := "http://h/?ids=1,2".toList
  params := [("rel".toList, "next".toList)]
  uri_chars := forall_mem_of_all (by decide)
  names_token := forall_mem_of_all (by decide)
  names_free := by decide
  values_unquoted := by decide
  has_rel := by decide

/-- The URI is cut at its comma: its tail becomes the link's URL and its head a link of its own. -/
theorem links_not_exact : (∀ f ∈ (answer [[ids]]).headers, isToken f.1 = true) ∧
    ∃ raw, rawResponse Platform.plain (answer [[ids]]) = .ok raw ∧
      (Response.init Builtins.ascii.lower Platform.plain raw).links.keys =
        ["http://h/?ids=1".toList, "next".toList] ∧
      ((Response.init Builtins.ascii.lower Platform.plain raw).links.get? "next".toList).bind
        (fun e => e.get? "url".toList) = some "2".toList ∧
      ¬Exact (Response.init Builtins.ascii.lower Platform.plain raw).links [ids] := by
  have hkeys : ∀ result : OrderedMap Text (OrderedMap Text Text),
      result.keys = ["http://h/?ids=1".toList, "next".toList] → ¬Exact result [ids] := by
    intro result hr h
    have hlen := h.keys.length_eq
    rw [hr] at hlen
    contradiction
  refine ⟨by decide, _, rfl, by decide, by decide, hkeys _ (by decide)⟩

end Pyureq.Links
