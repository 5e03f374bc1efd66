import Pyureq.Models

/-! Reading cookies back. The core joins the Set-Cookie fields with a comma and
`Response.cookies` splits at commas, so the text behind a comma inside an attribute is read
as one more cookie. -/
namespace Pyureq.SetCookie
open Delimited PercentCoding

def isControl (c : Char) : Bool := c.toNat < 32 || c.toNat == 127

/-- A Set-Cookie field that conforms to RFC 6265, section 4.1.1. -/
structure Field where
  name : Text
  value : Text
  attrs : List Text
  name_token : isToken name = true
  value_plain : ∀ c ∈ value, c ≠ ',' ∧ c ≠ ';' ∧ isSpace c = false
  attrs_plain : ∀ a ∈ attrs, ∀ c ∈ a, c ≠ ';' ∧ isControl c = false

/-- The assignment that one comma-separated piece of the header makes, if it makes one. -/
def assignment (fragment : Text) : Option (Text × Text) :=
  let firstPart := strip ((fragment.splitOn ';').headD [])
  if firstPart.contains '=' then
    some (strip (partition '=' firstPart).1, strip (partition '=' firstPart).2)
  else none

namespace Field
variable (f : Field)

def pair : Text := f.name ++ '=' :: f.value

def attributes : Text := f.attrs.flatMap fun a => "; ".toList ++ a

def render : Text := f.pair ++ f.attributes

/-- What the pieces behind the commas of the attributes assign. -/
def spurious : List (Text × Text) := (f.render.splitOn ',').tail.filterMap assignment

/-- All assignments that the field causes, the one it means first and marked. -/
def assigns : List (Bool × Text × Text) :=
  (true, f.name, f.value) :: f.spurious.map fun a => (false, a)

end Field

/-- What the server set: each name with the value in the last field that sets it. -/
def meant (fields : List Field) : OrderedMap Text Text :=
  OrderedMap.ofList (fields.map fun f => (f.name, f.value))

/-- An assignment that comes out of an attribute is overridden later on, or repeats the value
that the server means its name to have. -/
def Harmless (fields : List Field) : Prop :=
  ∀ before n v after, fields.flatMap Field.assigns = before ++ (false, n, v) :: after →
    (∀ e ∈ after, e.2.1 ≠ n) → (meant fields).get? n = some v

section Reading

theorem readCookie_eq (m : OrderedMap Text Text) (piece : Text) : Response.readCookie m piece =
    match assignment piece with
    | some a => m.insert a.1 a.2
    | none => m := by
  unfold Response.readCookie assignment
  dsimp only
  split <;> rfl

theorem foldl_readCookie (m : OrderedMap Text Text) (pieces : List Text) :
    pieces.foldl Response.readCookie m = m.update (pieces.filterMap assignment) := by
  induction pieces generalizing m with
  | nil => rfl
  | cons piece pieces ih =>
    rw [List.foldl_cons, ih, readCookie_eq, List.filterMap_cons]
    cases assignment piece <;> rfl

theorem headD_splitOn (d : Char) (s : Text) : (s.splitOn d).headD [] = (cut d s).1 := by
  rw [splitOn_eq_cut]
  rfl

/-- The space that the join leaves in front of a piece is stripped. -/
theorem assignment_space (piece : Text) : assignment (' ' :: piece) = assignment piece := by
  have hstrip : ∀ s, strip (' ' :: s) = strip s := stripBy_cons (by decide)
  have hcut : (cut ';' (' ' :: piece)).1 = ' ' :: (cut ';' piece).1 := by
    rw [cut_cons_ne (by decide)]
  simp only [assignment, headD_splitOn, hcut, hstrip]

/-- The pieces of the joined header assign what the pieces of the fields assign. -/
theorem pieces_intercalate (l : Text) (ls : List Text) :
    ((", ".toList.intercalate (l :: ls)).splitOn ',').filterMap assignment =
      (l :: ls).flatMap fun s => (s.splitOn ',').filterMap assignment := by
  have hsep : ", ".toList = [',', ' '] := by decide
  rw [hsep]
  exact filterMap_splitOn_intercalate (by decide) assignment_space l ls

end Reading

section Fields

variable (f : Field)

theorem name_plain : ∀ c ∈ f.name, c ≠ ',' ∧ c ≠ ';' ∧ c ≠ '=' ∧ isSpace c = false :=
  isToken_plain f.name_token

theorem pair_plain : ∀ c ∈ f.pair, c ≠ ',' ∧ c ≠ ';' ∧ isSpace c = false := by
  intro c hc
  rcases List.mem_append.mp hc with hn | hv
  · obtain ⟨h1, h2, -, h3⟩ := name_plain f c hn
    exact ⟨h1, h2, h3⟩
  · rcases List.mem_cons.mp hv with rfl | hv
    · decide
    · exact f.value_plain c hv

theorem attributes_cases : f.attributes = [] ∨ ∃ t, f.attributes = ';' :: t := by
  unfold Field.attributes
  cases f.attrs with
  | nil => exact Or.inl rfl
  | cons a as => exact Or.inr ⟨_, rfl⟩

/-- The first piece of a field assigns its value to its name. -/
theorem assignment_head : assignment (cut ',' f.render).1 = some (f.name, f.value) := by
  have hcomma : ',' ∉ f.pair := fun h => (pair_plain f _ h).1 rfl
  have hsemi : ';' ∉ f.pair := fun h => (pair_plain f _ h).2.1 rfl
  have hequals : '=' ∉ f.name := fun h => (name_plain f _ h).2.2.1 rfl
  have hfirst : (cut ';' (cut ',' f.render).1).1 = f.pair := by
    rw [Field.render, cut_append_of_notMem hcomma]
    rcases attributes_cases f with h | ⟨t, h⟩
    · rw [h]
      simp only [cut, List.append_nil]
      rw [cut_of_notMem hsemi]
    · rw [h, cut_cons_ne (by decide)]
      simp only [cut_append_cons hsemi]
  have hstrip : strip f.pair = f.pair := strip_of_no_space fun c hc => (pair_plain f c hc).2.2
  have hname : strip f.name = f.name := strip_of_no_space fun c hc => (name_plain f c hc).2.2.2
  have hvalue : strip f.value = f.value :=
    strip_of_no_space fun c hc => (f.value_plain c hc).2.2
  have hcontains : f.pair.contains '=' = true := by simp [Field.pair]
  have hsplit : partition '=' f.pair = (f.name, f.value) := partition_append hequals f.value
  simp only [assignment, headD_splitOn, hfirst, hstrip, hcontains, if_true, hsplit, hname, hvalue]

theorem pieces_render : (f.render.splitOn ',').filterMap assignment =
    (f.name, f.value) :: f.spurious := by
  rw [Field.spurious, splitOn_eq_cut, List.filterMap_cons, assignment_head, List.tail_cons]

theorem assigns_snd : f.assigns.map Prod.snd = (f.name, f.value) :: f.spurious := by
  simp [Field.assigns]

theorem render_ne_nil : f.render ≠ [] := by
  simp [Field.render, Field.pair]

end Fields

section Lookup
variable {κ ν : Type} [DecidableEq κ]

/-- A map built from left to right holds the last assignment to a name. -/
theorem get?_ofList_eq_some {es : List (κ × ν)} {n : κ} {v : ν} :
    (OrderedMap.ofList es).get? n = some v ↔
      ∃ before after, es = before ++ (n, v) :: after ∧ ∀ e ∈ after, e.1 ≠ n := by
  rw [OrderedMap.get?_ofList, List.lookup_eq_some_iff]
  constructor
  · rintro ⟨xs, ys, h, hn⟩
    refine ⟨ys.reverse, xs.reverse, ?_, ?_⟩
    · rw [← List.reverse_reverse es, h]
      simp
    · intro e he hen
      simpa [hen] using hn e (List.mem_reverse.mp he)
  · rintro ⟨before, after, rfl, hn⟩
    refine ⟨after.reverse, before.reverse, by simp, ?_⟩
    intro e he
    have hne := hn e (List.mem_reverse.mp he)
    simpa using fun h => hne h.symm

/-- Every name that is assigned at all has a last assignment. -/
theorem last_assignment {α : Type} (key : α → κ) {l : List α} {n : κ} (h : ∃ e ∈ l, key e = n) :
    ∃ before e after, l = before ++ e :: after ∧ key e = n ∧ ∀ x ∈ after, key x ≠ n := by
  induction l with
  | nil => simp at h
  | cons a l ih =>
    by_cases hl : ∃ e ∈ l, key e = n
    · obtain ⟨before, e, after, rfl, he, hafter⟩ := ih hl
      exact ⟨a :: before, e, after, rfl, he, hafter⟩
    · obtain ⟨e, he, hen⟩ := h
      rcases List.mem_cons.mp he with rfl | he
      · exact ⟨[], e, l, rfl, hen, fun x hx hxn => hl ⟨x, hx, hxn⟩⟩
      · exact absurd ⟨e, he, hen⟩ hl

end Lookup

section Response
variable {b : Builtins} {p : Platform} {resp : HttpResponse} {raw : RawResponse}

/-- The response's cookies are all assignments of all fields, in order. -/
theorem cookies_eq (hnames : ∀ f ∈ resp.headers, isToken f.1 = true) {fields : List Field}
    (hfields : ((resp.headers.filter fun f => p.toLowercase f.1 = "set-cookie".toList).map
      fun f => p.fromUtf8Lossy f.2) = fields.map Field.render)
    (hraw : rawResponse p resp = .ok raw) :
    (Response.init b.lower p raw).cookies =
      OrderedMap.ofList ((fields.flatMap Field.assigns).map Prod.snd) := by
  have hget : (Response.init b.lower p raw).headers.getItem "set-cookie".toList =
      (fields.map Field.render).foldl joinField none := by
    rw [Response.init_getItem_field hnames (rawResponse_ok hraw).1
      (forall_mem_of_all (by decide)) (by decide), headersOut_get?, hfields]
  rw [Response.cookies, hget]
  cases fields with
  | nil => rfl
  | cons f fs =>
    have hne : (", ".toList.intercalate ((f :: fs).map Field.render)).isEmpty = false := by
      rw [List.map_cons, intercalate_cons_flatMap]
      simp [render_ne_nil f]
    have hjoin : ((f :: fs).map Field.render).foldl joinField none =
        some (", ".toList.intercalate ((f :: fs).map Field.render)) := by
      rw [List.map_cons, foldl_joinField]
    rw [hjoin, Option.getD_some, hne, foldl_readCookie, OrderedMap.ofList]
    simp only [Bool.false_eq_true, if_false]
    congr 1
    rw [List.map_cons, pieces_intercalate, ← List.map_cons, List.flatMap_map, List.map_flatMap]
    apply List.flatMap_congr
    intro g _
    rw [pieces_render, assigns_snd]

/-- The fields' own assignments are the marked ones. -/
theorem filter_assigns (fields : List Field) :
    (((fields.flatMap Field.assigns).filter fun e => e.1).map Prod.snd) =
      fields.map fun f => (f.name, f.value) := by
  induction fields with
  | nil => rfl
  | cons f fs ih =>
    have hf : (f.assigns.filter fun e => e.1) = [(true, f.name, f.value)] := by
      rw [Field.assigns, List.filter_cons_of_pos rfl, List.filter_eq_nil_iff.mpr]
      intro e he
      obtain ⟨a, -, rfl⟩ := List.mem_map.mp he
      simp
    rw [List.flatMap_cons, List.filter_append, List.map_append, hf, ih]
    rfl

/-- The cookies read from the joined header are those the server set exactly when no piece of
an attribute changes them. -/
theorem cookies_exact_iff (hnames : ∀ f ∈ resp.headers, isToken f.1 = true) {fields : List Field}
    (hfields : ((resp.headers.filter fun f => p.toLowercase f.1 = "set-cookie".toList).map
      fun f => p.fromUtf8Lossy f.2) = fields.map Field.render)
    (hraw : rawResponse p resp = .ok raw) :
    (∀ n, (Response.init b.lower p raw).cookies.get? n = (meant fields).get? n) ↔
      Harmless fields := by
  rw [cookies_eq hnames hfields hraw]
  constructor
  · intro h before n v after hsplit hafter
    rw [← h n, get?_ofList_eq_some, hsplit]
    refine ⟨before.map Prod.snd, after.map Prod.snd, by simp, ?_⟩
    intro e he
    obtain ⟨x, hx, rfl⟩ := List.mem_map.mp he
    exact hafter x hx
  · intro h n
    by_cases hn : ∃ e ∈ fields.flatMap Field.assigns, e.2.1 = n
    · obtain ⟨before, ⟨own, n', v⟩, after, hsplit, rfl, hafter⟩ :=
        last_assignment (fun e : Bool × Text × Text => e.2.1) hn
      have hread : (OrderedMap.ofList ((fields.flatMap Field.assigns).map Prod.snd)).get? n' =
          some v := by
        rw [get?_ofList_eq_some, hsplit]
        refine ⟨before.map Prod.snd, after.map Prod.snd, by simp, ?_⟩
        intro e he
        obtain ⟨x, hx, rfl⟩ := List.mem_map.mp he
        exact hafter x hx
      rw [hread]
      cases own with
      | false => exact (h before n' v after hsplit hafter).symm
      | true =>
        -- the last assignment is a field's own, so it is the last field's
        apply Eq.symm
        rw [meant, ← filter_assigns, get?_ofList_eq_some, hsplit]
        refine ⟨(before.filter fun e => e.1).map Prod.snd,
          (after.filter fun e => e.1).map Prod.snd, by simp, ?_⟩
        intro e he
        obtain ⟨x, hx, rfl⟩ := List.mem_map.mp he
        exact hafter x (List.mem_filter.mp hx).1
    · have hread : ∀ es : List (Text × Text),
          (∀ e ∈ es, e ∈ (fields.flatMap Field.assigns).map Prod.snd) →
            (OrderedMap.ofList es).get? n = none := by
        intro es hes
        rw [← Option.not_isSome_iff_eq_none, Option.isSome_iff_exists]
        rintro ⟨v, hv⟩
        obtain ⟨before, after, rfl, -⟩ := get?_ofList_eq_some.mp hv
        obtain ⟨x, hx, hxe⟩ := List.mem_map.mp (hes (n, v) (by simp))
        exact hn ⟨x, hx, by rw [hxe]⟩
      rw [hread _ fun e he => he, meant, ← filter_assigns, hread]
      intro e he
      obtain ⟨x, hx, rfl⟩ := List.mem_map.mp he
      exact List.mem_map_of_mem (List.mem_filter.mp hx).1

end Response

/-- A response with one Set-Cookie field. -/
def answer (f : Field) : HttpResponse :=
  ⟨200, "http://h/".toList,
    [("set-cookie".toList, f.render.map fun c => UInt8.ofNat c.toNat)], .ok []⟩

/-- `sid=1; Expires=Wed, 21 Oct 2015 07:28:00 GMT`. -/
def expires : Field where
  name := "sid".toList
  value := "1".toList
  attrs := ["Expires=Wed, 21 Oct 2015 07:28:00 GMT".toList]
  name_token := by decide
  value_plain := forall_mem_of_all (by decide)
  attrs_plain := List.forall_mem_singleton.mpr (forall_mem_of_all (by decide))

theorem cookies_exact_iff_expires : ∃ raw, rawResponse Platform.plain (answer expires) = .ok raw ∧
    ∀ n, (Response.init Builtins.ascii.lower Platform.plain raw).cookies.get? n =
      (meant [expires]).get? n := by
  refine ⟨_, rfl, ?_⟩
  apply (@cookies_exact_iff Builtins.ascii Platform.plain (answer expires) _ (by decide) [expires]
    (by decide) rfl).mpr
  intro before n v after h
  -- the piece behind the comma of the date has no `=`
  have hassigns : [expires].flatMap Field.assigns = [(true, "sid".toList, "1".toList)] := by decide
  have hmem : (false, n, v) ∈ [expires].flatMap Field.assigns := by simp [h]
  simp [hassigns] at hmem

/-- `sid=1; Path=/a,b=2`. -/
def path : Field where
  name := "sid".toList
  value := "1".toList
  attrs := ["Path=/a,b=2".toList]
  name_token := by decide
  value_plain := forall_mem_of_all (by decide)
  attrs_plain := List.forall_mem_singleton.mpr (forall_mem_of_all (by decide))

/-- The path is cut at its comma, and its rest becomes a cookie the server never set. -/
theorem cookies_not_exact : (∀ f ∈ (answer path).headers, isToken f.1 = true) ∧
    ∃ raw, rawResponse Platform.plain (answer path) = .ok raw ∧
      (Response.init Builtins.ascii.lower Platform.plain raw).cookies.get? "b".toList =
        some "2".toList ∧
      (meant [path]).get? "b".toList = none := by
  refine ⟨by decide, _, rfl, ?_, ?_⟩ <;> decide

end Pyureq.SetCookie
