import Pyureq.Requests.HeaderAssembly
import Pyureq.Requests.Sending

/-! The `params` argument. The merge concatenates the session's pairs and the request's where
it overrides in every other mapping, and the normaliser takes a string for a list of pairs. -/
namespace Pyureq.Params
open Delimited PercentCoding PathAgreement Sending HeaderAssembly

/-- The pairs `out` are the request's for its own names and the session's for all others. -/
structure Overrides (own given out : List (Text × Text)) : Prop where
  request : ∀ n v, (OrderedMap.ofList given).get? n = some v →
    (out.filter fun e => e.1 = n) = [(n, v)]
  session : ∀ n v, (OrderedMap.ofList given).get? n = none →
    (OrderedMap.ofList own).get? n = some v → (out.filter fun e => e.1 = n) = [(n, v)]

/-- The segments of a query. -/
def segments (url : Text) : List Text :=
  match (cut '?' url).2 with
  | none => []
  | some query => query.splitOn '&'

/-- The request is built, and its query is the base URL's followed by the string's segments. -/
def Honoured (b : Builtins) (p : Platform) (env : TlsEnv) (s : Option (Session b.lower))
    (w : World) (method base : Text) (kw : Kwargs b.lower) (params : Text) : Prop :=
  ∃ h, handed b p env s w method base { kw with params := some (.str params) } = .ok h ∧
    (segments h.req.uri).map decode =
      (segments base).map decode ++ (params.splitOn '&').map decode

section Merge

/-- Names that occur twice occur twice in their filter. -/
theorem nodup_of_filter {l : List (Text × Text)}
    (h : ∀ n ∈ l.map Prod.fst, ∃ v, (l.filter fun e => e.1 = n) = [(n, v)]) :
    (l.map Prod.fst).Nodup := by
  rw [List.nodup_iff_count_le_one]
  intro n
  by_cases hn : n ∈ l.map Prod.fst
  · obtain ⟨v, hv⟩ := h n hn
    have hcount : (l.map Prod.fst).count n = (l.filter fun e => e.1 = n).length := by
      rw [List.count, List.countP_map, List.countP_eq_length_filter]
      apply congrArg List.length
      apply List.filter_congr
      intro e _
      show (e.1 == n) = decide (e.1 = n)
      rw [Bool.eq_iff_iff, beq_iff_eq, decide_eq_true_iff]
    rw [hcount, hv, List.length_singleton]
  · rw [List.count_eq_zero_of_not_mem hn]
    exact Nat.zero_le 1

/-- Concatenated pairs override exactly when there is nothing to override. -/
theorem overrides_append_iff (own given : List (Text × Text)) :
    Overrides own given (own ++ given) ↔ ((own ++ given).map Prod.fst).Nodup := by
  constructor
  · intro h
    apply nodup_of_filter
    intro n hn
    cases hg : (OrderedMap.ofList given).get? n with
    | some v => exact ⟨v, h.request n v hg⟩
    | none =>
      have hown : n ∈ own.map Prod.fst := by
        rw [List.map_append, List.mem_append] at hn
        refine hn.resolve_right fun hgiven => ?_
        obtain ⟨v, -, hv⟩ := OrderedMap.exists_get?_ofList hgiven
        rw [hv] at hg
        contradiction
      obtain ⟨v, -, hv⟩ := OrderedMap.exists_get?_ofList hown
      exact ⟨v, h.session n v hg hv⟩
  · intro h
    constructor
    · intro n v hv
      exact filter_image h (List.mem_append_right own (OrderedMap.mem_of_get?_ofList hv))
    · intro n v _ hv
      exact filter_image h (List.mem_append_left given (OrderedMap.mem_of_get?_ofList hv))

end Merge

/-- With two dicts the merged query list has the request's value for the request's names and
the session's for the others exactly when no two of their keys have the same text. -/
theorem params_merged_iff {b : Builtins} {s : Session b.lower} {kw merged : Kwargs b.lower}
    {d e : List (PyVal × PyVal)} (hs : s.params = .dict d) (hkw : kw.params = some (.dict e))
    (hmerge : s.merge b kw = .ok merged) :
    ∃ out, merged.params = some (.ofStrPairs out) ∧
      (Overrides (strPairs b (PyVal.dictItems d)) (strPairs b (PyVal.dictItems e)) out ↔
        ((PyVal.dictItems d ++ PyVal.dictItems e).map fun x => b.str x.1).Nodup) := by
  obtain ⟨own, given, hown, hgiven, hparams⟩ := (merge_spec hmerge).params
  rw [hs] at hown
  rw [hkw] at hgiven
  obtain rfl := Except.ok.inj hown
  obtain rfl := Except.ok.inj hgiven
  have hnames : (strPairs b (PyVal.dictItems d) ++ strPairs b (PyVal.dictItems e)).map Prod.fst =
      (PyVal.dictItems d ++ PyVal.dictItems e).map fun x => b.str x.1 := by
    rw [strPairs, strPairs, ← List.map_append, List.map_map]
    rfl
  exact ⟨_, hparams, hnames ▸ overrides_append_iff _ _⟩

/-- A session with `params={"a": "1"}`. -/
def paged : Session Builtins.ascii.lower :=
  { Session.plain with params := .dict [(.str "a".toList, .str "1".toList)] }

/-- `params={name: "2"}`. -/
def asking (name : String) : Kwargs Builtins.ascii.lower :=
  { params := some (.dict [(.str name.toList, .str "2".toList)]) }

theorem params_merged_iff_disjoint : ∃ merged out,
    paged.merge Builtins.ascii (asking "b") = .ok merged ∧
      merged.params = some (.ofStrPairs out) ∧
      Overrides [("a".toList, "1".toList)] [("b".toList, "2".toList)] out := by
  obtain ⟨out, hout, hiff⟩ := @params_merged_iff Builtins.ascii paged (asking "b") _ _ _ rfl rfl rfl
  exact ⟨_, out, rfl, hout, hiff.mpr (by decide)⟩

/-- Both values of `a` are sent. -/
theorem params_not_merged : ∃ merged,
    paged.merge Builtins.ascii (asking "a") = .ok merged ∧
      merged.params =
        some (.ofStrPairs [("a".toList, "1".toList), ("a".toList, "2".toList)]) ∧
      ¬Overrides [("a".toList, "1".toList)] [("a".toList, "2".toList)]
        [("a".toList, "1".toList), ("a".toList, "2".toList)] := by
  refine ⟨_, rfl, rfl, ?_⟩
  intro h
  have hone := h.request "a".toList "2".toList (by decide)
  revert hone
  decide

section Strings
variable {b : Builtins}

/-- The first character of the string is no pair. -/
theorem normalizeParams_str {params : Text} (h : params ≠ []) :
    normalizeParams b (.str params) =
      .error (PyVal.valueError "wrong number of values to unpack (expected 2)") := by
  obtain ⟨c, t, rfl⟩ := List.exists_cons_of_ne_nil h
  rfl

/-- Neither path gets as far as Rust. -/
theorem pathArgs_str {s : Option (Session b.lower)} {method base : Text} {kw : Kwargs b.lower}
    {params : Text} (h : params ≠ []) (args : RustArgs) :
    pathArgs b s method base { kw with params := some (.str params) } ≠ .ok args := by
  intro hargs
  cases s with
  | none =>
    obtain ⟨ps, hps, -⟩ := (prepare_spec hargs).params
    rw [orNone, Option.getD_some, normalizeParams_str h] at hps
    contradiction
  | some s =>
    obtain ⟨merged, hmerge, -⟩ := bind_eq_ok.mp hargs
    obtain ⟨own, given, -, hgiven, -⟩ := (merge_spec hmerge).params
    rw [orNone, Option.getD_some, normalizeParams_str h] at hgiven
    contradiction

end Strings

/-- A string is never honoured: no request is built for it. -/
theorem string_not_honoured (b : Builtins) (p : Platform) (env : TlsEnv)
    (s : Option (Session b.lower)) (w : World) (method base : Text) (kw : Kwargs b.lower)
    {params : Text} (h : params ≠ []) : ¬Honoured b p env s w method base kw params := by
  rintro ⟨handover, hh, -⟩
  obtain ⟨args, hargs, -⟩ := bind_eq_ok.mp hh
  exact pathArgs_str h args hargs

theorem string_not_honoured_pair :
    ¬Honoured Builtins.ascii Platform.plain .noFiles none World.initial "get".toList
      "http://h/".toList {} "a=1".toList :=
  string_not_honoured Builtins.ascii Platform.plain .noFiles none World.initial "get".toList
    "http://h/".toList {} (by decide)

/-- `params="a=1"` raises before anything is sent. -/
theorem string_raises :
    (statelessRequest Builtins.ascii Platform.plain .noFiles World.initial "get".toList
      "http://h/".toList { params := some (.str "a=1".toList) }).result =
        .error (PyVal.valueError "wrong number of values to unpack (expected 2)") ∧
      ¬Honoured Builtins.ascii Platform.plain .noFiles none World.initial "get".toList
        "http://h/".toList {} "a=1".toList := by
  refine ⟨rfl, ?_⟩
  rintro ⟨h, hh, -⟩
  have herror : handed Builtins.ascii Platform.plain .noFiles none World.initial "get".toList
      "http://h/".toList { params := some (.str "a=1".toList) } =
        .error (PyVal.valueError "wrong number of values to unpack (expected 2)") := rfl
  rw [herror] at hh
  contradiction

end Pyureq.Params
