import Pyureq.Requests.HeaderAssembly
import Pyureq.Requests.Sending
import Pyureq.Structures.Refinement

/-! What a program does to `session.headers`, and what then leaves the machine. The dict stands
for an ordered map over lowered names, and the header lines of a request are that map. -/
namespace Pyureq.HeaderPrograms
open PathAgreement Sending HeaderAssembly DictRefinement Simulation

/-- The record of a new session's headers. -/
def defaultRecord (lower : Text → Text) : Record PyVal :=
  Record.empty.assignAll lower defaultHeaders

/-- The headers that the core derives itself under a name. -/
def derivedLines (p : Platform) (args : RustArgs) (n : Text) : List (Text × Text) :=
  ((derivedHeaders p args.cookies args.auth args.contentType).filter fun d =>
    eqIgnoreAsciiCase d.1 n).filterMap fun d => d.2.map fun v => (d.1, v)

/-- The lines of a name up to case: the one that the record has, in the spelling that it
remembers, or else what the core derives. -/
def lines (b : Builtins) (p : Platform) (a : Record PyVal) (args : RustArgs) (n : Text) :
    List (Text × Text) :=
  match a.map.get? (n.map Char.toLower) with
  | some v => [(a.spelling (n.map Char.toLower), coerce b v)]
  | none => derivedLines p args n

variable {b : Builtins} {p : Platform} {env : TlsEnv}

/-- ureq is only handed what its builder has accepted. -/
theorem handover_checked {client : Option RustClient} {w : World} {args : RustArgs}
    {h : Handover} (hh : handover p env client w args = .ok h) :
    p.checkRequest h.req = .ok () := by
  obtain ⟨r, hr, hh⟩ := bind_eq_ok.mp hh
  obtain ⟨cfg, -, hh⟩ := bind_eq_ok.mp hh
  obtain rfl := Except.ok.inj hh
  obtain ⟨given, -, hr⟩ := bind_eq_ok.mp hr
  obtain ⟨agent, -, hr⟩ := bind_eq_ok.mp hr
  split at hr
  · cases hr
  next hok =>
    obtain rfl := Except.ok.inj hr
    exact hok

/-- A session whose request has no headers of its own sends those of its dict. -/
theorem session_headers {s : Session b.lower} {d : CaseInsensitiveDict b.lower PyVal}
    (hs : s.headers = .cid d) {method url : Text} {kw : Kwargs b.lower} {args : RustArgs}
    (hkw : normalizeHeaders b kw.headers = .ok OrderedMap.empty)
    (hargs : sessionArgs b s method url kw = .ok args) :
    callerEntries args.headers = d.items.map fun e => (e.1, coerce b e.2) := by
  obtain ⟨merged, hmerged, hprepare⟩ := bind_eq_ok.mp hargs
  obtain ⟨own, given, hown, hgiven, hheaders⟩ := (merge_spec hmerged).headers
  obtain ⟨m, hm, heq⟩ := (prepare_spec hprepare).headers
  obtain ⟨own', hown', hentries⟩ := normalizeHeaders_cid b d
  obtain rfl : own' = own := Except.ok.inj (hown'.symm.trans (hs ▸ hown))
  obtain rfl := Except.ok.inj (hkw.symm.trans hgiven)
  rw [hheaders, normalizeHeaders_ofStrDict] at hm
  obtain rfl := Except.ok.inj hm
  rw [heq, callerEntries_mapOrNone]
  exact hentries

section Lines
variable {headers : Option (OrderedMap Text Text)} {a : Record PyVal}
  {d : CaseInsensitiveDict b.lower PyVal}

/-- Of tokens, the entry of a name is the one filed under the lowered name. -/
theorem filter_items (hrep : Rep d a) (htoken : ∀ e ∈ d.items, isToken e.1 = true) (n : Text) :
    ((d.items.map fun e => (e.1, coerce b e.2)).filter fun e => eqIgnoreAsciiCase e.1 n) =
      ((a.map.get? (n.map Char.toLower)).map fun v =>
        (a.spelling (n.map Char.toLower), coerce b v)).toList := by
  have hname : ∀ e ∈ a.map.entries,
      eqIgnoreAsciiCase (a.spelling e.1) n = decide (e.1 = n.map Char.toLower) := by
    intro e he
    have hmem : (a.spelling e.1, e.2) ∈ d.items := by
      rw [hrep.items]
      exact List.mem_map_of_mem he
    have hlower := hrep.lower_spelling (OrderedMap.mem_keys_of_mem he)
    rw [b.lower_ascii _ (isToken_ascii (htoken _ hmem))] at hlower
    rw [Bool.eq_iff_iff, eqIgnoreAsciiCase_iff, decide_eq_true_iff, hlower]
  rw [hrep.items, Record.items, List.map_map, List.filter_map]
  have hfilter : a.map.entries.filter ((fun e : Text × Text => eqIgnoreAsciiCase e.1 n) ∘
      ((fun e => (e.1, coerce b e.2)) ∘ fun e => (a.spelling e.1, e.2))) =
        a.map.entries.filter fun e => e.1 = n.map Char.toLower := List.filter_congr hname
  rw [hfilter]
  cases hget : a.map.get? (n.map Char.toLower) with
  | some v =>
    have himage := filter_image a.map.nodup (OrderedMap.get?_eq_some.mp hget)
    rw [himage]
    rfl
  | none =>
    have hnil : (a.map.entries.filter fun e => e.1 = n.map Char.toLower) = [] := by
      apply List.filter_eq_nil_iff.mpr
      intro e he hkey
      exact OrderedMap.get?_eq_none.mp hget
        (of_decide_eq_true hkey ▸ OrderedMap.mem_keys_of_mem he)
    rw [hnil]
    rfl

theorem eqIgnore_trans {k m n : Text} (h : eqIgnoreAsciiCase m n = true) :
    eqIgnoreAsciiCase k m = eqIgnoreAsciiCase k n := by
  rw [Bool.eq_iff_iff, eqIgnoreAsciiCase_iff, eqIgnoreAsciiCase_iff, eqIgnoreAsciiCase_iff.mp h]

/-- Under each name a request has the lines of the record. -/
theorem filter_request (hrep : Rep d a) (htoken : ∀ e ∈ d.items, isToken e.1 = true)
    {args : RustArgs}
    (hcaller : callerEntries args.headers = d.items.map fun e => (e.1, coerce b e.2)) (n : Text) :
    ((requestHeaders p args.headers args.cookies args.auth args.contentType).filter fun e =>
      eqIgnoreAsciiCase e.1 n) = lines b p a args n := by
  obtain ⟨own, hperm, heq⟩ :=
    requestHeaders_eq p args.headers args.cookies args.auth args.contentType
  have hitems := filter_items hrep htoken n
  rw [← hcaller] at hitems
  have hown := hperm.filter fun e => eqIgnoreAsciiCase e.1 n
  rw [hitems] at hown
  rw [heq, List.filter_append, filter_sentHeader, lines]
  cases hget : a.map.get? (n.map Char.toLower) with
  | some v =>
    rw [hget] at hitems hown
    have hline : (a.spelling (n.map Char.toLower), coerce b v) ∈
        (callerEntries args.headers).filter fun e => eqIgnoreAsciiCase e.1 n := by
      rw [hitems]
      exact List.mem_singleton_self _
    obtain ⟨hmem, hname⟩ := List.mem_filter.mp hline
    -- every derived header of that name is held back
    have hnil : ((derivedHeaders p args.cookies args.auth args.contentType).filter fun d =>
        eqIgnoreAsciiCase d.1 n).filterMap (sentHeader args.headers) = [] := by
      apply List.filterMap_eq_nil_iff.mpr
      intro d hd
      refine if_pos (hasHeader_eq_true.mpr ⟨_, hmem, ?_⟩)
      rw [eqIgnore_trans (List.mem_filter.mp hd).2]
      exact hname
    rw [List.perm_singleton.mp hown, hnil, List.append_nil]
  | none =>
    rw [hget] at hitems hown
    rw [List.perm_nil.mp hown, List.nil_append, derivedLines]
    apply List.filterMap_congr
    intro d hd
    refine if_neg ?_
    rw [hasHeader_eq_true]
    rintro ⟨e, he, hname⟩
    rw [eqIgnore_trans (List.mem_filter.mp hd).2] at hname
    have hmem : e ∈ (callerEntries args.headers).filter fun e => eqIgnoreAsciiCase e.1 n :=
      List.mem_filter.mpr ⟨he, hname⟩
    rw [hitems] at hmem
    cases hmem

end Lines

/-- Whatever a program does to the dict of a new session, and to others that it makes on the
way, it does to ordered maps over lowered names; and a session with one of these dicts sends,
under each name up to case, the one line that the map has, in the last spelling, or else what
the core derives. -/
theorem header_program_sent {b : Builtins} {p : Platform} {env : TlsEnv} {ops : List (Op PyVal)}
    {results : List (Result PyVal)} {heap : List (CaseInsensitiveDict b.lower PyVal)}
    (hrun : trace step [CaseInsensitiveDict.ofPairs defaultHeaders] ops = some (results, heap)) :
    ∃ records, trace (specStep b.lower) [defaultRecord b.lower] ops = some (results, records) ∧
      ∀ (i : ℕ) d, heap[i]? = some d → ∃ a, records[i]? = some a ∧
        ∀ (s : Session b.lower) w method url kw args h, s.headers = .cid d →
          normalizeHeaders b kw.headers = .ok OrderedMap.empty →
          pathArgs b (some s) method url kw = .ok args →
          handed b p env (some s) w method url kw = .ok h → ∀ n,
            (h.req.headers.filter fun e => eqIgnoreAsciiCase e.1 n) = lines b p a args n := by
  have hstart : List.Forall₂ Rep
      [(CaseInsensitiveDict.ofPairs defaultHeaders : CaseInsensitiveDict b.lower PyVal)]
      [defaultRecord b.lower] := List.Forall₂.cons (Rep.empty.update defaultHeaders) .nil
  have hagree := trace_agree step_agree hstart ops
  rw [hrun] at hagree
  generalize trace (specStep b.lower) [defaultRecord b.lower] ops = y at hagree ⊢
  cases hagree with
  | @some x y hxy =>
    obtain ⟨hresults, hheap⟩ := hxy
    obtain ⟨results', records⟩ := y
    obtain rfl : results = results' := hresults
    refine ⟨records, rfl, ?_⟩
    intro i d hd
    have hi := forall₂_getElem? hheap i
    rw [hd] at hi
    generalize records[i]? = z at hi ⊢
    cases hi with
    | @some _ a hrep =>
      refine ⟨a, rfl, ?_⟩
      intro s w method url kw args h hs hkw hargs hh n
      have hcaller := session_headers hs hkw hargs
      rw [handed, hargs] at hh
      have hsent := handover_headers hh
      have htoken : ∀ e ∈ d.items, isToken e.1 = true := by
        intro e he
        have hmem : (e.1, coerce b e.2) ∈ callerEntries args.headers := by
          rw [hcaller]
          exact List.mem_map_of_mem he
        refine p.checkRequest_names _ (handover_checked hh) (e.1, coerce b e.2) ?_
        rw [hsent]
        exact (mem_requestHeaders ..).mpr (Or.inl hmem)
      rw [hsent]
      exact filter_request hrep htoken hcaller n

/-- A copy of the headers with another `Accept` and without the user agent. -/
def changed : List (Op PyVal) :=
  [.copy 0, .setItem 1 "ACCEPT".toList (.str "text/html".toList), .delItem 1 "user-agent".toList]

def changedRecord : Record PyVal :=
  ((defaultRecord Builtins.ascii.lower).assign Builtins.ascii.lower "ACCEPT".toList
    (.str "text/html".toList)).remove Builtins.ascii.lower "user-agent".toList

theorem header_program_sent_changed : ∃ (results : List (Result PyVal))
    (heap : List (CaseInsensitiveDict Builtins.ascii.lower PyVal))
    (d : CaseInsensitiveDict Builtins.ascii.lower PyVal) (args : RustArgs) (h : Handover),
    trace step [CaseInsensitiveDict.ofPairs defaultHeaders] changed = some (results, heap) ∧
      heap[1]? = some d ∧
      pathArgs Builtins.ascii (some { Session.plain with headers := .cid d }) "get".toList
        "http://h/".toList {} = .ok args ∧
      handed Builtins.ascii Platform.plain .noFiles (some { Session.plain with headers := .cid d })
        World.initial "get".toList "http://h/".toList {} = .ok h ∧
      (∀ n, (h.req.headers.filter fun e => eqIgnoreAsciiCase e.1 n) =
        lines Builtins.ascii Platform.plain changedRecord args n) ∧
      lines Builtins.ascii Platform.plain changedRecord args "accept".toList =
        [("ACCEPT".toList, "text/html".toList)] ∧
      lines Builtins.ascii Platform.plain changedRecord args "User-Agent".toList = [] := by
  refine ⟨_, _, _, _, _, rfl, rfl, rfl, rfl, ?_, rfl, rfl⟩
  obtain ⟨records, hrecords, hsent⟩ := @header_program_sent Builtins.ascii Platform.plain .noFiles
    changed _ _ rfl
  have hrecords' : trace (specStep Builtins.ascii.lower) [defaultRecord Builtins.ascii.lower]
      changed = some ([.created 1, .done, .done],
        [defaultRecord Builtins.ascii.lower, changedRecord]) := rfl
  obtain ⟨-, rfl⟩ := Prod.mk.inj (Option.some.inj (hrecords'.symm.trans hrecords))
  obtain ⟨a, ha, hlines⟩ := hsent 1 _ rfl
  obtain rfl := Option.some.inj ha
  exact hlines { Session.plain with headers := .cid _ } World.initial "get".toList
    "http://h/".toList {} _ _ rfl rfl rfl rfl

end Pyureq.HeaderPrograms
