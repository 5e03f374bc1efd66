import Pyureq.Base.Base64
import Pyureq.Requests.Sending

/-! Basic authentication: from `auth=` or `Session.auth` to the `Authorization` header, and
back to what a server reads there. -/
namespace Pyureq.BasicAuth
open Delimited PercentCoding Sending

/-- What a server makes of the value: after the scheme and a blank, the Base64 form of the user
and the password around the first colon. -/
def readBasic (v : Text) : Option (Bytes × Bytes) :=
  if "Basic ".toList.isPrefixOf v then
    (Base64.decode (v.drop "Basic ".length)).bind fun bs =>
      match cut 58 bs with
      | (user, some password) => some (user, password)
      | (_, none) => none
  else none

/-- The `auth` of a request, or that of its session. -/
def authOf {lower : Text → Text} (s : Option (Session lower)) (kw : Kwargs lower) : PyVal :=
  kw.auth.getD ((s.map Session.auth).getD .none)

/-- `v` is a field value without control characters, and in it a server reads what stands
around the first colon: `user` and `password` exactly when `user` has none. -/
structure Carries (v user password : Text) : Prop where
  clean : ∀ c ∈ v, 32 ≤ c.toNat ∧ c.toNat < 127
  reads : readBasic v = some (utf8 (partition ':' (user ++ ':' :: password)).1,
    utf8 (partition ':' (user ++ ':' :: password)).2)
  exact : readBasic v = some (utf8 user, utf8 password) ↔ ':' ∉ user

/-- In UTF-8 the byte of the colon stands for the colon only. -/
theorem colon_notMem {c : Char} (h : c ≠ ':') : (58 : UInt8) ∉ String.utf8EncodeChar c := by
  intro hmem
  by_cases hc : c.toNat < 128
  · rw [utf8EncodeChar_ascii hc, List.mem_singleton] at hmem
    have hnat : (58 : UInt8).toNat = (UInt8.ofNat c.toNat).toNat := congrArg UInt8.toNat hmem
    rw [UInt8.toNat_ofNat_of_lt' (hc.trans (by decide))] at hnat
    exact h (Char.toNat_inj.mp hnat.symm)
  · exact absurd (utf8EncodeChar_high (Nat.le_of_not_lt hc) 58 hmem) (by decide)

theorem cut_colon (user password : Text) : cut 58 (utf8 (user ++ ':' :: password)) =
    (utf8 (partition ':' (user ++ ':' :: password)).1,
      some (utf8 (partition ':' (user ++ ':' :: password)).2)) := by
  have hcut := cut_flatMap (f := String.utf8EncodeChar) (d := ':') (e := (58 : UInt8)) rfl
    (fun _ => colon_notMem) (user ++ ':' :: password)
  rw [utf8, hcut, partition]
  cases h : (cut ':' (user ++ ':' :: password)).2 with
  | some b => rfl
  | none =>
    have hnot := (cut_eq_none (d := ':') (Prod.ext rfl h)).1
    exact absurd (List.mem_append_right _ List.mem_cons_self) hnot

theorem length_utf8_lt {s t : Text} (c : Char) :
    (utf8 s).length < (utf8 (s ++ c :: t)).length := by
  have hpos : 0 < (String.utf8EncodeChar c).length := by
    rw [String.length_utf8EncodeChar]
    exact c.utf8Size_pos
  simp only [utf8, List.flatMap_append, List.flatMap_cons, List.length_append]
  omega

/-- The first colon is the one between the two exactly when the user has none. -/
theorem partition_colon_iff (user password : Text) :
    (utf8 (partition ':' (user ++ ':' :: password)).1,
      utf8 (partition ':' (user ++ ':' :: password)).2) = (utf8 user, utf8 password) ↔
        ':' ∉ user := by
  constructor
  · intro h hmem
    obtain ⟨front, back, rfl, hfront⟩ := List.eq_append_cons_of_mem hmem
    rw [List.append_assoc, List.cons_append, partition_append hfront] at h
    have hlen := congrArg (fun r => r.1.length) h
    exact absurd hlen (length_utf8_lt ':').ne
  · intro h
    rw [partition_append h]

theorem basicCredentials_carries {p : Platform} (hbase : p.base64 = Base64.encode)
    (user password : Text) : Carries (basicCredentials p (user, password)) user password := by
  have hread : readBasic (basicCredentials p (user, password)) =
      some (utf8 (partition ':' (user ++ ':' :: password)).1,
        utf8 (partition ':' (user ++ ':' :: password)).2) := by
    have hprefix : "Basic ".toList.isPrefixOf (basicCredentials p (user, password)) = true :=
      List.isPrefixOf_iff_prefix.mpr ⟨_, rfl⟩
    have hdrop : (basicCredentials p (user, password)).drop "Basic ".length =
        p.base64 (utf8 (user ++ ':' :: password)) := rfl
    rw [readBasic, if_pos hprefix, hdrop, hbase, Base64.decode_encode, Option.bind_some,
      cut_colon]
  refine ⟨?_, hread, ?_⟩
  · have hscheme : ∀ c ∈ "Basic ".toList, 32 ≤ c.toNat ∧ c.toNat < 127 :=
      forall_mem_of_all (by decide)
    intro c hc
    have hvalue : basicCredentials p (user, password) =
        "Basic ".toList ++ p.base64 (utf8 (user ++ ':' :: password)) := rfl
    rw [hvalue, hbase] at hc
    rcases List.mem_append.mp hc with hc | hc
    · exact hscheme c hc
    · have hvisible := (Base64.encode_chars _ c hc).visible
      omega
  · rw [hread, Option.some.injEq]
    exact partition_colon_iff user password

variable {b : Builtins} {p : Platform} {env : TlsEnv}

theorem pathArgs_auth {s : Option (Session b.lower)} {method url : Text} {kw : Kwargs b.lower}
    {args : RustArgs} (h : pathArgs b s method url kw = .ok args) :
    authTuple b (authOf s kw) = .ok args.auth := by
  cases s with
  | none => exact (prepare_spec h).auth
  | some s =>
    obtain ⟨merged, hmerged, h⟩ := bind_eq_ok.mp h
    have hauth := (prepare_spec h).auth
    rw [(merge_spec hmerged).auth] at hauth
    exact hauth

/-- With credentials, and no `Authorization` header of the caller's, ureq is given exactly one
such header. It cannot be broken by what the credentials contain, and a server reads them back
from it exactly when the user has no colon. Without credentials there is none. -/
theorem credentials_read_back {b : Builtins} {p : Platform} {env : TlsEnv}
    {s : Option (Session b.lower)} {w : World} {method url : Text} {kw : Kwargs b.lower}
    {args : RustArgs} {h : Handover} (hbase : p.base64 = Base64.encode)
    (hargs : pathArgs b s method url kw = .ok args)
    (hh : handed b p env s w method url kw = .ok h)
    (hno : hasHeader args.headers "Authorization".toList = false) :
    ∃ credentials, authTuple b (authOf s kw) = .ok credentials ∧
      let sent := h.req.headers.filter fun e => eqIgnoreAsciiCase e.1 "Authorization".toList
      (credentials = none → sent = []) ∧
      ∀ user password, credentials = some (user, password) →
        ∃ v, sent = [("Authorization".toList, v)] ∧ Carries v user password := by
  rw [handed, hargs] at hh
  have hfilter := filter_derived p args.cookies args.auth args.contentType
    (d := ("Authorization".toList, args.auth.map (basicCredentials p)))
    (by simp [derivedHeaders]) hno
  rw [← handover_headers hh] at hfilter
  refine ⟨args.auth, pathArgs_auth hargs, ?_, ?_⟩
  · intro hnone
    rw [hfilter, hnone]
    rfl
  · intro user password hsome
    rw [hfilter, hsome]
    exact ⟨_, rfl, basicCredentials_carries hbase user password⟩

/-- `Platform.plain` with the encoder of the `base64` crate. -/
def encoding : Platform := { Platform.plain with base64 := Base64.encode }

def credentials (user password : String) : Kwargs Builtins.ascii.lower :=
  { auth := some (.tuple [.str user.toList, .str password.toList]) }

theorem credentials_read_back_colon : ∃ (h : Handover) (v : Text),
    handed Builtins.ascii encoding .noFiles (some Session.plain) World.initial "get".toList
      "http://h/".toList (credentials "al" "p:w") = .ok h ∧
    h.req.headers.filter (fun e => eqIgnoreAsciiCase e.1 "Authorization".toList) =
      [("Authorization".toList, v)] ∧
    v = "Basic YWw6cDp3".toList ∧ readBasic v = some (utf8 "al".toList, utf8 "p:w".toList) := by
  have h := fun args handover hargs hh hno => @credentials_read_back Builtins.ascii encoding
    .noFiles (some Session.plain) World.initial "get".toList "http://h/".toList
    (credentials "al" "p:w") args handover rfl hargs hh hno
  obtain ⟨creds, hcreds, -, hsome⟩ := h _ _ rfl rfl rfl
  obtain ⟨v, hv, hcarries⟩ := hsome "al".toList "p:w".toList (Except.ok.inj hcreds).symm
  refine ⟨_, v, rfl, hv, ?_, hcarries.exact.mpr (by decide)⟩
  exact congrArg Prod.snd (List.cons.inj hv).1.symm

end Pyureq.BasicAuth
