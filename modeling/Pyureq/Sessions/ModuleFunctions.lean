import Pyureq.Sessions.Verbs

/-! `pyureq.get` and the other functions of the module, which build an agent for the call, against
the methods of a session. -/
namespace Pyureq

section Functions
variable (b : Builtins) (p : Platform) (env : TlsEnv) (w : World) (url : Text) (kw : Kwargs b.lower)

/-- `params=params` after the parameter `params=None` took the argument out of `kwargs`. -/
def Kwargs.passParams {lower : Text → Text} (kw : Kwargs lower) : Kwargs lower :=
  { kw with params := some (orNone kw.params) }

namespace Module

def get : Outcome b.lower :=
  statelessRequest b p env w "GET".toList url (kw.setDefaultRedirects true).passParams

def post : Outcome b.lower :=
  statelessRequest b p env w "POST".toList url { kw.passData with json := some (orNone kw.json) }

def put : Outcome b.lower := statelessRequest b p env w "PUT".toList url kw.passData

def patch : Outcome b.lower := statelessRequest b p env w "PATCH".toList url kw.passData

def delete : Outcome b.lower := statelessRequest b p env w "DELETE".toList url kw

def head : Outcome b.lower :=
  statelessRequest b p env w "HEAD".toList url (kw.setDefaultRedirects false)

def options : Outcome b.lower :=
  statelessRequest b p env w "OPTIONS".toList url (kw.setDefaultRedirects true)

end Module
end Functions

namespace ModuleFunctions
open PathAgreement Verbs

variable {b : Builtins}

/-- The function of the module that is named like the method. -/
def call (b : Builtins) (p : Platform) (env : TlsEnv) (w : World) (url : Text)
    (kw : Kwargs b.lower) : Verb → Outcome b.lower
  | .get => Module.get b p env w url kw
  | .post => Module.post b p env w url kw
  | .put => Module.put b p env w url kw
  | .patch => Module.patch b p env w url kw
  | .delete => Module.delete b p env w url kw
  | .head => Module.head b p env w url kw
  | .options => Module.options b p env w url kw

/-- What such a function computes before the call into Rust. -/
def functionArgs (b : Builtins) (v : Verb) (url : Text) (kw : Kwargs b.lower) :
    Except PyErr RustArgs := statelessArgs b v.name url (v.kwargs kw)

theorem call_end (p : Platform) (env : TlsEnv) (w : World) (v : Verb) (url : Text)
    (kw : Kwargs b.lower) : (call b p env w url kw v).result =
      (functionArgs b v url kw).bind fun args =>
        respond b p (callRust p env none w args).result := by
  have hparams : ∀ kw : Kwargs b.lower, statelessArgs b "GET".toList url kw.passParams =
      statelessArgs b "GET".toList url kw := fun _ => rfl
  cases v with
  | get =>
    rw [call, Module.get, statelessRequest_result, hparams]
    rfl
  | _ => exact statelessRequest_result ..

/-- What a method passes on has the same effect on the two paths as what it was given. -/
theorem agrees_kwargs (v : Verb) (kw : Kwargs b.lower) : Agrees b (v.kwargs kw) ↔ Agrees b kw := by
  cases v <;> exact Iff.rfl

/-- Each function of the module hands Rust what the session method of its name does, on a session
that adds nothing, exactly when `proxies` survives the merge. Then they end alike, too: with
exceptions of one class, or with what one call makes of two agents of the same configuration. -/
theorem functions_agree_iff {b : Builtins} {s : Session b.lower} (hs : Blank b s) (v : Verb)
    (url : Text) (kw : Kwargs b.lower) :
    (SameCall (verbArgs b s v url kw) (functionArgs b v url kw) ↔ Agrees b kw) ∧
      (Agrees b kw → ∀ p env c, s.client = some c → Intact env c → ∀ w w',
        SameRequest b p (v.call b p env s w url kw).result (call b p env w' url kw v).result) := by
  have hiff : SameCall (verbArgs b s v url kw) (functionArgs b v url kw) ↔ Agrees b kw :=
    (sameCall_iff hs).trans (agrees_kwargs v kw)
  refine ⟨hiff, ?_⟩
  intro hagrees p env c hclient hc w w'
  have hsame := hiff.mpr hagrees
  rw [Verbs.call_result, call_end, hclient]
  generalize verbArgs b s v url kw = x at hsame ⊢
  generalize functionArgs b v url kw = y at hsame ⊢
  match x, y, hsame with
  | .error e, .error e', hcls => exact Or.inl ⟨e, e', rfl, rfl, hcls⟩
  | .ok a, .ok a', haa =>
    obtain rfl : a = a' := haa
    exact callRust_same hc w w' a

/-- `head` with an authenticating proxy and cookies. -/
def headed : Kwargs Builtins.ascii.lower :=
  { withProxies [(.str "http".toList, .str "http://p:8080".toList)] with
    cookies := some (.dict [(.str "a".toList, .str "1".toList)]) }

theorem functions_agree_iff_head :
    SameCall (verbArgs Builtins.ascii cleared .head "http://h/".toList headed)
        (functionArgs Builtins.ascii .head "http://h/".toList headed) ∧
      SameRequest Builtins.ascii Platform.plain
        (Verb.head.call Builtins.ascii Platform.plain .noFiles cleared World.initial
          "http://h/".toList headed).result
        (call Builtins.ascii Platform.plain .noFiles World.initial "http://h/".toList headed
          .head).result := by
  have hagrees : Agrees Builtins.ascii headed := fun _ _ => rfl
  obtain ⟨hcall, hend⟩ := functions_agree_iff cleared_blank .head "http://h/".toList headed
  have hclient : Intact .noFiles RustClient.plain := @new_intact .noFiles World.initial _ _ rfl
  exact ⟨hcall.mpr hagrees, hend hagrees _ _ _ rfl hclient _ _⟩

end ModuleFunctions
end Pyureq
