import Pyureq.Sessions.NoTrace

/-! One session among the others of a process. To it, the other sessions and the stateless calls
only build agents elsewhere, so that what holds of the life of a single session holds of each. -/
namespace Pyureq.Isolation
open Runs Sending KeepAlive
open NoTrace (isAssignment SameUse VerifyAlike)

variable {b : Builtins}

/-- What an action of the process is to session `i`. -/
def ofSession {lower : Text → Text} (i : ℕ) : Action lower → Option (Lifetime.Action lower)
  | .set j a => if j = i then some (.set a) else none
  | .setVerify j env value => if j = i then some (.setVerify env value) else none
  | .close j => if j = i then some .close else none
  | .request j p env method url kw => if j = i then some (.request p env method url kw) else none
  | .create _ | .stateless .. => none

/-- The actions of the session itself. -/
def own {lower : Text → Text} : Lifetime.Action lower → Option (Lifetime.Action lower)
  | .elsewhere .. => none
  | a => some a

/-- Session `i` was created with the client `c`, which left the world `w₁`; `after` is what has
been done since. -/
def Born (w : World) (actions : List (Action b.lower)) (i : ℕ) (c : RustClient) (w₁ : World)
    (after : List (Action b.lower)) : Prop :=
  ∃ before env m, actions = before ++ .create env :: after ∧
    run step (start b.lower w) before = some m ∧ m.sessions.length = i ∧
    RustClient.new env (some (.bool true)) none false m.world = .ok (c, w₁)

/-- The session in the process is the one that lives alone, and so is the world. -/
def Mirrors (i : ℕ) (s : State b.lower) (t : Lifetime.State b.lower) : Prop :=
  ∃ l, s.sessions[i]? = some l ∧ t.session = l.session ∧ t.world = s.world

section Elsewhere

/-- At most one agent is built. -/
def Builds (w w' : World) : Prop :=
  w' = w ∨ ∃ env m a, buildAgent env m w = .ok (a, w')

/-- What builds an agent can be taken for something done elsewhere. -/
theorem elsewhere_builds (t : Lifetime.State b.lower) {w : World} (h : Builds t.world w) :
    ∃ bs, run Lifetime.step t bs = some { t with world := w } ∧ bs.filterMap own = [] := by
  rcases h with rfl | ⟨env, m, a, hbuild⟩
  · exact ⟨[], rfl, rfl⟩
  · refine ⟨[.elsewhere env m], ?_, rfl⟩
    simp only [run, Lifetime.step, hbuild, Option.bind_some]

theorem new_builds {env : TlsEnv} {v : Option PyVal} {timeout : Option PyFloat}
    {noProxyAll : Bool} {w w' : World} {c : RustClient}
    (h : RustClient.new env v timeout noProxyAll w = .ok (c, w')) : Builds w w' :=
  Or.inr ⟨env, c.verify, c.agent, (NoTrace.new_settings h).2.2.2.2⟩

theorem setVerify_builds (env : TlsEnv) (s : Session b.lower) (w : World) (v : PyVal) :
    Builds w (s.setVerify env w v).world := by
  unfold Session.setVerify
  cases hnew : RustClient.new env (pyOption v) none false w with
  | error e =>
    simp only [hnew]
    exact Or.inl rfl
  | ok r =>
    simp only [hnew]
    exact new_builds hnew

theorem pick_builds (env : TlsEnv) (client : Option RustClient) (w : World) (verify : PyVal) :
    Builds w (pick env client w verify).world := by
  cases client with
  | none =>
    simp only [pick]
    split
    next a w' hone =>
      obtain ⟨m, -, hbuild⟩ := bind_eq_ok.mp hone
      exact Or.inr ⟨env, m, a, hbuild⟩
    next => exact Or.inl rfl
  | some c =>
    simp only [pick]
    rcases RustClient.selectAgent_cases env (pyOption verify) c w with
      ⟨e, p, hr⟩ | ⟨m, a, -, -, hr⟩ | ⟨m, a, w', -, -, hbuild, hr⟩ <;> rw [hr]
    · exact Or.inl rfl
    · exact Or.inl rfl
    · exact Or.inr ⟨env, m, a, hbuild⟩

theorem send_builds (p : Platform) (env : TlsEnv) (s : Option (Session b.lower)) (w : World)
    (method url : Text) (kw : Kwargs b.lower) :
    Builds w (send b p env s w method url kw).world := by
  rcases send_cases p env s w method url kw with ⟨-, hworld, -⟩ | ⟨-, hworld, -⟩ <;> rw [hworld]
  · exact Or.inl rfl
  · exact pick_builds ..

end Elsewhere

section Steps

/-- An action on another session, or on none. -/
theorem mirrors_elsewhere {i : ℕ} {s s' : State b.lower} {t : Lifetime.State b.lower}
    (h : Mirrors i s t) (hsession : s'.sessions[i]? = s.sessions[i]?)
    (hworld : Builds s.world s'.world) :
    ∃ bs t', run Lifetime.step t bs = some t' ∧ Mirrors i s' t' ∧ bs.filterMap own = [] := by
  obtain ⟨l, hl, hst, hw⟩ := h
  obtain ⟨bs, hbs, hown⟩ := elsewhere_builds t (hw.symm ▸ hworld)
  exact ⟨bs, _, hbs, ⟨l, hsession.trans hl, hst, rfl⟩, hown⟩

/-- An action on the session itself. -/
theorem mirrors_own {i : ℕ} {s : State b.lower} {t t' : Lifetime.State b.lower}
    {l l' : Live b.lower} {a : Lifetime.Action b.lower} {w : World} {uses : List Use}
    (hl : s.sessions[i]? = some l) (hstep : Lifetime.step t a = some t')
    (hsession : t'.session = l'.session) (hworld : t'.world = w) (ha : own a = some a) :
    ∃ bs t', run Lifetime.step t bs = some t' ∧
      Mirrors i ⟨s.sessions.set i l', w, uses⟩ t' ∧ bs.filterMap own = [a] := by
  have hi : i < s.sessions.length := (List.getElem?_eq_some_iff.mp hl).1
  refine ⟨[a], t', ?_, ⟨l', List.getElem?_set_self hi, hsession, hworld⟩, ?_⟩
  · rw [run, hstep]
    rfl
  · simp [ha]

theorem step_mirrors {i : ℕ} {s s' : State b.lower} {t : Lifetime.State b.lower}
    {a : Action b.lower} (h : Mirrors i s t) (hs : step s a = some s') :
    ∃ bs t', run Lifetime.step t bs = some t' ∧ Mirrors i s' t' ∧
      bs.filterMap own = (ofSession i a).toList := by
  obtain ⟨l, hl, hst, hw⟩ := id h
  have hi : i < s.sessions.length := (List.getElem?_eq_some_iff.mp hl).1
  cases a with
  | create env =>
    simp only [step] at hs
    split at hs <;> obtain rfl := Option.some.inj hs
    next => exact mirrors_elsewhere h rfl (Or.inl rfl)
    next c w hnew => exact mirrors_elsewhere h (List.getElem?_append_left hi) (new_builds hnew)
  | set j a =>
    obtain ⟨k, hk, rfl⟩ := Option.map_eq_some_iff.mp hs
    by_cases hj : j = i
    · subst hj
      obtain rfl := Option.some.inj (hl.symm.trans hk)
      simp only [ofSession, if_pos]
      refine mirrors_own hl rfl ?_ hw rfl
      exact congrArg a.assign hst
    · simp only [ofSession, if_neg hj]
      exact mirrors_elsewhere h (List.getElem?_set_ne hj) (Or.inl rfl)
  | setVerify j env value =>
    obtain ⟨k, hk, rfl⟩ := Option.map_eq_some_iff.mp hs
    by_cases hj : j = i
    · subst hj
      obtain rfl := Option.some.inj (hl.symm.trans hk)
      simp only [ofSession, if_pos]
      exact mirrors_own hl rfl (by rw [hst, hw]) (by rw [hst, hw]) rfl
    · simp only [ofSession, if_neg hj]
      exact mirrors_elsewhere h (List.getElem?_set_ne hj) (setVerify_builds ..)
  | close j =>
    obtain ⟨k, hk, rfl⟩ := Option.map_eq_some_iff.mp hs
    by_cases hj : j = i
    · subst hj
      obtain rfl := Option.some.inj (hl.symm.trans hk)
      simp only [ofSession, if_pos]
      refine mirrors_own hl rfl ?_ hw rfl
      exact congrArg Session.close hst
    · simp only [ofSession, if_neg hj]
      exact mirrors_elsewhere h (List.getElem?_set_ne hj) (Or.inl rfl)
  | request j p env method url kw =>
    obtain ⟨k, hk, rfl⟩ := Option.map_eq_some_iff.mp hs
    by_cases hj : j = i
    · subst hj
      obtain rfl := Option.some.inj (hl.symm.trans hk)
      simp only [ofSession, if_pos]
      refine mirrors_own hl rfl ?_ ?_ rfl
      · rw [hst, hw]
        rfl
      · rw [hst, hw]
        rfl
    · simp only [ofSession, if_neg hj]
      exact mirrors_elsewhere h (List.getElem?_set_ne hj) (send_builds ..)
  | stateless p env method url kw =>
    obtain rfl := Option.some.inj hs
    exact mirrors_elsewhere h rfl (send_builds ..)

end Steps

section Births

/-- Sessions are only added, at the end. -/
theorem step_sessions {s s' : State b.lower} {a : Action b.lower} (hs : step s a = some s') :
    s'.sessions.length = s.sessions.length ∨
      ∃ env c w, a = .create env ∧
        RustClient.new env (some (.bool true)) none false s.world = .ok (c, w) ∧
        s' = { s with sessions := s.sessions ++ [⟨Session.init b.lower c, 0⟩], world := w } := by
  cases a with
  | create env =>
    simp only [step] at hs
    split at hs <;> obtain rfl := Option.some.inj hs
    next => exact Or.inl rfl
    next c w hnew => exact Or.inr ⟨env, c, w, rfl, hnew, rfl⟩
  | set | setVerify | close | request =>
    obtain ⟨k, hk, rfl⟩ := Option.map_eq_some_iff.mp hs
    exact Or.inl List.length_set
  | stateless =>
    obtain rfl := Option.some.inj hs
    exact Or.inl rfl

/-- Session `i` was created, and mirrors a run of its own from there on. -/
def Lives (w : World) (actions : List (Action b.lower)) (s : State b.lower) (i : ℕ) : Prop :=
  ∃ c w₁ after, Born w actions i c w₁ after ∧
    ∃ as t, run Lifetime.step (Lifetime.start b.lower c w₁) as = some t ∧ Mirrors i s t ∧
      as.filterMap own = after.filterMap (ofSession i)

theorem step_lives {w : World} {actions : List (Action b.lower)} {s s' : State b.lower} {i : ℕ}
    {a : Action b.lower} (h : Lives w actions s i) (hs : step s a = some s') :
    Lives w (actions ++ [a]) s' i := by
  obtain ⟨c, w₁, after, ⟨before, env, m, rfl, hborn⟩, as, t, has, hmirrors, hown⟩ := h
  obtain ⟨bs, t', hbs, hmirrors', hown'⟩ := step_mirrors hmirrors hs
  refine ⟨c, w₁, after ++ [a], ⟨before, env, m, by simp, hborn⟩, as ++ bs, t', ?_, hmirrors', ?_⟩
  · rw [run_append, has]
    exact hbs
  · rw [List.filterMap_append, List.filterMap_append, hown, hown', List.filterMap_cons]
    cases ofSession i a <;> rfl

theorem born_lives {w w₁ : World} {actions : List (Action b.lower)} {s : State b.lower}
    {env : TlsEnv} {c : RustClient} (hrun : run step (start b.lower w) actions = some s)
    (hnew : RustClient.new env (some (.bool true)) none false s.world = .ok (c, w₁)) :
    Lives w (actions ++ [.create env])
      { s with sessions := s.sessions ++ [⟨Session.init b.lower c, 0⟩], world := w₁ }
      s.sessions.length :=
  ⟨c, w₁, [], ⟨actions, env, s, rfl, hrun, rfl, hnew⟩, [], Lifetime.start b.lower c w₁, rfl,
    ⟨⟨Session.init b.lower c, 0⟩, by simp, rfl, rfl⟩, rfl⟩

theorem run_lives {w : World} {actions : List (Action b.lower)} {s : State b.lower}
    (hrun : run step (start b.lower w) actions = some s) :
    ∀ i < s.sessions.length, Lives w actions s i := by
  have hstep : ∀ as (s : State b.lower) a s',
      (run step (start b.lower w) as = some s ∧ ∀ i < s.sessions.length, Lives w as s i) →
      step s a = some s' →
      run step (start b.lower w) (as ++ [a]) = some s' ∧
        ∀ i < s'.sessions.length, Lives w (as ++ [a]) s' i := by
    rintro as s a s' ⟨hrun, hlives⟩ hs
    refine ⟨by rw [run_append, hrun]; simp [run, hs], ?_⟩
    intro i hi
    by_cases hold : i < s.sessions.length
    · exact step_lives (hlives i hold) hs
    · rcases step_sessions hs with hlength | ⟨env, c, w₁, rfl, hnew, rfl⟩
      · exact absurd (hlength ▸ hi) hold
      · have hlast : i = s.sessions.length := by
          simp only [List.length_append, List.length_singleton] at hi
          omega
        rw [hlast]
        exact born_lives hrun hnew
  have hstart : run step (start b.lower w) [] = some (start b.lower w) ∧
      ∀ i < (start b.lower w).sessions.length, Lives w [] (start b.lower w) i :=
    ⟨rfl, fun i hi => absurd hi (Nat.not_lt_zero i)⟩
  exact (run_invariant_history hstep hstart hrun).2

end Births

theorem filter_own {lower : Text → Text} (as : List (Lifetime.Action lower)) :
    as.filter isAssignment = (as.filterMap own).filter isAssignment := by
  induction as with
  | nil => rfl
  | cons a as ih =>
    cases a with
    | request | elsewhere => exact ih
    | set a => exact congrArg (Lifetime.Action.set a :: ·) ih
    | setVerify env v => exact congrArg (Lifetime.Action.setVerify env v :: ·) ih
    | close => exact congrArg (Lifetime.Action.close :: ·) ih

/-- However the sessions and stateless calls of a process are interleaved, each session goes, from
its creation, through a life of its own in which the others only build agents. It has the
attributes that its own assignments give it, and a further request through it, if it is made, is
the one that it would make alone, and verified alike. -/
theorem sessions_isolated {b : Builtins} {w : World} {actions : List (Action b.lower)}
    {s : State b.lower} (hrun : run step (start b.lower w) actions = some s) {i : ℕ}
    {l : Live b.lower} (hl : s.sessions[i]? = some l) :
    ∃ c w₁ after, Born w actions i c w₁ after ∧
      (∃ as t, run Lifetime.step (Lifetime.start b.lower c w₁) as = some t ∧
        as.filterMap own = after.filterMap (ofSession i) ∧
        t.session = l.session ∧ t.world = s.world) ∧
      ∃ u, run Lifetime.step (Lifetime.start b.lower c w₁)
          ((after.filterMap (ofSession i)).filter isAssignment) = some u ∧
        l.session.close = u.session.close ∧
        ∀ p env method url kw h g,
          handed b p env (some l.session) s.world method url kw = .ok h →
          handed b p env (some u.session) u.world method url kw = .ok g →
          SameUse VerifyAlike h g := by
  have hi : i < s.sessions.length := (List.getElem?_eq_some_iff.mp hl).1
  obtain ⟨c, w₁, after, hborn, as, t, has, ⟨l', hl', hsession, hworld⟩, hown⟩ := run_lives hrun i hi
  obtain rfl := Option.some.inj (hl.symm.trans hl')
  obtain ⟨before, env, m, -, -, -, hnew⟩ := id hborn
  obtain ⟨u, hu, halike, -, howned, howned'⟩ := NoTrace.run_forgets hnew has
  rw [filter_own, hown] at hu
  rw [hsession] at halike
  refine ⟨c, w₁, after, hborn, ⟨as, t, has, hown, hsession, hworld⟩, u, hu, halike.attributes, ?_⟩
  intro p env method url kw h g hh hg
  refine NoTrace.handed_alike halike ?_ howned' hh hg
  rw [← hsession, ← hworld]
  exact howned

/-- The first session of `mixed`, whose requests overlap with those of the second. -/
theorem sessions_isolated_mixed : ∃ s l,
    run step (start Builtins.ascii.lower World.initial) mixed = some s ∧
    s.sessions[0]? = some l ∧ ∃ c w₁ after u,
      Born World.initial mixed 0 c w₁ after ∧
      run Lifetime.step (Lifetime.start Builtins.ascii.lower c w₁)
        ((after.filterMap (ofSession 0)).filter isAssignment) = some u ∧
      l.session.close = u.session.close := by
  have hsome : ((run step (start Builtins.ascii.lower World.initial) mixed).bind
      fun s => s.sessions[0]?).isSome = true := rfl
  obtain ⟨l, hl⟩ := Option.isSome_iff_exists.mp hsome
  obtain ⟨s, hs, hl⟩ := Option.bind_eq_some_iff.mp hl
  obtain ⟨c, w₁, after, hborn, -, u, hu, hclose, -⟩ := sessions_isolated hs hl
  exact ⟨s, l, hs, hl, c, w₁, after, u, hborn, hu, hclose⟩

end Pyureq.Isolation
