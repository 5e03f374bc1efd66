import Pyureq.Sessions.VerifySetter

/-! Which requests of a process can share connections. Connections are kept per pool, so two
requests can share them exactly when they are served from one pool. Any number of sessions
are created, used and closed, next to stateless calls, in any order. -/
namespace Pyureq.KeepAlive
open Runs Sending PathAgreement Lifetime

/-- The choice of the agent for one call, and what it leaves. -/
structure Pick where
  agent : Except PyErr Agent
  client : Option RustClient
  world : World

def pick (env : TlsEnv) (client : Option RustClient) (w : World) (verify : PyVal) : Pick :=
  match client with
  | some c =>
    let r := c.selectAgent env (pyOption verify) w
    ⟨r.result, some r.client, r.world⟩
  | none =>
    match oneShotAgent env (pyOption verify) w with
    | .ok (a, w') => ⟨.ok a, none, w'⟩
    | .error e => ⟨.error e, none, w⟩

/-- The mode that a call asks for: that of its client when it leaves `verify` open. -/
def callMode (client : Option RustClient) (verify : PyVal) : Except PyErr VerifyMode :=
  match client with
  | some c => c.effectiveMode (pyOption verify)
  | none => VerifyMode.orSystem (pyOption verify)

/-- The `verify` of a request through a session, or of a stateless one. -/
def verifyOf {lower : Text → Text} (s : Option (Session lower)) (kw : Kwargs lower) : PyVal :=
  kw.verify.getD ((s.map Session.verify).getD (.bool true))

/-- A request through a session or without one. -/
def send (b : Builtins) (p : Platform) (env : TlsEnv) (s : Option (Session b.lower)) (w : World)
    (method url : Text) (kw : Kwargs b.lower) : Outcome b.lower :=
  match s with
  | some s => s.request b p env w method url kw
  | none => statelessRequest b p env w method url kw

/-- A session, and how many assignments to its `verify` have succeeded. -/
structure Live (lower : Text → Text) where
  session : Session lower
  generation : ℕ

/-- The client that a request went through, by its session and its generation. -/
abbrev Owner := ℕ × ℕ

/-- A request for which `agent.run` was called. -/
structure Use where
  owner : Option Owner
  mode : Except PyErr VerifyMode
  agent : Agent

structure State (lower : Text → Text) where
  sessions : List (Live lower)
  world : World
  /-- The newest first. -/
  uses : List Use

def start (lower : Text → Text) (w : World) : State lower := ⟨[], w, []⟩

inductive Action (lower : Text → Text) where
  | create (env : TlsEnv)
  | set (i : ℕ) (a : Attribute lower)
  | setVerify (i : ℕ) (env : TlsEnv) (value : PyVal)
  | close (i : ℕ)
  | request (i : ℕ) (p : Platform) (env : TlsEnv) (method url : Text) (kw : Kwargs lower)
  | stateless (p : Platform) (env : TlsEnv) (method url : Text) (kw : Kwargs lower)

/-- A closed session has no client, and its requests go the stateless way. -/
def ownerOf {lower : Text → Text} (i : ℕ) (l : Live lower) : Option Owner :=
  l.session.client.map fun _ => (i, l.generation)

/-- What a request adds to the uses. -/
def served (owner : Option Owner) (mode : Except PyErr VerifyMode) :
    Except PyErr Handover → List Use
  | .ok h => [⟨owner, mode, h.agent⟩]
  | .error _ => []

def step {b : Builtins} (s : State b.lower) : Action b.lower → Option (State b.lower)
  | .create env =>
    match RustClient.new env (some (.bool true)) none false s.world with
    | .error _ => some s
    | .ok (c, w) =>
      some { s with sessions := s.sessions ++ [⟨Session.init b.lower c, 0⟩], world := w }
  | .set i a =>
    s.sessions[i]?.map fun l =>
      { s with sessions := s.sessions.set i { l with session := a.assign l.session } }
  | .setVerify i env value =>
    s.sessions[i]?.map fun l =>
      let r := l.session.setVerify env s.world value
      let succeeded := if r.raised.isNone then 1 else 0
      { s with sessions := s.sessions.set i ⟨r.session, l.generation + succeeded⟩
               world := r.world }
  | .close i =>
    s.sessions[i]?.map fun l =>
      { s with sessions := s.sessions.set i { l with session := l.session.close } }
  | .request i p env method url kw =>
    s.sessions[i]?.map fun l =>
      let out := send b p env (some l.session) s.world method url kw
      { sessions := s.sessions.set i
          { l with session := { l.session with client := out.client } }
        world := out.world
        uses := served (ownerOf i l)
            (callMode l.session.client (verifyOf (some l.session) kw))
            (handed b p env (some l.session) s.world method url kw) ++ s.uses }
  | .stateless p env method url kw =>
    let out := send b p env none s.world method url kw
    some { s with
      world := out.world
      uses := served none (callMode none (verifyOf none kw))
          (handed b p env none s.world method url kw) ++ s.uses }

variable {b : Builtins} {p : Platform} {env : TlsEnv}

section Calls

theorem pickAgent_eq (env : TlsEnv) (client : Option RustClient) (w : World) (verify : PyVal) :
    pickAgent env client w verify = (pick env client w verify).agent := by
  cases client with
  | some c => rfl
  | none =>
    simp only [pickAgent, pick]
    cases oneShotAgent env (pyOption verify) w <;> rfl

/-- The session's own `verify` or `True`, unless the request has one. -/
theorem pathArgs_verify {s : Option (Session b.lower)} {method url : Text} {kw : Kwargs b.lower}
    {args : RustArgs} (h : pathArgs b s method url kw = .ok args) :
    args.verify = verifyOf s kw := by
  cases s with
  | none => exact (prepare_spec h).verify
  | some s =>
    obtain ⟨merged, hmerged, h⟩ := bind_eq_ok.mp h
    rw [(prepare_spec h).verify, (merge_spec hmerged).verify]
    rfl

theorem handover_agent {client : Option RustClient} {w : World} {args : RustArgs} {h : Handover}
    (hh : handover p env client w args = .ok h) :
    ∃ given, extractArgs args = .ok given ∧
      (pick env client w args.verify).agent = .ok h.agent := by
  obtain ⟨r, hr, hh⟩ := bind_eq_ok.mp hh
  obtain ⟨cfg, -, hh⟩ := bind_eq_ok.mp hh
  obtain rfl := Except.ok.inj hh
  obtain ⟨given, hgiven, hr⟩ := bind_eq_ok.mp hr
  obtain ⟨agent, hagent, hr⟩ := bind_eq_ok.mp hr
  refine ⟨given, hgiven, ?_⟩
  rw [← pickAgent_eq, hagent]
  split at hr
  · cases hr
  · obtain rfl := Except.ok.inj hr
    rfl

theorem callRust_leaves (client : Option RustClient) (w : World) {args : RustArgs}
    {given : CallArgs} (h : extractArgs args = .ok given) :
    (callRust p env client w args).client = (pick env client w args.verify).client ∧
      (callRust p env client w args).world = (pick env client w args.verify).world := by
  cases client with
  | some c => exact RustClient.request_selects h
  | none =>
    simp only [callRust, httpRequest, h, pick]
    cases oneShotAgent env (pyOption args.verify) w <;> exact ⟨rfl, rfl⟩

theorem callRust_stops (client : Option RustClient) (w : World) {args : RustArgs} {e : PyErr}
    (h : extractArgs args = .error e) :
    (callRust p env client w args).client = client ∧ (callRust p env client w args).world = w := by
  cases client <;> simp [callRust, httpRequest, RustClient.request, h]

/-- What a request leaves is what the call into Rust leaves, if it gets there. -/
theorem send_leaves (s : Option (Session b.lower)) (w : World) (method url : Text)
    (kw : Kwargs b.lower) :
    let out := send b p env s w method url kw
    match pathArgs b s method url kw with
    | .error _ => out.client = s.bind Session.client ∧ out.world = w
    | .ok args =>
      out.client = (callRust p env (s.bind Session.client) w args).client ∧
        out.world = (callRust p env (s.bind Session.client) w args).world := by
  cases s with
  | none =>
    simp only [send, statelessRequest, dispatch, pathArgs, statelessArgs]
    cases prepare b (b.upper method) url kw <;> exact ⟨rfl, rfl⟩
  | some s =>
    simp only [send, Session.request, dispatch, pathArgs, sessionArgs, bind, Except.bind]
    cases s.merge b kw with
    | error e => exact ⟨rfl, rfl⟩
    | ok merged => cases h : prepare b (b.upper method) url merged <;> simp [h]

/-- A request that does not get to the choice of an agent leaves everything as it was. One
that does leaves what the choice leaves, and is served by the agent chosen. -/
theorem send_cases (p : Platform) (env : TlsEnv) (s : Option (Session b.lower)) (w : World)
    (method url : Text) (kw : Kwargs b.lower) :
    let out := send b p env s w method url kw
    let r := pick env (s.bind Session.client) w (verifyOf s kw)
    (out.client = s.bind Session.client ∧ out.world = w ∧
      ∃ e, handed b p env s w method url kw = .error e) ∨
    (out.client = r.client ∧ out.world = r.world ∧
      ∀ h, handed b p env s w method url kw = .ok h → r.agent = .ok h.agent) := by
  have hleaves := @send_leaves b p env s w method url kw
  dsimp only at hleaves ⊢
  unfold handed
  cases hargs : pathArgs b s method url kw with
  | error e =>
    rw [hargs] at hleaves
    exact Or.inl ⟨hleaves.1, hleaves.2, e, rfl⟩
  | ok args =>
    rw [hargs] at hleaves
    rw [← pathArgs_verify hargs, hleaves.1, hleaves.2]
    cases hgiven : extractArgs args with
    | error e =>
      have hstops := @callRust_stops p env (s.bind Session.client) w _ _ hgiven
      refine Or.inl ⟨hstops.1, hstops.2, e, ?_⟩
      simp only [Except.bind, handover, reach, hgiven, bind]
    | ok given =>
      have hleaves := @callRust_leaves p env (s.bind Session.client) w _ _ hgiven
      refine Or.inr ⟨hleaves.1, hleaves.2, ?_⟩
      intro h hh
      obtain ⟨-, -, hagent⟩ := handover_agent hh
      exact hagent

end Calls

section Invariant

/-- Two uses can share connections exactly when they are requests of one client, and ask for
one mode. -/
def Shares (x y : Use) : Prop :=
  x.agent.pool = y.agent.pool ↔ x.owner = y.owner ∧ x.owner ≠ none ∧ x.mode = y.mode

/-- A client's table only lists agents built for it. -/
def Holds (own : ℕ → Option Owner) (w : World) (o : Owner) (c : RustClient) : Prop :=
  ∀ m a, c.table m = some a → (m, a) ∈ w.builds ∧ own a.pool = some o

/-- The use of an agent that was built for its owner and its mode. -/
structure Genuine (own : ℕ → Option Owner) (w : World) (x : Use) : Prop where
  built : ∃ m, x.mode = .ok m ∧ (m, x.agent) ∈ w.builds
  owner : own x.agent.pool = x.owner

/-- As long as the client of a use is there, its table lists the agent. -/
def Listed (l : Live b.lower) (g : ℕ) (x : Use) : Prop :=
  g ≤ l.generation ∧ (g = l.generation → ∀ c, l.session.client = some c →
    ∀ m, x.mode = .ok m → c.table m = some x.agent)

/-- `own` tells for every pool for which client it was made. -/
structure Inv (own : ℕ → Option Owner) (s : State b.lower) : Prop where
  tables : ∀ i l c, s.sessions[i]? = some l → l.session.client = some c →
    Holds own s.world (i, l.generation) c
  genuine : ∀ x ∈ s.uses, Genuine own s.world x
  listed : ∀ x ∈ s.uses, ∀ i g, x.owner = some (i, g) →
    ∃ l, s.sessions[i]? = some l ∧ Listed l g x
  pairs : s.uses.Pairwise Shares

/-- Pools that are not in the world yet go to `o`. -/
def extend (own : ℕ → Option Owner) (w : World) (o : Option Owner) (pool : ℕ) : Option Owner :=
  if pool ∈ w.builds.map (fun e => e.2.pool) then own pool else o

theorem extend_old {own : ℕ → Option Owner} {w : World} {o : Option Owner} {m : VerifyMode}
    {a : Agent} (h : (m, a) ∈ w.builds) : extend own w o a.pool = own a.pool :=
  if_pos (List.mem_map_of_mem h)

/-- The pool of an agent that the world did not have before. -/
def New (w : World) (a : Agent) : Prop := ∀ e ∈ w.builds, e.2.pool ≠ a.pool

theorem extend_new {own : ℕ → Option Owner} {w : World} {o : Option Owner} {a : Agent}
    (h : New w a) : extend own w o a.pool = o := by
  refine if_neg ?_
  rw [List.mem_map]
  rintro ⟨e, he, hpool⟩
  exact h e he hpool

/-- The newest agent has a pool that no other has. -/
theorem new_of_cons {w w' : World} {m : VerifyMode} {a : Agent}
    (h : w'.builds = (m, a) :: w.builds) : New w a := by
  have hd := w'.distinct
  rw [h, List.map_cons, List.nodup_cons] at hd
  intro e he hpool
  exact hd.1 (List.mem_map.mpr ⟨e, he, hpool⟩)

theorem Genuine.extend {own : ℕ → Option Owner} {w w' : World} {x : Use}
    (h : Genuine own w x) (hw : ∀ e ∈ w.builds, e ∈ w'.builds) (o : Option Owner) :
    Genuine (extend own w o) w' x := by
  obtain ⟨m, hm, ha⟩ := h.built
  exact ⟨⟨m, hm, hw _ ha⟩, (extend_old ha).trans h.owner⟩

theorem Holds.extend {own : ℕ → Option Owner} {w w' : World} {o : Owner} {c : RustClient}
    (h : Holds own w o c) (hw : ∀ e ∈ w.builds, e ∈ w'.builds) (o' : Option Owner) :
    Holds (extend own w o') w' o c := by
  intro m a hm
  obtain ⟨ha, ho⟩ := h m a hm
  exact ⟨hw _ ha, (extend_old ha).trans ho⟩

/-- Other agents appear in the world. -/
theorem Inv.extend {own : ℕ → Option Owner} {s : State b.lower} (h : Inv own s) {w : World}
    (hw : ∀ e ∈ s.world.builds, e ∈ w.builds) (o : Option Owner) :
    Inv (extend own s.world o) { s with world := w } where
  tables i l c hl hc := (h.tables i l c hl hc).extend hw o
  genuine x hx := (h.genuine x hx).extend hw o
  listed := h.listed
  pairs := h.pairs

/-- What may become of a session: a client of the same generation keeps the agents in its
table. -/
structure Replaces (own : ℕ → Option Owner) (w : World) (i : ℕ) (l l' : Live b.lower) :
    Prop where
  generation : l.generation ≤ l'.generation
  table : ∀ c', l'.session.client = some c' → Holds own w (i, l'.generation) c'
  keeps : l.generation = l'.generation → ∀ c', l'.session.client = some c' →
    ∃ c, l.session.client = some c ∧ ∀ m a, c.table m = some a → c'.table m = some a

theorem Inv.replace {own : ℕ → Option Owner} {s : State b.lower} (h : Inv own s) {i : ℕ}
    {l l' : Live b.lower} (hl : s.sessions[i]? = some l) (hr : Replaces own s.world i l l') :
    Inv own { s with sessions := s.sessions.set i l' } := by
  have hi : i < s.sessions.length := (List.getElem?_eq_some_iff.mp hl).1
  refine ⟨?_, h.genuine, ?_, h.pairs⟩
  · intro j k c hk hc
    by_cases hij : i = j
    · subst hij
      rw [List.getElem?_set_self hi] at hk
      obtain rfl := Option.some.inj hk
      exact hr.table c hc
    · rw [List.getElem?_set_ne hij] at hk
      exact h.tables j k c hk hc
  · intro x hx j g hg
    obtain ⟨k, hk, hle, hlisted⟩ := h.listed x hx j g hg
    by_cases hij : i = j
    · subst hij
      obtain rfl := Option.some.inj (hl.symm.trans hk)
      refine ⟨l', List.getElem?_set_self hi, hle.trans hr.generation, ?_⟩
      intro heq c' hc' m hm
      have hsame : l.generation = l'.generation := le_antisymm hr.generation (heq ▸ hle)
      obtain ⟨c, hc, hkeep⟩ := hr.keeps hsame c' hc'
      exact hkeep m _ (hlisted (heq.trans hsame.symm) c hc m hm)
    · exact ⟨k, (List.getElem?_set_ne hij).trans hk, hle, hlisted⟩

/-- A replacement that leaves the client and its generation as they are. -/
theorem replaces_same {own : ℕ → Option Owner} {s : State b.lower} (h : Inv own s) {i : ℕ}
    {l l' : Live b.lower} (hl : s.sessions[i]? = some l)
    (hclient : l'.session.client = l.session.client) (hgen : l'.generation = l.generation) :
    Replaces own s.world i l l' := by
  refine ⟨hgen.ge, ?_, ?_⟩
  · intro c hc
    rw [hgen]
    exact h.tables i l c hl (hclient.symm.trans hc)
  · intro _ c hc
    exact ⟨c, hclient.symm.trans hc, fun _ _ => id⟩

theorem Inv.append {own : ℕ → Option Owner} {s : State b.lower} (h : Inv own s)
    {l : Live b.lower}
    (hl : ∀ c, l.session.client = some c → Holds own s.world (s.sessions.length, l.generation) c) :
    Inv own { s with sessions := s.sessions ++ [l] } := by
  refine ⟨?_, h.genuine, ?_, h.pairs⟩
  · intro j k c hk hc
    by_cases hj : j < s.sessions.length
    · rw [List.getElem?_append_left hj] at hk
      exact h.tables j k c hk hc
    · rw [List.getElem?_append_right (Nat.le_of_not_lt hj), List.getElem?_singleton] at hk
      split at hk
      next hz =>
        obtain rfl := Option.some.inj hk
        obtain rfl : j = s.sessions.length := by omega
        exact hl c hc
      next => cases hk
  · intro x hx j g hg
    obtain ⟨k, hk, hlisted⟩ := h.listed x hx j g hg
    have hj : j < s.sessions.length := (List.getElem?_eq_some_iff.mp hk).1
    exact ⟨k, (List.getElem?_append_left hj).trans hk, hlisted⟩

/-- One more use, of an agent that the client of its owner lists or that no use had before. -/
theorem Inv.record {own : ℕ → Option Owner} {s : State b.lower} (h : Inv own s) {x : Use}
    (hgenuine : Genuine own s.world x)
    (hlisted : ∀ i g, x.owner = some (i, g) → ∃ l, s.sessions[i]? = some l ∧ Listed l g x)
    (hshares : ∀ y ∈ s.uses, Shares x y) : Inv own { s with uses := x :: s.uses } where
  tables := h.tables
  genuine := List.forall_mem_cons.mpr ⟨hgenuine, h.genuine⟩
  listed := List.forall_mem_cons.mpr ⟨hlisted, h.listed⟩
  pairs := List.pairwise_cons.mpr ⟨hshares, h.pairs⟩

theorem Inv.serve {own : ℕ → Option Owner} {s : State b.lower} (h : Inv own s)
    {owner : Option Owner} {mode : Except PyErr VerifyMode} {r : Except PyErr Handover}
    (hr : ∀ x, r = .ok x → Genuine own s.world ⟨owner, mode, x.agent⟩ ∧
      (∀ i g, owner = some (i, g) →
        ∃ l, s.sessions[i]? = some l ∧ Listed l g ⟨owner, mode, x.agent⟩) ∧
      ∀ y ∈ s.uses, Shares ⟨owner, mode, x.agent⟩ y) :
    Inv own { s with uses := served owner mode r ++ s.uses } := by
  cases r with
  | error e => exact h
  | ok x =>
    obtain ⟨hgenuine, hlisted, hshares⟩ := hr x rfl
    exact h.record hgenuine hlisted hshares

end Invariant

section Steps

/-- The agent of a new client is new. -/
theorem new_holds {env : TlsEnv} {verify : Option PyVal} {timeout : Option PyFloat}
    {noProxyAll : Bool} {w w' : World} {c : RustClient}
    (h : RustClient.new env verify timeout noProxyAll w = .ok (c, w')) (own : ℕ → Option Owner)
    (o : Owner) :
    (∀ e ∈ w.builds, e ∈ w'.builds) ∧ Holds (extend own w (some o)) w' o c := by
  obtain ⟨m, -, h⟩ := bind_eq_ok.mp h
  obtain ⟨⟨a, w₁⟩, hbuild, h⟩ := bind_eq_ok.mp h
  obtain ⟨rfl, rfl⟩ := Prod.mk.inj (Except.ok.inj h)
  have hw := (buildAgent_ok hbuild).1
  refine ⟨fun e he => hw ▸ List.mem_cons_of_mem _ he, ?_⟩
  intro n x hn
  simp only [RustClient.table, OrderedMap.get?_empty, Option.ite_none_right_eq_some] at hn
  obtain ⟨rfl, hx⟩ := hn
  obtain rfl := Option.some.inj hx
  exact ⟨hw ▸ List.mem_cons_self, extend_new (new_of_cons hw)⟩

/-- An agent that a selection adds to the table is new. -/
theorem selectAgent_table {env : TlsEnv} {verify : Option PyVal} {c : RustClient} {w : World}
    {m : VerifyMode} {a : Agent} (h : (c.selectAgent env verify w).client.table m = some a) :
    c.table m = some a ∨ New w a := by
  rcases RustClient.selectAgent_cases env verify c w with
    ⟨e, q, hr⟩ | ⟨n, x, -, -, hr⟩ | ⟨n, x, w', -, ht, hb, hr⟩ <;> rw [hr] at h
  · exact Or.inl h
  · exact Or.inl h
  · rw [RustClient.table_insert ht] at h
    split at h
    · obtain rfl := Option.some.inj h
      exact Or.inr (new_of_cons (buildAgent_ok hb).1)
    · exact Or.inl h

theorem select_holds {own : ℕ → Option Owner} {w : World} {o : Owner} {c : RustClient}
    (h : Holds own w o c) (env : TlsEnv) (verify : Option PyVal) :
    let r := c.selectAgent env verify w
    Holds (extend own w (some o)) r.world o r.client := by
  have spec := RustClient.selectAgent_spec (fun m a hm => (h m a hm).1) env verify
  intro r m a hm
  refine ⟨spec.owns m a hm, ?_⟩
  rcases selectAgent_table hm with ht | hnew
  · obtain ⟨ha, ho⟩ := h m a ht
    exact (extend_old ha).trans ho
  · exact extend_new hnew

/-- A request that is served from a new agent of its own. -/
theorem oneShot_inv {own : ℕ → Option Owner} {s : State b.lower} (h : Inv own s)
    (p : Platform) (env : TlsEnv) {x : Option (Session b.lower)}
    (hx : x.bind Session.client = none) (method url : Text) (kw : Kwargs b.lower) :
    let out := send b p env x s.world method url kw
    out.client = none ∧ ∃ own', Inv own' { s with
      world := out.world
      uses := served none (callMode none (verifyOf x kw))
        (handed b p env x s.world method url kw) ++ s.uses } := by
  have hcases := send_cases p env x s.world method url kw
  dsimp only at hcases ⊢
  rw [hx] at hcases
  simp only [pick] at hcases
  rcases hcases with ⟨hclient, hworld, e, he⟩ | ⟨hclient, hworld, hserved⟩
  · rw [hworld, he]
    exact ⟨hclient, own, h⟩
  · cases hone : oneShotAgent env (pyOption (verifyOf x kw)) s.world with
    | error e =>
      rw [hone] at hclient hworld hserved
      refine ⟨hclient, own, ?_⟩
      rw [hworld]
      refine h.serve ?_
      intro y hy
      cases hserved y hy
    | ok r =>
      obtain ⟨a, w'⟩ := r
      rw [hone] at hclient hworld hserved
      obtain ⟨m, hm, hbuild⟩ := bind_eq_ok.mp hone
      have hw := (buildAgent_ok hbuild).1
      have hgrow : ∀ e ∈ s.world.builds, e ∈ w'.builds := by
        rw [hw]
        exact fun e he => List.mem_cons_of_mem _ he
      have hnew := new_of_cons hw
      refine ⟨hclient, extend own s.world none, ?_⟩
      rw [hworld]
      refine (h.extend hgrow none).serve ?_
      intro y hy
      obtain rfl := Except.ok.inj (hserved y hy)
      refine ⟨⟨⟨m, hm, hw ▸ List.mem_cons_self⟩, extend_new hnew⟩, by simp, ?_⟩
      intro z hz
      obtain ⟨n, -, hz⟩ := (h.genuine z hz).built
      exact iff_of_false (fun hpool => hnew _ hz hpool.symm) (fun hz => hz.2.1 rfl)

/-- A request that its client serves from its table. -/
theorem client_inv {own : ℕ → Option Owner} {s : State b.lower} (h : Inv own s)
    (p : Platform) (env : TlsEnv) {i : ℕ} {l : Live b.lower} (hl : s.sessions[i]? = some l)
    {c : RustClient} (hc : l.session.client = some c) (method url : Text)
    (kw : Kwargs b.lower) :
    let out := send b p env (some l.session) s.world method url kw
    ∃ own', Inv own' {
      sessions := s.sessions.set i { l with session := { l.session with client := out.client } }
      world := out.world
      uses := served (some (i, l.generation)) (callMode (some c) (verifyOf (some l.session) kw))
        (handed b p env (some l.session) s.world method url kw) ++ s.uses } := by
  have hcases := send_cases p env (some l.session) s.world method url kw
  dsimp only [Option.bind_some] at hcases ⊢
  rw [hc] at hcases
  simp only [pick] at hcases
  rcases hcases with ⟨hclient, hworld, e, he⟩ | ⟨hclient, hworld, hserved⟩
  · rw [hworld, he]
    exact ⟨own, h.replace hl (replaces_same h hl (hclient.trans hc.symm) rfl)⟩
  · have hholds := h.tables i l c hl hc
    have spec := RustClient.selectAgent_spec (fun m a hm => (hholds m a hm).1) env
      (pyOption (verifyOf (some l.session) kw))
    have hsel := select_holds hholds env (pyOption (verifyOf (some l.session) kw))
    dsimp only at hsel
    generalize c.selectAgent env (pyOption (verifyOf (some l.session) kw)) s.world = r at *
    have hgrow := h.extend spec.builds (some (i, l.generation))
    have hkeeps : Replaces (extend own s.world (some (i, l.generation))) r.world i l
        { l with session := { l.session with client := some r.client } } :=
      ⟨le_rfl, fun c' hc' => Option.some.inj hc' ▸ hsel,
        fun _ c' hc' => ⟨c, hc, Option.some.inj hc' ▸ spec.keeps⟩⟩
    have hreplace := hgrow.replace hl hkeeps
    refine ⟨extend own s.world (some (i, l.generation)), ?_⟩
    rw [hclient, hworld]
    refine hreplace.serve ?_
    intro y hy
    obtain ⟨m, hm, ht⟩ := spec.serves _ (hserved y hy)
    obtain ⟨hbuilt, howner⟩ := hsel m _ ht
    have hi : i < s.sessions.length := (List.getElem?_eq_some_iff.mp hl).1
    refine ⟨⟨⟨m, hm, hbuilt⟩, howner⟩, ?_, ?_⟩
    · intro j g hj
      obtain ⟨rfl, rfl⟩ := Prod.mk.inj (Option.some.inj hj)
      refine ⟨_, List.getElem?_set_self hi, le_rfl, ?_⟩
      intro _ c' hc' n hn
      obtain rfl := Option.some.inj hc'
      obtain rfl := Except.ok.inj (hm.symm.trans hn)
      exact ht
    · intro z hz
      have hgenuine := (h.genuine z hz).extend spec.builds (some (i, l.generation))
      obtain ⟨n, hn, hbuilt'⟩ := hgenuine.built
      constructor
      · intro hpool
        refine ⟨?_, by simp, ?_⟩
        · exact howner.symm.trans ((congrArg _ hpool).trans hgenuine.owner)
        · obtain ⟨rfl, -⟩ := World.pool_injective hbuilt hbuilt' hpool
          exact hm.trans hn.symm
      · rintro ⟨ho, -, hmode⟩
        obtain ⟨k, hk, -, hlisted⟩ := h.listed z hz i l.generation ho.symm
        obtain rfl := Option.some.inj (hl.symm.trans hk)
        have hz := spec.keeps _ _ (hlisted rfl c hc m (hmode.symm.trans hm))
        exact congrArg Agent.pool (Option.some.inj (ht.symm.trans hz))

theorem setVerify_inv {own : ℕ → Option Owner} {s : State b.lower} (h : Inv own s)
    (env : TlsEnv) {i : ℕ} {l : Live b.lower} (hl : s.sessions[i]? = some l) (value : PyVal) :
    let r := l.session.setVerify env s.world value
    let succeeded := if r.raised.isNone then 1 else 0
    ∃ own', Inv own' { s with
      sessions := s.sessions.set i ⟨r.session, l.generation + succeeded⟩
      world := r.world } := by
  unfold Session.setVerify
  dsimp only
  cases hnew : RustClient.new env (pyOption value) none false s.world with
  | error e => exact ⟨own, h.replace hl (replaces_same h hl rfl rfl)⟩
  | ok r =>
    obtain ⟨c, w⟩ := r
    obtain ⟨hgrow, hholds⟩ := new_holds hnew own (i, l.generation + 1)
    refine ⟨_, (h.extend hgrow (some (i, l.generation + 1))).replace (l := l) hl ?_⟩
    refine ⟨Nat.le_add_right _ _, fun c' hc' => Option.some.inj hc' ▸ hholds, ?_⟩
    intro hgen
    have hne : l.generation ≠ l.generation + 1 := by omega
    exact absurd hgen hne

theorem step_inv {own : ℕ → Option Owner} {s u : State b.lower} {a : Action b.lower}
    (h : Inv own s) (hs : step s a = some u) : ∃ own', Inv own' u := by
  cases a with
  | create env =>
    simp only [step] at hs
    split at hs <;> cases hs
    next => exact ⟨own, h⟩
    next c w hnew =>
      obtain ⟨hgrow, hholds⟩ := new_holds hnew own (s.sessions.length, 0)
      refine ⟨_, (h.extend hgrow (some (s.sessions.length, 0))).append ?_⟩
      intro c' hc'
      obtain rfl := Option.some.inj hc'
      exact hholds
  | set i a =>
    obtain ⟨l, hl, rfl⟩ := Option.map_eq_some_iff.mp hs
    refine ⟨own, h.replace hl (replaces_same h hl ?_ rfl)⟩
    cases a <;> rfl
  | setVerify i env value =>
    obtain ⟨l, hl, rfl⟩ := Option.map_eq_some_iff.mp hs
    exact setVerify_inv h env hl value
  | close i =>
    obtain ⟨l, hl, rfl⟩ := Option.map_eq_some_iff.mp hs
    exact ⟨own, h.replace hl ⟨le_rfl, (fun _ hc => nomatch hc), (fun _ _ hc => nomatch hc)⟩⟩
  | request i p env method url kw =>
    obtain ⟨l, hl, rfl⟩ := Option.map_eq_some_iff.mp hs
    cases hc : l.session.client with
    | none =>
      obtain ⟨hclient, own', hinv⟩ := oneShot_inv h p env (x := some l.session) hc method url kw
      have hsame : Replaces own' (send b p env l.session s.world method url kw).world i l
          { l with session := { l.session with
              client := (send b p env l.session s.world method url kw).client } } :=
        replaces_same hinv hl (hclient.trans hc.symm) rfl
      refine ⟨own', ?_⟩
      simpa only [ownerOf, hc, Option.map_none] using hinv.replace hl hsame
    | some c =>
      simpa only [ownerOf, hc, Option.map_some] using client_inv h p env hl hc method url kw
  | stateless p env method url kw =>
    obtain rfl := Option.some.inj hs
    exact (oneShot_inv h p env (x := none) rfl method url kw).2

theorem run_inv {w : World} {actions : List (Action b.lower)} {s : State b.lower}
    (hrun : run step (start b.lower w) actions = some s) : ∃ own, Inv own s := by
  have hstart : Inv (fun _ => none) (start b.lower w) :=
    ⟨by simp [start], by simp [start], by simp [start], List.Pairwise.nil⟩
  have hstep : ∀ (s : State b.lower) a t, (∃ own, Inv own s) → step s a = some t →
      ∃ own, Inv own t :=
    fun _ _ _ ⟨_, h⟩ hs => step_inv h hs
  exact run_invariant hstep ⟨_, hstart⟩ hrun

end Steps

/-- However sessions and stateless calls are mixed, two requests are served from one pool
exactly when they go through one client of one session, the same from one assignment of
`verify` to the next, and ask for one mode. A request is unverified exactly when its mode is
`VerifyMode::None`. -/
theorem pool_shared_iff {b : Builtins} {w : World} {actions : List (Action b.lower)}
    {s : State b.lower} (hrun : run step (start b.lower w) actions = some s) :
    s.uses.Pairwise Shares ∧ ∀ x ∈ s.uses, ∃ m, x.mode = .ok m ∧
      (x.agent.config.tlsConfig.disableVerification = true ↔ m = .none) := by
  obtain ⟨own, h⟩ := run_inv hrun
  refine ⟨h.pairs, ?_⟩
  intro x hx
  obtain ⟨m, hm, hbuilt⟩ := (h.genuine x hx).built
  exact ⟨m, hm, s.world.honest _ hbuilt⟩

/-- Two sessions and a stateless call; the first session is asked for an unverified request,
set to verify against nothing, closed, and used again. -/
def mixed : List (Action Builtins.ascii.lower) :=
  let get (i : ℕ) (kw : Kwargs Builtins.ascii.lower) : Action Builtins.ascii.lower :=
    .request i Platform.plain .noFiles "get".toList "http://h/".toList kw
  [.create .noFiles, .create .noFiles, get 0 {}, get 0 { verify := some (.bool false) }, get 1 {},
    get 0 {}, get 0 { verify := some (.bool false) },
    .stateless Platform.plain .noFiles "get".toList "http://h/".toList {},
    .setVerify 0 .noFiles (.bool false), get 0 {}, .close 0, get 0 {}]

theorem pool_shared_iff_mixed : ∃ s, run step (start Builtins.ascii.lower World.initial) mixed =
    some s ∧ s.uses.reverse.map (fun x => x.agent.pool) = [0, 2, 1, 0, 2, 3, 4, 5] ∧
    s.uses.Pairwise Shares :=
  ⟨_, rfl, rfl, (@pool_shared_iff _ World.initial mixed _ rfl).1⟩

end Pyureq.KeepAlive
