import ContextLayer.Runner

/-!
# What a job leaves in its process

The two lists that say what to remove and what to scrub are handed over when the last entry is placed. A later
entry that fails takes them with it.
-/

namespace ContextLayer.Sdk

open Text PyText Frontmatter

variable {unicode : Unicode} {host : Host} {client : Client} {runner : Runner}

/-! ### What one injection adds -/

/-- `w'` is `w` with `vars` set and `values` resolved. -/
structure Grown (w w' : World) (vars values : List PyStr) : Prop where
  requests : w'.requests = w.requests
  placed : w'.placed = w.placed ++ vars
  resolved : w'.resolved = w.resolved ++ values
  frame : ∀ var, var ∉ vars → w'.environ var = w.environ var
  isSet : ∀ var ∈ vars, w'.environ var ≠ none

theorem Grown.refl (w : World) : Grown w w [] [] where
  requests := rfl
  placed := (List.append_nil _).symm
  resolved := (List.append_nil _).symm
  frame := fun _ _ => rfl
  isSet := fun _ hvar => absurd hvar List.not_mem_nil

theorem Grown.resolve (w : World) (value : PyStr) :
    Grown w { w with resolved := w.resolved ++ [value] } [] [value] where
  requests := rfl
  placed := (List.append_nil _).symm
  resolved := rfl
  frame := fun _ _ => rfl
  isSet := fun _ hvar => absurd hvar List.not_mem_nil

theorem Grown.place {w w' : World} {var value : PyStr} {vars values : List PyStr}
    (h : Grown (World.place { w with resolved := w.resolved ++ [value] } var value) w' vars values) :
    Grown w w' (var :: vars) (value :: values) where
  requests := h.requests
  placed := by rw [h.placed]; simp [World.place]
  resolved := by rw [h.resolved]; simp [World.place]
  frame := by
    intro v hv
    rw [List.mem_cons, not_or] at hv
    rw [h.frame v hv.2]
    exact Function.update_of_ne hv.1 _ _
  isSet := by
    intro v hv
    by_cases hmem : v ∈ vars
    · exact h.isSet v hmem
    · have heq : v = var := (List.mem_cons.mp hv).resolve_right hmem
      rw [h.frame v hmem, heq]
      simp [World.place]

/-- The names are of the `n`th injection. -/
def NamedBy (host : Host) (n : Nat) (vars : List PyStr) : Prop :=
  ∀ var ∈ vars, ∃ k key, var = credentialVar (host.uuid n k) key

/-- What a failing loop leaves: its lists are lost, and something was placed if the first entry was. -/
structure Lost (unicode : Unicode) (host : Host) (n k : Nat) (entries : List PyJson) (failure : Failure)
    (vars values : List PyStr) : Prop where
  not_all : ¬ ∀ j entry, entries[j]? = some entry → Places unicode host n (k + j) entry
  vars_nil : vars = [] ↔ ∀ entry ∈ entries.head?, ¬ Places unicode host n k entry
  values_nil : values = [] ↔
    ∀ entry ∈ entries.head?, ∃ failure, resolveEntry unicode (host.vault n k) entry = .error failure
  /-- A value that was resolved and not placed was refused by the environment. -/
  isError : vars = [] → values ≠ [] → ∃ e, failure = .error e

/-- What a loop returns, if it returns. -/
structure Kept (unicode : Unicode) (host : Host) (n k : Nat) (entries : List PyJson) (acc injected : Injected)
    (vars values : List PyStr) : Prop where
  all : ∀ j entry, entries[j]? = some entry → Places unicode host n (k + j) entry
  envNames : injected.envNames = acc.envNames ++ vars
  secrets : injected.secrets = acc.secrets ++ values

theorem forall_getElem?_cons {P : Nat → PyJson → Prop} {entry : PyJson} {rest : List PyJson} :
    (∀ j e, (entry :: rest)[j]? = some e → P j e) ↔
      P 0 entry ∧ ∀ j e, rest[j]? = some e → P (j + 1) e := by
  constructor
  · intro h
    exact ⟨h 0 entry rfl, fun j e he => h (j + 1) e he⟩
  · rintro ⟨hhead, hrest⟩ j e he
    cases j with
    | zero => exact Option.some.inj he ▸ hhead
    | succ j => exact hrest j e he

/-- **One loop.** -/
theorem injectFrom_grown (unicode : Unicode) (host : Host) (n k : Nat) (entries : List PyJson) (acc : Injected) (w : World) :
    ∃ vars values, Grown w (injectFrom unicode host n k entries acc w).2 vars values ∧ NamedBy host n vars ∧
      ((∃ injected, (injectFrom unicode host n k entries acc w).1 = .ok injected ∧
          Kept unicode host n k entries acc injected vars values) ∨
        ∃ failure, (injectFrom unicode host n k entries acc w).1 = .error failure ∧
          Lost unicode host n k entries failure vars values) := by
  induction entries generalizing k acc w with
  | nil =>
      refine ⟨[], [], Grown.refl w, fun var hvar => absurd hvar List.not_mem_nil, Or.inl ⟨acc, rfl, ?_⟩⟩
      exact ⟨fun j entry h => by simp at h, (List.append_nil _).symm, (List.append_nil _).symm⟩
  | cons entry rest ih =>
      rw [injectFrom]
      cases hresolve : resolveEntry unicode (host.vault n k) entry with
      | error failure =>
          have hnot : ¬ Places unicode host n k entry := by
            rintro ⟨key, field, value, h, _⟩
            rw [hresolve] at h
            cases h
          refine ⟨[], [], Grown.refl w, fun var hvar => absurd hvar List.not_mem_nil,
            Or.inr ⟨failure, rfl, ?_⟩⟩
          constructor
          · intro h
            exact hnot (h 0 entry rfl)
          · exact ⟨fun _ e he => Option.some.inj he ▸ hnot, fun _ => rfl⟩
          · exact ⟨fun _ e he => Option.some.inj he ▸ ⟨failure, hresolve⟩, fun _ => rfl⟩
          · intro _ h
            exact absurd rfl h
      | ok found =>
          obtain ⟨key, field, value⟩ := found
          dsimp only
          cases hrefuses : host.refuses value with
          | some e =>
              have hnot : ¬ Places unicode host n k entry := by
                rintro ⟨key', field', value', h, hnone⟩
                rw [hresolve] at h
                cases h
                rw [hrefuses] at hnone
                cases hnone
              refine ⟨[], [value], Grown.resolve w value, fun var hvar => absurd hvar List.not_mem_nil,
                Or.inr ⟨.error e, rfl, ?_⟩⟩
              constructor
              · intro h
                exact hnot (h 0 entry rfl)
              · exact ⟨fun _ e' he => Option.some.inj he ▸ hnot, fun _ => rfl⟩
              · constructor
                · intro h
                  cases h
                · intro h
                  obtain ⟨failure, hfailure⟩ := h entry rfl
                  rw [hresolve] at hfailure
                  cases hfailure
              · exact fun _ _ => ⟨e, rfl⟩
          | none =>
              have hplaces : Places unicode host n k entry := ⟨key, field, value, hresolve, hrefuses⟩
              obtain ⟨vars, values, hgrown, hnamed, hresult⟩ := ih (k + 1)
                ⟨acc.envNames ++ [credentialVar (host.uuid n k) key], acc.secrets ++ [value],
                  Dict.set acc.config field (.str (credentialVar (host.uuid n k) key))⟩
                (World.place { w with resolved := w.resolved ++ [value] } (credentialVar (host.uuid n k) key) value)
              refine ⟨credentialVar (host.uuid n k) key :: vars, value :: values, hgrown.place, ?_, ?_⟩
              · intro var hvar
                rcases List.mem_cons.mp hvar with rfl | hmem
                · exact ⟨k, key, rfl⟩
                · exact hnamed var hmem
              · rcases hresult with ⟨injected, hok, hkept⟩ | ⟨failure, herror, hlost⟩
                · refine Or.inl ⟨injected, hok, ?_⟩
                  constructor
                  · refine forall_getElem?_cons.mpr ⟨hplaces, fun j e he => ?_⟩
                    have := hkept.all j e he
                    rwa [Nat.add_assoc, Nat.add_comm 1 j] at this
                  · rw [hkept.envNames, List.append_assoc]
                    rfl
                  · rw [hkept.secrets, List.append_assoc]
                    rfl
                · refine Or.inr ⟨failure, herror, ?_⟩
                  constructor
                  · intro h
                    refine hlost.not_all fun j e he => ?_
                    have := (forall_getElem?_cons.mp h).2 j e he
                    rwa [Nat.add_assoc, Nat.add_comm 1 j]
                  · constructor
                    · intro h
                      cases h
                    · intro h
                      exact absurd hplaces (h entry rfl)
                  · constructor
                    · intro h
                      cases h
                    · intro h
                      obtain ⟨failure', hfailure⟩ := h entry rfl
                      rw [hresolve] at hfailure
                      cases hfailure
                  · intro h
                    cases h

/-- **One injection.** -/
theorem injectCredentials_grown (unicode : Unicode) (host : Host) (n : Nat) (credentials : Option PyJson)
    (config : Members) (w : World) :
    ∃ vars values, Grown w (injectCredentials unicode host n credentials config w).2 vars values ∧
      NamedBy host n vars ∧
      ((∃ injected, (injectCredentials unicode host n credentials config w).1 = .ok injected ∧
          injected.envNames = vars ∧ injected.secrets = values ∧
          ∃ entries, PyJson.iterateOr credentials = some entries ∧ PlacesAll unicode host n entries) ∨
        ∃ failure, (injectCredentials unicode host n credentials config w).1 = .error failure ∧
          ((vars = [] ∧ values = [] ∧ PyJson.iterateOr credentials = none) ∨
            ∃ entries, PyJson.iterateOr credentials = some entries ∧
              Lost unicode host n 0 entries failure vars values)) := by
  unfold injectCredentials
  cases hentries : PyJson.iterateOr credentials with
  | none =>
      exact ⟨[], [], Grown.refl w, fun var hvar => absurd hvar List.not_mem_nil,
        Or.inr ⟨_, rfl, Or.inl ⟨rfl, rfl, rfl⟩⟩⟩
  | some entries =>
      obtain ⟨vars, values, hgrown, hnamed, hresult⟩ :=
        injectFrom_grown unicode host n 0 entries ⟨[], [], config⟩ w
      refine ⟨vars, values, hgrown, hnamed, ?_⟩
      rcases hresult with ⟨injected, hok, hkept⟩ | ⟨failure, herror, hlost⟩
      · refine Or.inl ⟨injected, hok, ?_, ?_, entries, rfl, ?_⟩
        · rw [hkept.envNames, List.nil_append]
        · rw [hkept.secrets, List.nil_append]
        · intro j entry hentry
          simpa only [Nat.zero_add] using hkept.all j entry hentry
      · exact Or.inr ⟨failure, herror, Or.inr ⟨entries, rfl, hlost⟩⟩

/-! ### What goes out -/

/-- `w'` is `w` with some requests made, and the scrub set of every result and error among them is `secrets`. -/
structure Sends (secrets : List PyStr) (w w' : World) : Prop where
  environ : w'.environ = w.environ
  placed : w'.placed = w.placed
  resolved : w'.resolved = w.resolved
  scrubSet : ∃ requests, w'.requests = w.requests ++ requests ∧
    ∀ request ∈ requests, ∀ set, request.call.scrubSet = some set → set = secrets

theorem Sends.refl (secrets : List PyStr) (w : World) : Sends secrets w w where
  environ := rfl
  placed := rfl
  resolved := rfl
  scrubSet := ⟨[], (List.append_nil _).symm, fun _ h => absurd h List.not_mem_nil⟩

theorem Sends.trans {secrets : List PyStr} {w w' w'' : World} (h : Sends secrets w w') (h' : Sends secrets w' w'') :
    Sends secrets w w'' where
  environ := h'.environ.trans h.environ
  placed := h'.placed.trans h.placed
  resolved := h'.resolved.trans h.resolved
  scrubSet := by
    obtain ⟨requests, heq, hset⟩ := h.scrubSet
    obtain ⟨requests', heq', hset'⟩ := h'.scrubSet
    refine ⟨requests ++ requests', by rw [heq', heq, List.append_assoc], ?_⟩
    intro request hrequest
    rcases List.mem_append.mp hrequest with hmem | hmem
    · exact hset request hmem
    · exact hset' request hmem

theorem request_sends (client : Client) (jobId leaseToken : PyStr) {secrets : List PyStr} {call : Call}
    (hcall : ∀ set, call.scrubSet = some set → set = secrets) (w : World) :
    Sends secrets w (w.request client jobId leaseToken call).2 where
  environ := rfl
  placed := rfl
  resolved := rfl
  scrubSet := by
    refine ⟨[⟨jobId, leaseToken, call⟩], rfl, fun request hrequest => ?_⟩
    rw [List.mem_singleton] at hrequest
    subst hrequest
    exact hcall

theorem send_world (client : Client) (jobId leaseToken : PyStr) (call : Call) (w : World) :
    (send client jobId leaseToken call w).2 = (w.request client jobId leaseToken call).2 := by
  unfold send World.request
  cases client w.requests.length <;> rfl

theorem send_sends (client : Client) (jobId leaseToken : PyStr) {call : Call} {secrets : List PyStr}
    (hcall : ∀ set, call.scrubSet = some set → set = secrets) (w : World) :
    Sends secrets w (send client jobId leaseToken call w).2 := by
  rw [send_world]
  exact request_sends client jobId leaseToken hcall w

theorem fail_sends (client : Client) (jobId leaseToken : PyStr) (error : JobError) (secrets : List PyStr)
    (w : World) : Sends secrets w (fail client jobId leaseToken error secrets w).2 :=
  send_sends client jobId leaseToken (fun _ h => by cases h; rfl) w

theorem deliver_sends (client : Client) (jobId leaseToken : PyStr) (outcome : Option JobOutcome)
    (secrets : List PyStr) (w : World) :
    Sends secrets w (deliver client jobId leaseToken outcome secrets w).2 := by
  cases outcome with
  | none => exact fail_sends _ _ _ _ _ _
  | some outcome =>
      cases outcome with
      | snapshot serialized => exact send_sends client jobId leaseToken (fun _ h => by cases h) w
      | result value => exact send_sends client jobId leaseToken (fun _ h => by cases h; rfl) w
      | deferred retryAfter error => exact send_sends client jobId leaseToken (fun _ h => by cases h; rfl) w
      | failed error => exact fail_sends _ _ _ _ _ _

theorem start_sends (client : Client) (secrets : List PyStr) (job : JobRecord) (w : World) :
    Sends secrets w (w.request client job.jobId job.leaseToken .start).2 :=
  request_sends client job.jobId job.leaseToken (fun _ h => by cases h) w

theorem serve_sends (connector : Connector) (job : JobRecord) (injected : Injected) (w : World) :
    Sends injected.secrets w (serve client connector job injected w).2 := by
  have hstart := start_sends client injected.secrets job w
  unfold serve
  generalize w.request client job.jobId job.leaseToken .start = started at hstart
  obtain ⟨reply, w'⟩ := started
  cases reply with
  | refused => exact hstart
  | raises failure => exact hstart
  | ok cancelRequested =>
      cases cancelRequested with
      | true => exact hstart.trans (fail_sends _ _ _ _ _ _)
      | false =>
          dsimp only
          cases connector.work job injected.config w'.environ with
          | lost => exact hstart
          | raises failure => exact hstart
          | cancelled token => exact hstart.trans (fail_sends _ _ _ _ _ _)
          | finished token outcome => exact hstart.trans (deliver_sends _ _ _ _ _ _)

theorem failVault_sends (job : JobRecord) (text : PyStr) (secrets : List PyStr) (w : World) :
    Sends secrets w (failVault client job text secrets w).2 := by
  have hstart := start_sends client secrets job w
  unfold failVault
  generalize w.request client job.jobId job.leaseToken .start = started at hstart
  obtain ⟨reply, w'⟩ := started
  cases reply with
  | refused => exact hstart
  | raises failure => exact hstart
  | ok cancelRequested => exact hstart.trans (fail_sends _ _ _ _ _ _)

theorem isolate_sends (job : JobRecord) (secrets : List PyStr) (run : Option Failure × World) :
    Sends secrets run.2 (isolate client job secrets run).2 := by
  obtain ⟨failure, w⟩ := run
  cases failure with
  | none => exact Sends.refl secrets w
  | some failure => exact fail_sends _ _ _ _ _ _

/-! ### What is cleaned up -/

theorem environ_popAll (vars : List PyStr) (w : World) (var : PyStr) :
    (w.popAll vars).environ var = if var ∈ vars then none else w.environ var := by
  have hfold : ∀ environ : PyStr → Option PyStr,
      vars.foldl (fun environ var => Function.update environ var none) environ var =
        if var ∈ vars then none else environ var := by
    induction vars with
    | nil => intro environ; rfl
    | cons v rest ih =>
        intro environ
        rw [List.foldl_cons, ih]
        by_cases hrest : var ∈ rest
        · rw [if_pos hrest, if_pos (List.mem_cons_of_mem _ hrest)]
        · rw [if_neg hrest]
          by_cases hv : var = v
          · rw [if_pos (hv ▸ List.mem_cons_self), hv, Function.update_self]
          · rw [if_neg (by simp [hv, hrest]), Function.update_of_ne hv]
  exact hfold w.environ

/-- A job whose credentials were all placed leaves nothing. -/
theorem clean_of_kept {secrets vars : List PyStr} {w w' : World} {environ : PyStr → Option PyStr}
    (hgrown : Grown (World.begin environ) w vars secrets) (hsends : Sends secrets w w') :
    (w'.popAll vars).Clean where
  environ := by
    intro var hvar
    have hmem : var ∈ vars := by
      have : var ∈ w'.placed := hvar
      rwa [hsends.placed, hgrown.placed] at this
    rw [environ_popAll, if_pos hmem]
  scrubbed := by
    intro request hrequest set hset value hvalue
    obtain ⟨requests, heq, hall⟩ := hsends.scrubSet
    have hmem : request ∈ requests := by
      have : request ∈ w'.requests := hrequest
      rwa [heq, hgrown.requests] at this
    have hresolved : value ∈ w'.resolved := hvalue
    rw [hsends.resolved, hgrown.resolved] at hresolved
    rw [hall request hmem set hset]
    exact hresolved

/-- A job whose lists are lost leaves nothing if there was nothing. -/
theorem clean_of_lost {w w' : World} {vars values : List PyStr} {environ : PyStr → Option PyStr}
    (hgrown : Grown (World.begin environ) w vars values) (hsends : Sends [] w w')
    (hsent : vars = [] → values ≠ [] →
      ∃ request ∈ w'.requests, ∃ set, request.call.scrubSet = some set ∧ set = []) :
    (w'.popAll []).Clean ↔ vars = [] ∧ values = [] := by
  have hplaced : w'.placed = vars := hsends.placed.trans hgrown.placed
  have hresolved : w'.resolved = values := hsends.resolved.trans hgrown.resolved
  constructor
  · intro hclean
    have hvars : vars = [] := by
      rw [List.eq_nil_iff_forall_not_mem]
      intro var hvar
      refine hgrown.isSet var hvar ?_
      have := hclean.environ var (by show var ∈ w'.placed; rwa [hplaced])
      rwa [environ_popAll, if_neg List.not_mem_nil, hsends.environ] at this
    refine ⟨hvars, ?_⟩
    by_contra hvalues
    obtain ⟨request, hrequest, set, hset, rfl⟩ := hsent hvars hvalues
    obtain ⟨value, hvalue⟩ := List.exists_mem_of_ne_nil _ hvalues
    exact List.not_mem_nil (hclean.scrubbed request hrequest [] hset value
      (by show value ∈ w'.resolved; rwa [hresolved]))
  · rintro ⟨rfl, rfl⟩
    constructor
    · intro var hvar
      have : var ∈ w'.placed := hvar
      rw [hplaced] at this
      exact absurd this List.not_mem_nil
    · intro _ _ _ _ value hvalue
      have : value ∈ w'.resolved := hvalue
      rw [hresolved] at this
      exact absurd this List.not_mem_nil

/-- Nothing was placed and nothing resolved if and only if the first entry was not even resolved. -/
theorem Lost.nil_iff {n : Nat} {entries : List PyJson} {failure : Failure} {vars values : List PyStr}
    (h : Lost unicode host n 0 entries failure vars values) :
    (vars = [] ∧ values = []) ↔ PlacesAll unicode host n entries ∨
      ∀ entry ∈ entries.head?, ∃ failure, resolveEntry unicode (host.vault n 0) entry = .error failure := by
  have hnot : ¬ PlacesAll unicode host n entries := by
    intro hall
    refine h.not_all fun j entry hentry => ?_
    rw [Nat.zero_add]
    exact hall j entry hentry
  constructor
  · intro hnil
    exact Or.inr (h.values_nil.mp hnil.2)
  · intro hcases
    have hunresolved := hcases.resolve_left hnot
    refine ⟨h.vars_nil.mpr fun entry hentry hplaces => ?_, h.values_nil.mpr hunresolved⟩
    obtain ⟨key, field, value, hvalue, _⟩ := hplaces
    obtain ⟨failure, hfailure⟩ := hunresolved entry hentry
    rw [hvalue] at hfailure
    cases hfailure

/-- **One job.** -/
theorem execute_clean_iff (environ : PyStr → Option PyStr) (job : JobRecord) :
    (runner.execute unicode host client job (World.begin environ)).2.Clean ↔
      ∀ connector, runner.refusal unicode job = .inl connector → AllOrNone unicode host job.credentials := by
  unfold Runner.execute
  cases hrefusal : runner.refusal unicode job with
  | inr error =>
      refine iff_of_true ?_ fun connector h => by cases h
      have hsends := fail_sends client job.jobId job.leaseToken error [] (World.begin environ)
      have := clean_of_kept (Grown.refl (World.begin environ)) hsends
      exact this
  | inl connector =>
      dsimp only
      obtain ⟨vars, values, hgrown, -, hresult⟩ := injectCredentials_grown unicode host
        0 job.credentials job.config (World.begin environ)
      generalize injectCredentials unicode host 0 job.credentials job.config (World.begin environ) = result
        at hgrown hresult
      obtain ⟨injection, w⟩ := result
      rcases hresult with ⟨injected, rfl, rfl, rfl, entries, hentries, hall⟩ | ⟨failure, rfl, hlost⟩
      · refine iff_of_true ?_ fun _ _ entries' hentries' => ?_
        · exact clean_of_kept hgrown ((serve_sends connector job injected w).trans (isolate_sends job _ _))
        · rw [hentries] at hentries'
          exact Or.inl (Option.some.inj hentries' ▸ hall)
      · have hcondition : (vars = [] ∧ values = []) ↔ ∀ connector', (Sum.inl connector : Connector ⊕ JobError) =
            .inl connector' → AllOrNone unicode host job.credentials := by
          rcases hlost with ⟨hvars, hvalues, hnone⟩ | ⟨entries, hentries, hlost⟩
          · refine iff_of_true ⟨hvars, hvalues⟩ fun _ _ entries hentries => ?_
            rw [hnone] at hentries
            cases hentries
          · rw [hlost.nil_iff]
            constructor
            · intro h _ _ entries' hentries'
              rw [hentries] at hentries'
              exact Option.some.inj hentries' ▸ h
            · intro h
              exact h connector rfl entries hentries
        cases failure with
        | vault text =>
            dsimp only
            rw [← hcondition]
            refine clean_of_lost hgrown ((failVault_sends job text [] w).trans (isolate_sends job [] _)) ?_
            intro hvars hvalues
            rcases hlost with ⟨-, hnil, -⟩ | ⟨entries, -, hlost⟩
            · exact absurd hnil hvalues
            · obtain ⟨e, he⟩ := hlost.isError hvars hvalues
              cases he
        | error e =>
            dsimp only
            rw [← hcondition]
            refine clean_of_lost hgrown (isolate_sends job [] (some (.error e), w)) fun _ _ => ?_
            rw [show (isolate client job [] (some (.error e), w)).2 = _ from send_world _ _ _ _ _]
            exact ⟨_, List.mem_append_right _ (List.mem_singleton_self _), [], rfl, rfl⟩

/-! ### The preflight -/

/-- `w'` is `w` with `vars` set at some time in between. -/
structure Visited (w w' : World) (vars : List PyStr) : Prop where
  requests : w'.requests = w.requests
  placed : w'.placed = w.placed ++ vars
  frame : ∀ var, var ∉ vars → w'.environ var = w.environ var

theorem Visited.refl (w : World) : Visited w w [] where
  requests := rfl
  placed := (List.append_nil _).symm
  frame := fun _ _ => rfl

theorem Visited.trans {w w' w'' : World} {vars vars' : List PyStr} (h : Visited w w' vars)
    (h' : Visited w' w'' vars') : Visited w w'' (vars ++ vars') where
  requests := h'.requests.trans h.requests
  placed := by rw [h'.placed, h.placed, List.append_assoc]
  frame := by
    intro var hvar
    rw [List.mem_append, not_or] at hvar
    rw [h'.frame var hvar.2, h.frame var hvar.1]

theorem Grown.popAll {w w' : World} {vars values : List PyStr} (h : Grown w w' vars values) {names : List PyStr}
    (hnames : ∀ var ∈ names, var ∈ vars) : Visited w (w'.popAll names) vars where
  requests := h.requests
  placed := h.placed
  frame := by
    intro var hvar
    rw [environ_popAll, if_neg fun hmem => hvar (hnames var hmem)]
    exact h.frame var hvar

theorem Lost.vars_nil_iff {n : Nat} {entries : List PyJson} {failure : Failure} {vars values : List PyStr}
    (h : Lost unicode host n 0 entries failure vars values) :
    vars = [] ↔ PlacesAll unicode host n entries ∨ ∀ entry ∈ entries.head?, ¬ Places unicode host n 0 entry := by
  have hnot : ¬ PlacesAll unicode host n entries := by
    intro hall
    refine h.not_all fun j entry hentry => ?_
    rw [Nat.zero_add]
    exact hall j entry hentry
  rw [h.vars_nil]
  exact ⟨Or.inr, fun hcases => hcases.resolve_left hnot⟩

/-- **One configured entry.** -/
theorem preflightEntry_visited (unicode : Unicode) (host : Host) (runner : Runner) (n : Nat) (entry : PreflightEntry)
    (w : World) :
    ∃ vars, Visited w (runner.preflightEntry unicode host n entry w).2 vars ∧ NamedBy host n vars ∧
      ((∀ var ∈ vars, (runner.preflightEntry unicode host n entry w).2.environ var = none) ↔
        (runner.Preflights entry → AllOrFirst unicode host n entry.credentials)) := by
  have hnone : ¬ runner.Preflights entry → ∃ vars, Visited w w vars ∧ NamedBy host n vars ∧
      ((∀ var ∈ vars, w.environ var = none) ↔
        (runner.Preflights entry → AllOrFirst unicode host n entry.credentials)) := by
    intro hnot
    exact ⟨[], Visited.refl w, fun var hvar => absurd hvar List.not_mem_nil,
      iff_of_true (fun var hvar => absurd hvar List.not_mem_nil) fun h => absurd h hnot⟩
  unfold Runner.preflightEntry
  cases hconnector : Dict.get? runner.connectors entry.connector with
  | none =>
      refine hnone ?_
      rintro ⟨connector, preflight, h, _⟩
      rw [hconnector] at h
      cases h
  | some connector =>
      dsimp only
      cases hquery : connector.query with
      | none =>
          refine hnone ?_
          rintro ⟨connector', preflight, h, h'⟩
          rw [hconnector] at h
          cases h
          rw [hquery] at h'
          cases h'
      | some preflight =>
          have hpreflights : runner.Preflights entry := ⟨connector, preflight, hconnector, hquery⟩
          dsimp only
          obtain ⟨vars, values, hgrown, hnamed, hresult⟩ := injectCredentials_grown unicode
            host n entry.credentials entry.config w
          generalize injectCredentials unicode host n entry.credentials entry.config w = result at hgrown hresult
          obtain ⟨injection, w'⟩ := result
          rcases hresult with ⟨injected, rfl, rfl, -, entries, hentries, hall⟩ | ⟨failure, rfl, hlost⟩
          · have hclean : (∀ var ∈ injected.envNames, (w'.popAll injected.envNames).environ var = none) ↔
                (runner.Preflights entry → AllOrFirst unicode host n entry.credentials) := by
              refine iff_of_true (fun var hvar => ?_) fun _ entries' hentries' => ?_
              · rw [environ_popAll, if_pos hvar]
              · rw [hentries] at hentries'
                exact Or.inl (Option.some.inj hentries' ▸ hall)
            refine ⟨injected.envNames, ?_, hnamed, ?_⟩
            · dsimp only
              cases preflight injected.config w'.environ <;> exact hgrown.popAll fun _ h => h
            · dsimp only
              cases preflight injected.config w'.environ <;> exact hclean
          · refine ⟨vars, hgrown.popAll fun _ h => absurd h List.not_mem_nil, hnamed, ?_⟩
            have hset : (∀ var ∈ vars, (w'.popAll []).environ var = none) ↔ vars = [] := by
              constructor
              · intro h
                rw [List.eq_nil_iff_forall_not_mem]
                intro var hvar
                refine hgrown.isSet var hvar ?_
                have := h var hvar
                rwa [environ_popAll, if_neg List.not_mem_nil] at this
              · rintro rfl var hvar
                exact absurd hvar List.not_mem_nil
            rw [hset]
            rcases hlost with ⟨hvars, -, hiterate⟩ | ⟨entries, hentries, hlost⟩
            · refine iff_of_true hvars fun _ entries hentries => ?_
              rw [hiterate] at hentries
              cases hentries
            · rw [hlost.vars_nil_iff]
              constructor
              · intro h _ entries' hentries'
                rw [hentries] at hentries'
                exact Option.some.inj hentries' ▸ h
              · intro h
                exact h hpreflights entries hentries

theorem uuid_eq_of_credentialVar (hfresh : host.Fresh runner) {n k n' k' : Nat} {key key' : PyStr}
    (h : credentialVar (host.uuid n k) key = credentialVar (host.uuid n' k') key') :
    host.uuid n k = host.uuid n' k' :=
  (List.append_inj (List.append_cancel_left h) ((hfresh.length n k).trans (hfresh.length n' k').symm)).1

/-- **All configured entries.** The names of two entries differ, so that none removes what another has left. -/
theorem preflightFrom_visited (unicode : Unicode) (hfresh : host.Fresh runner) (n : Nat) (entries : List PreflightEntry)
    (hlength : n + entries.length ≤ runner.executionPreflight.length) (refused : List (PyStr × PyStr)) (w : World) :
    ∃ vars, Visited w (runner.preflightFrom unicode host n entries refused w).2 vars ∧
      (∀ var ∈ vars, ∃ m k key, n ≤ m ∧ m < n + entries.length ∧ var = credentialVar (host.uuid m k) key) ∧
      ((∀ var ∈ vars, (runner.preflightFrom unicode host n entries refused w).2.environ var = none) ↔
        ∀ j entry, entries[j]? = some entry → runner.Preflights entry →
          AllOrFirst unicode host (n + j) entry.credentials) := by
  induction entries generalizing n refused w with
  | nil =>
      exact ⟨[], Visited.refl w, fun var hvar => absurd hvar List.not_mem_nil,
        iff_of_true (fun var hvar => absurd hvar List.not_mem_nil) fun j entry h => by simp at h⟩
  | cons entry rest ih =>
      rw [List.length_cons] at hlength
      obtain ⟨vars, hvisited, hnamed, hclean⟩ :=
        preflightEntry_visited unicode host runner n entry w
      have hrun : ∃ refused', runner.preflightFrom unicode host n (entry :: rest) refused w =
          runner.preflightFrom unicode host (n + 1) rest refused'
            (runner.preflightEntry unicode host n entry w).2 := by
        rw [Runner.preflightFrom]
        generalize runner.preflightEntry unicode host n entry w = result
        obtain ⟨reason, w'⟩ := result
        cases reason with
        | none => exact ⟨refused, rfl⟩
        | some reason => exact ⟨_, rfl⟩
      obtain ⟨refused', hrun⟩ := hrun
      rw [hrun]
      obtain ⟨vars', hvisited', hnamed', hclean'⟩ := ih (n + 1) (by omega) refused'
        (runner.preflightEntry unicode host n entry w).2
      have hdisjoint : ∀ var ∈ vars, var ∉ vars' := by
        intro var hvar hvar'
        obtain ⟨k, key, rfl⟩ := hnamed var hvar
        obtain ⟨m, k', key', hle, hlt, heq⟩ := hnamed' _ hvar'
        have := hfresh.injective n k m k' (by omega) (by omega) (uuid_eq_of_credentialVar hfresh heq)
        omega
      refine ⟨vars ++ vars', hvisited.trans hvisited', ?_, ?_⟩
      · intro var hvar
        rcases List.mem_append.mp hvar with hmem | hmem
        · obtain ⟨k, key, heq⟩ := hnamed var hmem
          exact ⟨n, k, key, le_refl n, by rw [List.length_cons]; omega, heq⟩
        · obtain ⟨m, k, key, hle, hlt, heq⟩ := hnamed' var hmem
          exact ⟨m, k, key, by omega, by rw [List.length_cons]; omega, heq⟩
      · have hsplit : (∀ var ∈ vars ++ vars', (runner.preflightFrom unicode host (n + 1) rest refused'
              (runner.preflightEntry unicode host n entry w).2).2.environ var = none) ↔
            (∀ var ∈ vars, (runner.preflightEntry unicode host n entry w).2.environ var = none) ∧
              ∀ var ∈ vars', (runner.preflightFrom unicode host (n + 1) rest refused'
                (runner.preflightEntry unicode host n entry w).2).2.environ var = none := by
          rw [List.forall_mem_append]
          refine and_congr_left fun _ => forall₂_congr fun var hvar => ?_
          rw [hvisited'.frame var (hdisjoint var hvar)]
        rw [hsplit, hclean, hclean']
        constructor
        · rintro ⟨hhead, hrest⟩ j e he
          cases j with
          | zero => exact Option.some.inj he ▸ hhead
          | succ j =>
              have := hrest j e he
              rwa [Nat.add_assoc, Nat.add_comm 1 j] at this
        · intro h
          refine ⟨h 0 entry rfl, fun j e he => ?_⟩
          rw [Nat.add_assoc, Nat.add_comm 1 j]
          exact h (j + 1) e he

/-- **The preflight.** It makes no request, so that only the environment counts. -/
theorem preflight_clean_iff (hfresh : host.Fresh runner) (environ : PyStr → Option PyStr) :
    (runner.preflightExecution unicode host (World.begin environ)).2.2.Clean ↔
      ∀ n entry, runner.executionPreflight[n]? = some entry → runner.Preflights entry →
        AllOrFirst unicode host n entry.credentials := by
  obtain ⟨vars, hvisited, -, hclean⟩ := preflightFrom_visited unicode hfresh 0
    runner.executionPreflight (Nat.zero_add _).le [] (World.begin environ)
  have hplaced := hvisited.placed
  have hrequests := hvisited.requests
  simp only [Nat.zero_add] at hclean
  rw [← hclean]
  constructor
  · intro h var hvar
    refine h.environ var ?_
    show var ∈ (runner.preflightFrom unicode host 0 runner.executionPreflight [] (World.begin environ)).2.placed
    rw [hplaced]
    exact List.mem_append_right _ hvar
  · intro h
    constructor
    · intro var hvar
      change var ∈ (runner.preflightFrom unicode host 0 runner.executionPreflight [] (World.begin environ)).2.placed
        at hvar
      rw [hplaced] at hvar
      exact h var hvar
    · intro request hrequest
      change request ∈ (runner.preflightFrom unicode host 0 runner.executionPreflight [] (World.begin environ)).2.requests
        at hrequest
      rw [hrequests] at hrequest
      exact absurd hrequest List.not_mem_nil

/-! ### Credentials that do not outlive the job -/

/-- **Which calls leave nothing.** A job does unless an entry behind a resolved one fails, and a preflight does
unless an entry behind a placed one fails. -/
theorem credentials_clean_iff (unicode : Unicode) (host : Host) (client : Client) (runner : Runner)
    (hfresh : host.Fresh runner) (environ : PyStr → Option PyStr) :
    (∀ job, (runner.execute unicode host client job (World.begin environ)).2.Clean ↔
      ∀ connector, runner.refusal unicode job = .inl connector → AllOrNone unicode host job.credentials) ∧
    ((runner.preflightExecution unicode host (World.begin environ)).2.2.Clean ↔
      ∀ n entry, runner.executionPreflight[n]? = some entry → runner.Preflights entry →
        AllOrFirst unicode host n entry.credentials) :=
  ⟨execute_clean_iff environ, preflight_clean_iff hfresh environ⟩

/-- `{ref, key}`. -/
def credentialEntry (ref key : String) : PyJson :=
  .obj [(py "ref", .str (py ref)), (py "key", .str (py key))]

/-- A vault that knows one secret. -/
def oneSecret : Host where
  uuid := fun n _ => List.replicate 32 (.unit (0x30 + n.toUInt16))
  vault := fun _ _ ref => if ref.asStr = some (py "vault://secret/shop#dsn") then .ok (py "hunter2")
    else .error (.vault (py "no secret"))
  refuses := fun _ => none

/-- One connector, that is done at once. -/
def shopConnector : Connector where
  query := some fun _ _ => .ok .null
  work := fun job _ _ => .finished job.leaseToken (some (.result .null))

def shopRunner : Runner where
  runnerId := py "r1"
  connectors := [(py "postgres", shopConnector)]
  executionRefused := []
  executionPreflight := [⟨py "postgres", [], some (.arr [credentialEntry "vault://secret/shop#dsn" "dsn"])⟩]
  redactText := id

def shopJob (credentials : List PyJson) : JobRecord :=
  ⟨py "j1", py "t1", py "postgres", py "snapshot", [], some (.arr credentials), []⟩

theorem oneSecret_fresh : oneSecret.Fresh shopRunner where
  length := fun _ _ => List.length_replicate
  injective := by
    intro n _ n' _ hn hn' _
    have hlength : shopRunner.executionPreflight.length = 1 := rfl
    omega

theorem credentials_clean_shop :
    (shopRunner.execute asciiOnly oneSecret (fun _ => .ok false)
      (shopJob [credentialEntry "vault://secret/shop#dsn" "dsn"]) (World.begin fun _ => none)).2.Clean := by
  refine ((credentials_clean_iff asciiOnly oneSecret (fun _ => .ok false) shopRunner oneSecret_fresh
    fun _ => none).1 _).mpr ?_
  intro _ _ entries hentries
  have heq : entries = [credentialEntry "vault://secret/shop#dsn" "dsn"] := (Option.some.inj hentries).symm
  subst heq
  refine Or.inl fun k entry hentry => ?_
  cases k with
  | zero =>
      cases hentry
      exact ⟨py "dsn", py "dsn_env", py "hunter2", rfl, rfl⟩
  | succ k => cases hentry

/-- The second reference is not in the vault: the first secret stays, and is scrubbed from nothing. -/
theorem not_credentials_clean_second :
    ¬ (shopRunner.execute asciiOnly oneSecret (fun _ => .ok false)
      (shopJob [credentialEntry "vault://secret/shop#dsn" "dsn",
        credentialEntry "vault://secret/shop#other" "client_secret"]) (World.begin fun _ => none)).2.Clean := by
  intro hclean
  have := hclean.environ (credentialVar (oneSecret.uuid 0 0) (py "dsn")) (List.mem_singleton_self _)
  cases this

end ContextLayer.Sdk
