import ContextLayer.Proof.Platform
import ContextLayer.Vault
import Mathlib.Algebra.Order.Ring.Rat
import Mathlib.Tactic.Linarith

/-!
# A secret is read when it is asked for

What threads do to each other is to share a token. Apart from that every call is a conversation of its own: a token if there is
none, a read, and where it is refused a new token and the last read. So what a call returns was read for it, and what is refused
was refused on a token that it had just been given.
-/

namespace ContextLayer.Vault

open Text PyText

/-! ### Conversations -/

/-- How a token is come by, if none is there. -/
inductive Obtains (auth : VaultAuth) : List Exchange → PyStr → Prop where
  | login {answeredAt lease : ℚ} {status : Nat} {token : PyStr} (happrole : auth.isApprole = true) (hstatus : status < 400) :
      Obtains auth [.login answeredAt (.answered status (some (token, lease)))] token
  | static (happrole : auth.isApprole = false) : Obtains auth [] auth.token

/-- A login without a token. -/
inductive FailsLogin : Exchange → Failure → Prop where
  | unreachable {answeredAt : ℚ} {exception : PyStr} :
      FailsLogin (.login answeredAt (.unreachable exception)) (.unreachable exception)
  | refused {answeredAt : ℚ} {status : Nat} {auth : Option (PyStr × ℚ)} (hstatus : 400 ≤ status) :
      FailsLogin (.login answeredAt (.answered status auth)) (.loginRefused status)
  | noToken {answeredAt : ℚ} {status : Nat} (hstatus : status < 400) :
      FailsLogin (.login answeredAt (.answered status none)) .noClientToken

/-- The first token: the one that is there, or one of its own. -/
def First (auth : VaultAuth) (ahead : List Exchange) (token : PyStr) : Prop := ahead = [] ∨ Obtains auth ahead token

/-- What there is before a token is asked for, at first and after a refusal. -/
inductive Before (auth : VaultAuth) : Bool → List Exchange → Prop where
  | first : Before auth false []
  | refused {ahead : List Exchange} {token : PyStr} {since : ℚ} {status : Nat} {body : Option PyJson}
      (htoken : First auth ahead token) (hstatus : Refused status) :
      Before auth true (ahead ++ [.read token since (.answered status body)])

/-- How a token was come by: the second time never from what is there. -/
def Gets (auth : VaultAuth) (force : Bool) (exchanged : List Exchange) (token : PyStr) : Prop :=
  ∃ before more, Before auth force before ∧ exchanged = before ++ more ∧
    if force then Obtains auth more token else First auth more token

/-- **A conversation** of `resolve` with the vault, and what comes of it. -/
inductive Conversation (cfg : Config) (ref : PyStr) : List Exchange → Except Failure PyStr → Prop where
  | malformed {message : PyStr} (hparse : Sdk.parseVaultRef cfg.unicode ref = .error message) :
      Conversation cfg ref [] (.error (.malformed message))
  | noToken {parsed : VaultRef CodePoint} {force : Bool} {before : List Exchange} {login : Exchange} {failure : Failure}
      (hparse : Sdk.parseVaultRef cfg.unicode ref = .ok parsed) (hbefore : Before cfg.auth force before)
      (hlogin : FailsLogin login failure) : Conversation cfg ref (before ++ [login]) (.error failure)
  | read {parsed : VaultRef CodePoint} {force : Bool} {before : List Exchange} {token : PyStr} {since : ℚ} {reply : ReadReply}
      (hparse : Sdk.parseVaultRef cfg.unicode ref = .ok parsed) (htoken : Gets cfg.auth force before token)
      (hlast : force = true ∨ ∀ status body, reply = .answered status body → ¬ Refused status) :
      Conversation cfg ref (before ++ [.read token since reply]) (outcome cfg parsed reply)

/-- What the call at `i` has exchanged. -/
def exchanged (log : List (Nat × Exchange)) (i : Nat) : List Exchange :=
  (log.filter fun e => decide (e.1 = i)).map Prod.snd

/-- What a call has exchanged where it stands. -/
def Phase.Ok (cfg : Config) (ref : PyStr) (t : List Exchange) : Phase → Prop
  | .asks parsed force => Sdk.parseVaultRef cfg.unicode ref = .ok parsed ∧ Before cfg.auth force t
  | .logsIn parsed force =>
      Sdk.parseVaultRef cfg.unicode ref = .ok parsed ∧ Before cfg.auth force t ∧ cfg.auth.isApprole = true
  | .reads parsed force token _ => Sdk.parseVaultRef cfg.unicode ref = .ok parsed ∧ Gets cfg.auth force t token
  | .done result => Conversation cfg ref t result

/-- The calls in a state. -/
structure Conforms (cfg : Config) (s : State) : Prop where
  calls : ∀ i (call : Call), s.calls[i]? = some call → call.phase.Ok cfg call.ref (exchanged s.log i)
  log : ∀ e ∈ s.log, e.1 < s.calls.length

variable {cfg : Config} {s s' : State} {i j : Nat} {call : Call} {phase : Phase} {e : Exchange} {log : List (Nat × Exchange)}

theorem exchanged_append_self : exchanged (log ++ [(i, e)]) i = exchanged log i ++ [e] := by
  simp [exchanged]

theorem exchanged_append_other (h : j ≠ i) : exchanged (log ++ [(i, e)]) j = exchanged log j := by
  simp [exchanged, Ne.symm h]

/-- A step of one call, that exchanges what it says. -/
theorem Conforms.goOn (h : Conforms cfg s) (more : List Exchange) (hcall : s.calls[i]? = some call)
    (hcalls : s'.calls = s.calls.set i { call with phase := phase }) (hlog : s'.log = s.log ++ more.map (Prod.mk i))
    (hphase : phase.Ok cfg call.ref (exchanged s.log i ++ more)) : Conforms cfg s' := by
  obtain ⟨hi, -⟩ := List.getElem?_eq_some_iff.mp hcall
  constructor
  · intro j call' hcall'
    rw [hcalls] at hcall'
    rw [hlog]
    by_cases hj : j = i
    · obtain rfl := hj
      rw [List.getElem?_set_self hi] at hcall'
      obtain rfl := Option.some.inj hcall'
      have hmore : exchanged (s.log ++ more.map (Prod.mk j)) j = exchanged s.log j ++ more := by
        simp [exchanged, List.filter_map, Function.comp_def]
      rw [hmore]
      exact hphase
    · rw [List.getElem?_set_ne (Ne.symm hj)] at hcall'
      have hmore : exchanged (s.log ++ more.map (Prod.mk i)) j = exchanged s.log j := by
        simp [exchanged, List.filter_map, Function.comp_def, Ne.symm hj]
      rw [hmore]
      exact h.calls j call' hcall'
  · intro e he
    rw [hlog, List.mem_append] at he
    rw [hcalls, List.length_set]
    rcases he with hold | hnew
    · exact h.log e hold
    · obtain ⟨_, -, rfl⟩ := List.mem_map.mp hnew
      exact hi

theorem Gets.of_first {t : List Exchange} {token : PyStr} {force : Bool} {more : List Exchange} (h : Before cfg.auth force t)
    (hmore : if force then Obtains cfg.auth more token else First cfg.auth more token) :
    Gets cfg.auth force (t ++ more) token := ⟨t, more, h, rfl, hmore⟩

theorem obtains_or_first {force : Bool} {more : List Exchange} {token : PyStr} (h : Obtains cfg.auth more token) :
    if force then Obtains cfg.auth more token else First cfg.auth more token := by
  cases force with
  | true => exact h
  | false => exact .inr h

theorem Conforms.takeLock (h : Conforms cfg s) {parsed : VaultRef CodePoint} {force : Bool} (hcall : s.calls[i]? = some call)
    (hphase : call.phase = .asks parsed force) : Conforms cfg (s.takeLock cfg i call parsed force) := by
  have hasks := h.calls i call hcall
  rw [hphase] at hasks
  obtain ⟨hparse, hbefore⟩ := hasks
  unfold State.takeLock
  dsimp only
  split
  · rename_i c hc
    -- a token that is there is of no use the second time
    cases force with
    | true => cases hc
    | false => exact h.goOn [] hcall rfl (by simp [State.goOn]) ⟨hparse, .of_first hbefore (.inl rfl)⟩
  · split
    · rename_i happrole
      exact h.goOn [] hcall rfl (by simp [State.goOn]) ⟨hparse, by simpa using hbefore, happrole⟩
    · rename_i happrole
      exact h.goOn [] hcall rfl (by simp [State.goOn])
        ⟨hparse, .of_first hbefore (obtains_or_first (.static (Bool.eq_false_of_not_eq_true happrole)))⟩

theorem Conforms.loginAnswered (h : Conforms cfg s) {parsed : VaultRef CodePoint} {force : Bool} (hcall : s.calls[i]? = some call)
    (hphase : call.phase = .logsIn parsed force) (reply : LoginReply) :
    Conforms cfg (s.loginAnswered i call parsed force reply) := by
  have hlogsIn := h.calls i call hcall
  rw [hphase] at hlogsIn
  obtain ⟨hparse, hbefore, happrole⟩ := hlogsIn
  unfold State.loginAnswered
  dsimp only
  split
  · exact h.goOn [_] hcall rfl rfl (.noToken hparse hbefore .unreachable)
  · split
    · rename_i hstatus
      exact h.goOn [_] hcall rfl rfl (.noToken hparse hbefore (.refused hstatus))
    · rename_i hstatus
      split
      · exact h.goOn [_] hcall rfl rfl (.noToken hparse hbefore (.noToken (Nat.lt_of_not_le hstatus)))
      · exact h.goOn [_] hcall rfl rfl
          ⟨hparse, .of_first hbefore (obtains_or_first (.login happrole (Nat.lt_of_not_le hstatus)))⟩

theorem Conforms.readAnswered (h : Conforms cfg s) {parsed : VaultRef CodePoint} {force : Bool} {token : PyStr} {since : ℚ}
    (hcall : s.calls[i]? = some call) (hphase : call.phase = .reads parsed force token since) (reply : ReadReply) :
    Conforms cfg (s.readAnswered cfg i call parsed force token since reply) := by
  have hreads := h.calls i call hcall
  rw [hphase] at hreads
  obtain ⟨hparse, htoken⟩ := hreads
  unfold State.readAnswered
  dsimp only
  split
  · split
    · rename_i hstatus
      obtain ⟨before, more, hbefore, hexchanged, hfirst⟩ := htoken
      cases hbefore
      rw [List.nil_append] at hexchanged
      rw [← hexchanged] at hfirst
      exact h.goOn [_] hcall rfl rfl ⟨hparse, .refused hfirst hstatus⟩
    · rename_i hstatus
      refine h.goOn [_] hcall rfl rfl (.read hparse htoken (.inr fun status' body' heq => ?_))
      obtain ⟨rfl, -⟩ := ReadReply.answered.inj heq
      exact hstatus
  · rename_i hother
    refine h.goOn [_] hcall rfl rfl (.read hparse htoken ?_)
    cases force with
    | true => exact .inl rfl
    | false => exact .inr fun status body heq _ => hother status body rfl heq

theorem begin_ok (ref : PyStr) : (begin cfg ref).Ok cfg ref [] := by
  unfold begin
  split
  · rename_i message hparse
    exact .malformed hparse
  · rename_i parsed hparse
    exact ⟨hparse, .first⟩

/-- A call that has just begun has exchanged nothing. -/
theorem Conforms.resolve (h : Conforms cfg s) (ref : PyStr) :
    Conforms cfg { s with calls := s.calls ++ [⟨ref, begin cfg ref⟩] } := by
  constructor
  · intro i call hcall
    change (s.calls ++ [_])[i]? = some call at hcall
    rw [List.getElem?_append] at hcall
    split at hcall
    · exact h.calls i call hcall
    · rename_i hi
      obtain rfl : i = s.calls.length := by
        have := (List.getElem?_eq_some_iff.mp hcall).1
        rw [List.length_singleton] at this
        omega
      rw [Nat.sub_self] at hcall
      obtain rfl := Option.some.inj hcall
      have hnone : exchanged s.log s.calls.length = [] := by
        rw [exchanged, List.map_eq_nil_iff, List.filter_eq_nil_iff]
        intro e he
        exact fun heq => (h.log e he).ne (of_decide_eq_true heq)
      exact hnone ▸ begin_ok ref
  · intro e he
    exact (h.log e he).trans_le (by simp)

theorem Conforms.step {event : Event} (h : Conforms cfg s) (hstep : step? cfg s event = some s') : Conforms cfg s' := by
  cases event with
  | tick now =>
      rw [step?] at hstep
      split at hstep
      · cases hstep
      · exact Option.some.inj hstep ▸ ⟨h.calls, h.log⟩
  | resolve ref => exact Option.some.inj hstep ▸ h.resolve ref
  | takeLock i =>
      obtain ⟨call, hcall, hstep⟩ := Option.bind_eq_some_iff.mp hstep
      split at hstep
      · rename_i parsed force hphase _
        exact Option.some.inj hstep ▸ h.takeLock hcall hphase
      · cases hstep
  | loginAnswered i reply =>
      obtain ⟨call, hcall, hstep⟩ := Option.bind_eq_some_iff.mp hstep
      split at hstep
      · rename_i parsed force hphase
        exact Option.some.inj hstep ▸ h.loginAnswered hcall hphase reply
      · cases hstep
  | readAnswered i reply =>
      obtain ⟨call, hcall, hstep⟩ := Option.bind_eq_some_iff.mp hstep
      split at hstep
      · rename_i parsed force token since hphase
        exact Option.some.inj hstep ▸ h.readAnswered hcall hphase reply
      · cases hstep

theorem conforms_of_reachable {start : ℚ} (h : (machine cfg start).Reachable s) : Conforms cfg s :=
  Machine.Reachable.invariant_ofStep (I := Conforms cfg)
    ⟨fun _ _ hcall => absurd hcall (by simp [initial]), List.forall_mem_nil _⟩ (fun _ _ _ hstep hs => hs.step hstep) h

/-- A login that was answered with a token. -/
def Granted (log : List (Nat × Exchange)) (token : PyStr) (answeredAt lease : ℚ) : Prop :=
  ∃ i status, (i, Exchange.login answeredAt (.answered status (some (token, lease)))) ∈ log ∧ status < 400

/-- A token that may be used at a time: the one that is set, or one of a login, before its lease runs out. -/
def Handed (auth : VaultAuth) (log : List (Nat × Exchange)) (token : PyStr) (now : ℚ) : Prop :=
  auth.isApprole = false ∧ token = auth.token ∨
    ∃ answeredAt lease, Granted log token answeredAt lease ∧ answeredAt ≤ now ∧ now < answeredAt + usable lease

/-- What is kept of a login. -/
def Cached.Ok (auth : VaultAuth) (log : List (Nat × Exchange)) (now : ℚ) (c : Cached) : Prop :=
  match c.expiresAt with
  | none => auth.isApprole = false ∧ c.token = auth.token
  | some expiresAt => ∃ answeredAt lease, Granted log c.token answeredAt lease ∧ answeredAt ≤ now ∧
      expiresAt = answeredAt + usable lease

/-- Who logs in has the lock, and every token that is read with was handed out within its lease. -/
structure Leased (cfg : Config) (s : State) : Prop where
  lock : ∀ i (call : Call) parsed force, s.calls[i]? = some call → call.phase = .logsIn parsed force → s.holder = some i
  cached : ∀ c ∈ s.cached, c.Ok cfg.auth s.log s.now
  reading : ∀ call ∈ s.calls, ∀ parsed force token since, call.phase = .reads parsed force token since →
    Handed cfg.auth s.log token since
  reads : ∀ ahead i token since reply behind, s.log = ahead ++ (i, .read token since reply) :: behind →
    Handed cfg.auth ahead token since

theorem usable_pos (lease : ℚ) : 0 < usable lease := by
  rw [usable]
  split
  · exact one_pos
  · linarith

theorem Granted.mono {token : PyStr} {answeredAt lease : ℚ} (h : Granted log token answeredAt lease)
    (more : List (Nat × Exchange)) : Granted (log ++ more) token answeredAt lease := by
  obtain ⟨i, status, hmem, hstatus⟩ := h
  exact ⟨i, status, List.mem_append_left _ hmem, hstatus⟩

theorem Handed.mono {token : PyStr} {now : ℚ} (h : Handed cfg.auth log token now) (more : List (Nat × Exchange)) :
    Handed cfg.auth (log ++ more) token now := by
  rcases h with hstatic | ⟨answeredAt, lease, hgranted, hrest⟩
  · exact .inl hstatic
  · exact .inr ⟨answeredAt, lease, hgranted.mono more, hrest⟩

theorem Cached.Ok.mono {c : Cached} {now now' : ℚ} (h : c.Ok cfg.auth log now) (more : List (Nat × Exchange))
    (hnow : now ≤ now') : c.Ok cfg.auth (log ++ more) now' := by
  unfold Cached.Ok at h ⊢
  split
  · rename_i hexpires
    rw [hexpires] at h
    exact h
  · rename_i expiresAt hexpires
    rw [hexpires] at h
    obtain ⟨answeredAt, lease, hgranted, hle, heq⟩ := h
    exact ⟨answeredAt, lease, hgranted.mono more, hle.trans hnow, heq⟩

theorem Cached.Ok.handed {c : Cached} {now : ℚ} (h : c.Ok cfg.auth log now) (halive : c.alive now = true) :
    Handed cfg.auth log c.token now := by
  unfold Cached.Ok at h
  unfold Cached.alive at halive
  split at h
  · exact .inl h
  · rename_i expiresAt hexpires
    obtain ⟨answeredAt, lease, hgranted, hle, rfl⟩ := h
    rw [hexpires] at halive
    exact .inr ⟨answeredAt, lease, hgranted, hle, of_decide_eq_true halive⟩

/-- A step of one call, with at most one entry for the log. -/
theorem Leased.goOn (h : Leased cfg s) (phase : Phase) (hcalls : s'.calls = s.calls.set i { call with phase := phase })
    {more : List (Nat × Exchange)} (hlog : s'.log = s.log ++ more)
    (hlock : ∀ j (call : Call) parsed force, s'.calls[j]? = some call → call.phase = .logsIn parsed force →
      s'.holder = some j)
    (hcached : ∀ c ∈ s'.cached, c.Ok cfg.auth s'.log s'.now)
    (hreading : ∀ parsed force token since, phase = .reads parsed force token since → Handed cfg.auth s'.log token since)
    (hreads : ∀ ahead j token since reply behind, more = ahead ++ (j, .read token since reply) :: behind →
      Handed cfg.auth (s.log ++ ahead) token since) : Leased cfg s' := by
  refine ⟨hlock, hcached, fun call' hcall' parsed force token since hphase => ?_,
    fun ahead j token since reply behind heq => ?_⟩
  · rw [hcalls] at hcall'
    rcases List.mem_or_eq_of_mem_set hcall' with hmem | rfl
    · rw [hlog]
      exact (h.reading call' hmem parsed force token since hphase).mono more
    · exact hreading parsed force token since hphase
  · rw [hlog] at heq
    rcases List.append_eq_append_iff.mp heq with ⟨mid, rfl, hmore⟩ | ⟨mid, hold, hmid⟩
    · exact hreads mid j token since reply behind hmore
    · cases mid with
      | nil =>
          rw [List.append_nil] at hold
          rw [← hold, ← List.append_nil s.log]
          exact hreads [] j token since reply behind hmid.symm
      | cons e mid =>
          obtain ⟨rfl, rfl⟩ := List.cons.inj hmid
          exact h.reads ahead j token since reply mid hold

/-- While nobody logs in, or the one who did is done with it. -/
theorem lock_set (holder : Option Nat) (hcalls : s'.calls = s.calls.set i { call with phase := phase })
    (hothers : ∀ j (call : Call) parsed force, j ≠ i → s.calls[j]? = some call → call.phase = .logsIn parsed force →
      holder = some j)
    (hself : ∀ parsed force, phase = .logsIn parsed force → holder = some i) :
    ∀ j (call : Call) parsed force, s'.calls[j]? = some call → call.phase = .logsIn parsed force → holder = some j := by
  intro j call' parsed force hcall' hphase
  rw [hcalls] at hcall'
  by_cases hj : j = i
  · obtain rfl := hj
    obtain ⟨hlt, -⟩ := List.getElem?_eq_some_iff.mp hcall'
    rw [List.length_set] at hlt
    rw [List.getElem?_set_self hlt] at hcall'
    obtain rfl := Option.some.inj hcall'
    exact hself parsed force hphase
  · rw [List.getElem?_set_ne (Ne.symm hj)] at hcall'
    exact hothers j call' parsed force hj hcall' hphase

theorem no_entry {ahead behind : List (Nat × Exchange)} {e : Nat × Exchange} : [] ≠ ahead ++ e :: behind := by
  simp

theorem Leased.takeLock (h : Leased cfg s) {parsed : VaultRef CodePoint} {force : Bool} (hfree : s.holder = none) :
    Leased cfg (s.takeLock cfg i call parsed force) := by
  have hnobody : ∀ (j : Nat) (call : Call) parsed force, s.calls[j]? = some call → call.phase ≠ .logsIn parsed force := by
    intro j call parsed force hcall hphase
    rw [h.lock j call parsed force hcall hphase] at hfree
    cases hfree
  have hlog : s.log = s.log ++ [] := (List.append_nil _).symm
  unfold State.takeLock
  dsimp only
  split
  · rename_i c hc
    obtain ⟨hc, halive⟩ := Option.filter_eq_some_iff.mp hc
    have hcached : c ∈ s.cached := by
      cases force with
      | true => cases hc
      | false => exact hc
    refine h.goOn _ rfl hlog (lock_set s.holder rfl ?_ ?_) h.cached ?_ fun _ _ _ _ _ _ heq => absurd heq no_entry
    · exact fun j call parsed force _ hcall hphase => absurd hphase (hnobody j call parsed force hcall)
    · exact fun _ _ heq => by cases heq
    · intro parsed force token since heq
      cases heq
      exact (h.cached c hcached).handed halive
  · have hcached : ∀ c ∈ (if force then none else s.cached), c.Ok cfg.auth s.log s.now := by
      cases force with
      | true => exact fun c hc => absurd hc (Option.not_mem_none c)
      | false => exact h.cached
    split
    · refine h.goOn (.logsIn parsed force) rfl hlog (lock_set (some i) rfl ?_ fun _ _ _ => rfl) hcached ?_
        fun _ _ _ _ _ _ heq => absurd heq no_entry
      · exact fun j call parsed force _ hcall hphase => absurd hphase (hnobody j call parsed force hcall)
      · exact fun _ _ _ _ heq => by cases heq
    · rename_i happrole
      have hstatic : cfg.auth.isApprole = false := Bool.eq_false_of_not_eq_true happrole
      refine h.goOn (.reads parsed force cfg.auth.token s.now) rfl hlog
        (lock_set s.holder rfl ?_ fun _ _ heq => by cases heq) ?_ ?_ fun _ _ _ _ _ _ heq => absurd heq no_entry
      · exact fun j call parsed force _ hcall hphase => absurd hphase (hnobody j call parsed force hcall)
      · intro c hc
        obtain rfl := Option.some.inj hc
        exact ⟨hstatic, rfl⟩
      · intro parsed force token since heq
        cases heq
        exact .inl ⟨hstatic, rfl⟩

theorem Leased.loginAnswered (h : Leased cfg s) {parsed : VaultRef CodePoint} {force : Bool} (hcall : s.calls[i]? = some call)
    (hphase : call.phase = .logsIn parsed force) (reply : LoginReply) :
    Leased cfg (s.loginAnswered i call parsed force reply) := by
  have hothers : ∀ (j : Nat) (call : Call) parsed force, j ≠ i → s.calls[j]? = some call →
      call.phase = .logsIn parsed force → none = some j := by
    intro j call' parsed' force' hj hcall' hphase'
    have hholder := h.lock i call parsed force hcall hphase
    rw [h.lock j call' parsed' force' hcall' hphase'] at hholder
    exact absurd (Option.some.inj hholder) hj
  have hold : ∀ c ∈ s.cached, c.Ok cfg.auth (s.log ++ [(i, .login s.now reply)]) s.now :=
    fun c hc => (h.cached c hc).mono _ le_rfl
  have hlogin : ∀ ahead j token since reply' behind, [(i, Exchange.login s.now reply)] =
      ahead ++ (j, .read token since reply') :: behind → Handed cfg.auth (s.log ++ ahead) token since := by
    intro ahead j token since reply' behind heq
    have hmem : (j, Exchange.read token since reply') ∈ [(i, Exchange.login s.now reply)] := by
      rw [heq]
      exact List.mem_append_right _ List.mem_cons_self
    cases List.mem_singleton.mp hmem
  have hfails : ∀ failure, Leased cfg
      ({ s with holder := none, log := s.log ++ [(i, Exchange.login s.now reply)] }.goOn i call (.done (.error failure))) := by
    intro failure
    exact h.goOn _ rfl rfl (lock_set none rfl hothers fun _ _ heq => by cases heq) hold
      (fun _ _ _ _ heq => by cases heq) hlogin
  unfold State.loginAnswered
  dsimp only
  split
  · exact hfails _
  · split
    · exact hfails _
    · rename_i hstatus
      split
      · exact hfails _
      · rename_i token lease
        have hgranted : Granted (s.log ++ [(i, Exchange.login s.now (.answered _ (some (token, lease))))]) token s.now lease :=
          ⟨i, _, List.mem_append_right _ List.mem_cons_self, Nat.lt_of_not_le hstatus⟩
        refine h.goOn _ rfl rfl (lock_set none rfl hothers fun _ _ heq => by cases heq) ?_ ?_ hlogin
        · intro c hc
          obtain rfl := Option.some.inj hc
          exact ⟨s.now, lease, hgranted, le_rfl, rfl⟩
        · intro parsed force token' since heq
          cases heq
          exact .inr ⟨s.now, lease, hgranted, le_rfl, lt_add_of_pos_right _ (usable_pos lease)⟩

theorem Leased.readAnswered (h : Leased cfg s) {parsed : VaultRef CodePoint} {force : Bool} {token : PyStr} {since : ℚ}
    (hcall : s.calls[i]? = some call) (hphase : call.phase = .reads parsed force token since) (reply : ReadReply) :
    Leased cfg (s.readAnswered cfg i call parsed force token since reply) := by
  have hhanded := h.reading call (List.mem_of_getElem? hcall) parsed force token since hphase
  have hgoOn : ∀ phase : Phase, (∀ parsed force, phase ≠ .logsIn parsed force) →
      (∀ parsed force token since, phase ≠ .reads parsed force token since) →
      Leased cfg ({ s with log := s.log ++ [(i, Exchange.read token since reply)] }.goOn i call phase) := by
    intro phase hlogsIn hreads
    refine h.goOn _ rfl rfl (lock_set s.holder rfl ?_ fun _ _ heq => absurd heq (hlogsIn _ _))
      (fun c hc => (h.cached c hc).mono _ le_rfl) (fun _ _ _ _ heq => absurd heq (hreads _ _ _ _)) ?_
    · exact fun j call' parsed' force' _ hcall' hphase' => h.lock j call' parsed' force' hcall' hphase'
    · intro ahead j token' since' reply' behind heq
      cases ahead with
      | nil =>
          cases heq
          rw [List.append_nil]
          exact hhanded
      | cons e ahead => exact absurd (List.cons.inj heq).2 no_entry
  unfold State.readAnswered
  dsimp only
  split
  · split
    · exact hgoOn _ (fun _ _ heq => by cases heq) fun _ _ _ _ heq => by cases heq
    · exact hgoOn _ (fun _ _ heq => by cases heq) fun _ _ _ _ heq => by cases heq
  · exact hgoOn _ (fun _ _ heq => by cases heq) fun _ _ _ _ heq => by cases heq

theorem begin_waits (cfg : Config) (ref : PyStr) : (∀ parsed force, begin cfg ref ≠ .logsIn parsed force) ∧
    ∀ parsed force token since, begin cfg ref ≠ .reads parsed force token since := by
  unfold begin
  split
  all_goals exact ⟨fun _ _ => by simp, fun _ _ _ _ => by simp⟩

theorem Leased.resolve (h : Leased cfg s) (ref : PyStr) :
    Leased cfg { s with calls := s.calls ++ [⟨ref, begin cfg ref⟩] } := by
  obtain ⟨hlogsIn, hreads⟩ := begin_waits cfg ref
  refine ⟨fun j call parsed force hcall hphase => ?_, h.cached, fun call hcall parsed force token since hphase => ?_, h.reads⟩
  · change (s.calls ++ [_])[j]? = some call at hcall
    rw [List.getElem?_append] at hcall
    split at hcall
    · exact h.lock j call parsed force hcall hphase
    · obtain rfl := List.mem_singleton.mp (List.mem_of_getElem? hcall)
      exact absurd hphase (hlogsIn parsed force)
  · rcases List.mem_append.mp hcall with hold | hnew
    · exact h.reading call hold parsed force token since hphase
    · obtain rfl := List.mem_singleton.mp hnew
      exact absurd hphase (hreads parsed force token since)

theorem Leased.step {event : Event} (h : Leased cfg s) (hstep : step? cfg s event = some s') : Leased cfg s' := by
  cases event with
  | tick now =>
      rw [step?] at hstep
      split at hstep
      · cases hstep
      · rename_i hnow
        obtain rfl := Option.some.inj hstep
        refine ⟨h.lock, fun c hc => ?_, h.reading, h.reads⟩
        have hmono := (h.cached c hc).mono [] (not_lt.mp hnow)
        rwa [List.append_nil] at hmono
  | resolve ref => exact Option.some.inj hstep ▸ h.resolve ref
  | takeLock i =>
      obtain ⟨call, hcall, hstep⟩ := Option.bind_eq_some_iff.mp hstep
      split at hstep
      · rename_i parsed force _ hfree
        exact Option.some.inj hstep ▸ h.takeLock hfree
      · cases hstep
  | loginAnswered i reply =>
      obtain ⟨call, hcall, hstep⟩ := Option.bind_eq_some_iff.mp hstep
      split at hstep
      · rename_i parsed force hphase
        exact Option.some.inj hstep ▸ h.loginAnswered hcall hphase reply
      · cases hstep
  | readAnswered i reply =>
      obtain ⟨call, hcall, hstep⟩ := Option.bind_eq_some_iff.mp hstep
      split at hstep
      · rename_i parsed force token since hphase
        exact Option.some.inj hstep ▸ h.readAnswered hcall hphase reply
      · cases hstep

theorem leased_of_reachable {start : ℚ} (h : (machine cfg start).Reachable s) : Leased cfg s :=
  Machine.Reachable.invariant_ofStep (I := Leased cfg)
    ⟨fun _ _ _ _ hcall => absurd hcall (by simp [initial]), fun c hc => absurd hc (Option.not_mem_none c),
      List.forall_mem_nil _, fun _ _ _ _ _ _ heq => absurd heq no_entry⟩
    (fun _ _ _ hstep hs => hs.step hstep) h

/-- **No token outlives its lease, and one thread logs in at a time.** What is read with is the token that is set, or one that a
login ahead of the read was answered with, handed out while it was usable. -/
theorem tokens_within_lease (start : ℚ) (s : State) (h : (machine cfg start).Reachable s) :
    (∀ ahead i token since reply behind, s.log = ahead ++ (i, .read token since reply) :: behind →
      Handed cfg.auth ahead token since) ∧
    ∀ (i j : Nat) (a b : Call) parsed parsed' force force', s.calls[i]? = some a → s.calls[j]? = some b →
      a.phase = .logsIn parsed force → b.phase = .logsIn parsed' force' → i = j := by
  have hleased := leased_of_reachable h
  refine ⟨hleased.reads, fun i j a b parsed parsed' force force' ha hb hlogsIn hlogsIn' => ?_⟩
  have hi := hleased.lock i a parsed force ha hlogsIn
  rw [hleased.lock j b parsed' force' hb hlogsIn'] at hi
  exact (Option.some.inj hi).symm

/-! ### A rotation -/

def runner : Config := ⟨py "https://vault", ⟨py "role", py "secret", []⟩, asciiOnly⟩

def secretBody (value : String) : PyJson := .obj [(py "data", .obj [(py "data", .obj [(py "dsn", .str (py value))])])]

/-- Two calls; the second one has the token of the first, which is revoked by then, and the secret another value. -/
def rotation : List Event :=
  [.resolve (py "vault://kv/app#dsn"), .takeLock 0, .loginAnswered 0 (.answered 200 (some (py "t1", 3600))),
    .readAnswered 0 (.answered 200 (some (secretBody "old"))), .resolve (py "vault://kv/app#dsn"), .takeLock 1,
    .readAnswered 1 (.answered 403 none), .takeLock 1, .loginAnswered 1 (.answered 200 (some (py "t2", 3600))),
    .readAnswered 1 (.answered 200 (some (secretBody "new")))]

def rotated : State := (machine runner 0).run rotation

theorem tokens_within_lease_rotated :
    (∀ ahead i token since reply behind, rotated.log = ahead ++ (i, .read token since reply) :: behind →
      Handed runner.auth ahead token since) ∧
    ∀ (i j : Nat) (a b : Call) parsed parsed' force force', rotated.calls[i]? = some a →
      rotated.calls[j]? = some b → a.phase = .logsIn parsed force → b.phase = .logsIn parsed' force' →
        i = j :=
  tokens_within_lease 0 rotated (Machine.reachable_run _ rotation)

end ContextLayer.Vault
