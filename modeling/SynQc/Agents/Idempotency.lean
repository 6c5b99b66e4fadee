import SynQc.Agents.Finality

/-! Idempotency keys.

`create_job` reads the key and later writes it, so two calls that both miss both create a
job. Under the rule `oneMiss` no call misses while another with its key has missed and not
yet written; then at most one call of a key claims it (`Keyed.alone`), and the others are
given its job. The rule says two things more of the sandbox route: a first run there that
is waited for pushes nothing, and a handler that raises returns nothing. And it says where a
call raises: a job whose input has no UTF-8 form is not written, and none is pushed at a key
that holds a sorted set. -/
namespace SynQc.Agents

/-- A `GET` that misses comes when no other call is between its own and its pipeline; and of calls
with a key, first sandbox runs are not waited for, `record_event` does not raise in their handler,
what they are given can be dumped and encoded, and what they push goes to no sorted set. -/
def oneMiss : Event → State → Prop
  | .lookup c, s => ∀ key, (s.call c).request.key = some key →
    s.redis.keys.get? ((s.call c).request.agent, key) = none → ∀ c', (s.call c').request.key = some key →
      (s.call c').request.agent = (s.call c).request.agent → (s.call c').phase ≠ .creating
  | .mark c, s => (s.call c).request.key ≠ none → ∀ t, (s.call c).phase = .routed t →
    t.reused = true ∨ (s.call c).request.wait = false
  | .record c raised, s => (s.call c).request.key ≠ none → ∀ t t0, (s.call c).phase = .recording t t0 false →
    raised = none
  | .submit _ request, _ => request.key ≠ none → request.runInput ≠ none
  | .create c _, s => (s.call c).request.key ≠ none → (s.call c).request.runInput.bind PyStr.encode ≠ none
  | .push c, s => (s.call c).request.key ≠ none → ∀ t, (s.call c).phase = .queueing t → t.reused = false →
    (s.redis.kept (queueKey (s.call c).request.queueName)).isZset = false
  | _, _ => True

namespace CallPhase

/-- What `create_job` has returned to a call. -/
def ticket? : CallPhase → Option Ticket
  | .routed t | .posting t _ | .writing t _ _ _ | .recording t _ _ | .rereading t | .queueing t | .polling t _
  | .returned t _ => some t
  | .absent | .lookup | .creating | .refused _ | .raised _ => none

/-- The job a call has created and may still push. -/
def owing? : CallPhase → Option JobId
  | .routed t | .posting t _ | .writing t _ _ _ | .recording t _ _ | .queueing t => if t.reused then none else some t.id
  | _ => none

/-- The call creates its job, or has. -/
def Claims (phase : CallPhase) : Prop := phase = .creating ∨ ∃ id, phase.ticket? = some ⟨id, false⟩

end CallPhase

/-- The calls for an agent with a key. -/
def State.Asks (s : State) (agent key : String) (c : Nat) : Prop :=
  (s.call c).request.agent = agent ∧ (s.call c).request.key = some key

def State.owing (s : State) (id : JobId) : Nat := s.calls.weigh fun call => has id call.phase.owing?

/-- What is known of a call with a key by its phase. -/
def Progress (cfg : Config) (pushed : List JobId) (call : Call) : Prop :=
  match call.phase with
  | .posting t _ | .writing t _ _ _ | .recording t _ _ => t.reused = true ∨ call.request.wait = false
  | .rereading t => t.reused = true
  | .polling t _ | .returned t _ => t.reused = true ∨ t.id ∈ pushed
  | .raised _ => call.request.agent ∉ cfg.agents
  | .refused _ => False
  | _ => True

structure CallKeyed (cfg : Config) (keys : Dict (String × String) JobId) (pushed : List JobId) (call : Call)
    (key : String) : Prop where
  found : ∀ t, call.phase.ticket? = some t → keys.get? (call.request.agent, key) = some t.id
  missing : call.phase = .creating → keys.get? (call.request.agent, key) = none
  progress : Progress cfg pushed call

structure Keyed (cfg : Config) (s : State) : Prop where
  call : ∀ c key, (s.call c).request.key = some key → CallKeyed cfg s.redis.keys s.pushed (s.call c) key
  alone : ∀ agent key c c', s.Asks agent key c → s.Asks agent key c' → (s.call c).phase.Claims →
    (s.call c').phase.Claims → c = c'
  owner : ∀ agent key id, s.redis.keys.get? (agent, key) = some id →
    ∃ c, s.Asks agent key c ∧ (s.call c).phase.ticket? = some ⟨id, false⟩
  once : s.created.Nodup
  known : ∀ id ∈ s.created, ∃ hash, s.redis.jobs.get? id = some hash
  owed : ∀ id, s.owing id + s.pushed.count id ≤ s.created.count id

section Steps
variable {cfg : Config} {s u : State} {e : Event} {c : Nat}

theorem call_set {call : Call} (hcalls : u.calls = s.calls.set c call) (c' : Nat) :
    u.call c' = if c = c' then call else s.call c' := by
  rw [State.call, hcalls, Roster.phase_set]
  rfl

theorem Progress.grow {pushed pushed' : List JobId} {call : Call} (h : Progress cfg pushed call)
    (hpushed : ∀ id ∈ pushed, id ∈ pushed') : Progress cfg pushed' call := by
  obtain ⟨request, phase⟩ := call
  cases phase with
  | polling t deadline => exact h.imp_right (hpushed t.id)
  | returned t status => exact h.imp_right (hpushed t.id)
  | _ => exact h

theorem CallKeyed.grow {keys : Dict (String × String) JobId} {pushed pushed' : List JobId} {call : Call} {key : String}
    (h : CallKeyed cfg keys pushed call key) (hpushed : ∀ id ∈ pushed, id ∈ pushed') :
    CallKeyed cfg keys pushed' call key := ⟨h.found, h.missing, h.progress.grow hpushed⟩

/-- A step of no call. -/
theorem Keyed.still (h : Keyed cfg s) (hcalls : u.calls = s.calls) (hkeys : u.redis.keys = s.redis.keys)
    (hcreated : u.created = s.created) (hpushed : u.pushed = s.pushed)
    (hknown : ∀ id, (∃ h, u.redis.jobs.get? id = some h) ↔ ∃ h, s.redis.jobs.get? id = some h) : Keyed cfg u := by
  have hcall : ∀ c, u.call c = s.call c := fun c => by rw [State.call, hcalls]; rfl
  refine ⟨fun c key hkey => ?_, fun agent key c c' h₁ h₂ hclaim₁ hclaim₂ => ?_, fun agent key id hget => ?_,
    hcreated ▸ h.once, fun id hmem => (hknown id).mpr (h.known id (hcreated ▸ hmem)), fun id => ?_⟩
  · rw [hcall] at hkey ⊢
    rw [hkeys, hpushed]
    exact h.call c key hkey
  · rw [State.Asks, hcall] at h₁ h₂
    rw [hcall] at hclaim₁ hclaim₂
    exact h.alone agent key c c' h₁ h₂ hclaim₁ hclaim₂
  · rw [hkeys] at hget
    obtain ⟨c, hasks, hticket⟩ := h.owner agent key id hget
    exact ⟨c, by rwa [State.Asks, hcall], by rwa [hcall]⟩
  · rw [State.owing, hcalls, hpushed, hcreated]
    exact h.owed id

/-- A step of one call that claims no job. -/
theorem Keyed.move (h : Keyed cfg s) {call : Call} (hcalls : u.calls = s.calls.set c call)
    (hkeys : u.redis.keys = s.redis.keys) (hcreated : u.created = s.created)
    (hknown : ∀ id, (∃ h, u.redis.jobs.get? id = some h) ↔ ∃ h, s.redis.jobs.get? id = some h)
    (hpushed : ∀ id ∈ s.pushed, id ∈ u.pushed) (hnew : call.phase ≠ .creating)
    (hfound : ∀ key t, call.request.key = some key → call.phase.ticket? = some t →
      s.redis.keys.get? (call.request.agent, key) = some t.id)
    (hkeep : (s.call c).request.key ≠ none → ∀ id, (s.call c).phase.ticket? = some ⟨id, false⟩ →
      call.phase.ticket? = some ⟨id, false⟩)
    (hclaim : ∀ id, call.phase.ticket? = some ⟨id, false⟩ →
      (s.call c).phase.ticket? = some ⟨id, false⟩ ∧ call.request = (s.call c).request)
    (hprogress : call.request.key ≠ none → Progress cfg u.pushed call)
    (howed : ∀ id, has id call.phase.owing? + u.pushed.count id ≤ has id (s.call c).phase.owing? + s.pushed.count id) :
    Keyed cfg u := by
  have hcall := call_set hcalls
  have hclaims : ∀ {agent key : String} {c' : Nat}, u.Asks agent key c' → (u.call c').phase.Claims →
      s.Asks agent key c' ∧ (s.call c').phase.Claims := by
    intro agent key c' hasks hclaims
    rw [State.Asks, hcall] at hasks
    rw [hcall] at hclaims
    split at hclaims
    · rename_i hc
      subst hc
      rw [if_pos rfl] at hasks
      rcases hclaims with hcreating | ⟨id, hid⟩
      · exact absurd hcreating hnew
      · obtain ⟨hold, hrequest⟩ := hclaim id hid
        rw [hrequest] at hasks
        exact ⟨hasks, .inr ⟨id, hold⟩⟩
    · rename_i hc
      rw [if_neg hc] at hasks
      exact ⟨hasks, hclaims⟩
  refine ⟨fun c' key hkey => ?_, fun agent key c₁ c₂ h₁ h₂ hclaim₁ hclaim₂ => ?_, fun agent key id hget => ?_,
    hcreated ▸ h.once, fun id hmem => (hknown id).mpr (h.known id (hcreated ▸ hmem)), fun id => ?_⟩
  · rw [hcall] at hkey ⊢
    rw [hkeys]
    split
    · rename_i hc
      rw [if_pos hc] at hkey
      exact ⟨fun t => hfound key t hkey, fun hcreating => absurd hcreating hnew,
        hprogress (by rw [hkey]; exact Option.some_ne_none _)⟩
    · rename_i hc
      rw [if_neg hc] at hkey
      exact (h.call c' key hkey).grow hpushed
  · obtain ⟨hasks₁, hold₁⟩ := hclaims h₁ hclaim₁
    obtain ⟨hasks₂, hold₂⟩ := hclaims h₂ hclaim₂
    exact h.alone agent key c₁ c₂ hasks₁ hasks₂ hold₁ hold₂
  · rw [hkeys] at hget
    obtain ⟨c', hasks, hticket⟩ := h.owner agent key id hget
    refine ⟨c', ?_⟩
    rw [State.Asks, hcall]
    split
    · rename_i hc
      subst hc
      have hkept := hkeep (by rw [hasks.2]; exact Option.some_ne_none _) id hticket
      rw [(hclaim id hkept).2]
      exact ⟨hasks, hkept⟩
    · exact ⟨hasks, hticket⟩
  · have hset := Roster.weigh_set s.calls c call (f := fun call => has id call.phase.owing?) rfl
    have hbefore := h.owed id
    have hmove := howed id
    rw [hcreated]
    simp only [State.owing, State.call, hcalls] at hbefore hmove hset ⊢
    omega

/-- A step of one call that keeps its ticket. -/
theorem Keyed.advance (h : Keyed cfg s) {phase : CallPhase} (hcalls : u.calls = s.calls.set c ⟨(s.call c).request, phase⟩)
    (hkeys : u.redis.keys = s.redis.keys) (hcreated : u.created = s.created)
    (hknown : ∀ id, (∃ h, u.redis.jobs.get? id = some h) ↔ ∃ h, s.redis.jobs.get? id = some h)
    (hpushed : ∀ id ∈ s.pushed, id ∈ u.pushed) {t : Ticket} (hold : (s.call c).phase.ticket? = some t)
    (hticket : phase.ticket? = some t)
    (hprogress : (s.call c).request.key ≠ none → Progress cfg u.pushed ⟨(s.call c).request, phase⟩)
    (howed : ∀ id, has id phase.owing? + u.pushed.count id ≤ has id (s.call c).phase.owing? + s.pushed.count id) :
    Keyed cfg u := by
  refine h.move hcalls hkeys hcreated hknown hpushed ?_ (fun key t' hkey ht' => ?_) (fun _ id hid => ?_)
    (fun id hid => ?_) hprogress howed
  · intro hcreating
    rw [show phase = .creating from hcreating] at hticket
    cases hticket
  · cases hticket.symm.trans ht'
    exact (h.call c key hkey).found t hold
  · cases hold.symm.trans hid
    exact hticket
  · cases hticket.symm.trans hid
    exact ⟨hold, rfl⟩

/-- A call without a key ends in an error. With one the rule has no such step. -/
theorem Keyed.fail (h : Keyed cfg s) {phase : CallPhase} (hkey : (s.call c).request.key = none)
    (hticket : phase.ticket? = none) (howing : phase.owing? = none) (hnew : phase ≠ .creating) :
    Keyed cfg (s.setCall c phase) := by
  refine h.move (show (s.setCall c phase).calls = s.calls.set c ⟨(s.call c).request, phase⟩ from rfl) rfl rfl
    (fun _ => Iff.rfl) (fun _ => id) hnew (fun key t _ ht => ?_) (fun hsome => absurd hkey hsome) (fun id hid => ?_)
    (fun hsome => absurd hkey hsome) fun id => ?_
  · cases hticket.symm.trans ht
  · cases hticket.symm.trans hid
  · rw [howing]
    exact Nat.add_le_add (Nat.zero_le _) le_rfl

/-- A call goes on asking for what it asked for. -/
theorem asks_set {phase : CallPhase} (hcalls : u.calls = s.calls.set c ⟨(s.call c).request, phase⟩) {agent key : String}
    {c' : Nat} : u.Asks agent key c' ↔ s.Asks agent key c' := by
  rw [State.Asks, State.Asks, call_set hcalls]
  split
  · rename_i hc
    rw [hc]
  · rfl

/-- A `GET` that misses. -/
theorem Keyed.miss (h : Keyed cfg s) (hrule : oneMiss (.lookup c) s) (hphase : (s.call c).phase = .lookup)
    (hmiss : ∀ key, (s.call c).request.key = some key →
      s.redis.keys.get? ((s.call c).request.agent, key) = none) : Keyed cfg (s.setCall c .creating) := by
  have hcall := call_set (s := s) (u := s.setCall c .creating) (c := c) rfl
  have hasks : ∀ {agent key : String} {c' : Nat}, (s.setCall c .creating).Asks agent key c' ↔ s.Asks agent key c' :=
    asks_set rfl
  -- Whoever else has a claim to the key was creating, or has written it.
  have hother : ∀ {agent key : String} {c' : Nat}, c ≠ c' → s.Asks agent key c → s.Asks agent key c' →
      (s.call c').phase.Claims → False := by
    intro agent key c' hne hmine hhis hclaims
    have hnone := hmiss key hmine.2
    rcases hclaims with hcreating | ⟨id, hid⟩
    · exact hrule key hmine.2 hnone c' hhis.2 (hhis.1.trans hmine.1.symm) hcreating
    · have hsome := (h.call c' key hhis.2).found _ hid
      rw [hhis.1, ← hmine.1, hnone] at hsome
      cases hsome
  refine ⟨fun c' key hkey => ?_, fun agent key c₁ c₂ h₁ h₂ hclaim₁ hclaim₂ => ?_, fun agent key id hget => ?_,
    h.once, h.known, fun id => ?_⟩
  · rw [hcall] at hkey ⊢
    split
    · rename_i hc
      rw [if_pos hc] at hkey
      refine ⟨fun t ht => ?_, fun _ => hmiss key hkey, trivial⟩
      cases ht
    · rename_i hc
      rw [if_neg hc] at hkey
      exact h.call c' key hkey
  · rw [hasks] at h₁ h₂
    rw [hcall] at hclaim₁ hclaim₂
    by_cases hc₁ : c = c₁
    · by_cases hc₂ : c = c₂
      · exact hc₁.symm.trans hc₂
      · rw [if_neg hc₂] at hclaim₂
        exact (hother hc₂ (hc₁ ▸ h₁) h₂ hclaim₂).elim
    · rw [if_neg hc₁] at hclaim₁
      by_cases hc₂ : c = c₂
      · exact (hother hc₁ (hc₂ ▸ h₂) h₁ hclaim₁).elim
      · rw [if_neg hc₂] at hclaim₂
        exact h.alone agent key c₁ c₂ h₁ h₂ hclaim₁ hclaim₂
  · obtain ⟨c', hown, hticket⟩ := h.owner agent key id hget
    refine ⟨c', hasks.mpr hown, ?_⟩
    rw [hcall, if_neg]
    · exact hticket
    · intro hc
      subst hc
      rw [hphase] at hticket
      cases hticket
  · have hset := Roster.weigh_set s.calls c ⟨(s.call c).request, .creating⟩ (f := fun call => has id call.phase.owing?) rfl
    have hbefore := h.owed id
    have hempty : has id (s.call c).phase.owing? = 0 := by rw [hphase]; rfl
    have hnone : has id CallPhase.creating.owing? = 0 := rfl
    simp only [State.owing, State.call, State.setCall] at hbefore hempty hset ⊢
    omega

theorem keys_createJob (id : JobId) (agent runInput : String) (key : Option String) (maxAttempts : Int) (now : Time)
    (r : Redis) (agent' key' : String) :
    (r.createJob id agent runInput key maxAttempts now).keys.get? (agent', key') =
      if agent = agent' ∧ key = some key' then some id else r.keys.get? (agent', key') := by
  cases key with
  | none => simp [Redis.createJob]
  | some key =>
    simp only [Redis.createJob, Dict.get?_set, Prod.mk.injEq, Option.some.injEq]

theorem ticket_afterCreate (request : Request) (t : Ticket) : (State.afterCreate cfg request t).ticket? = some t := by
  rw [State.afterCreate]
  split <;> rfl

theorem owing_afterCreate (request : Request) (t : Ticket) :
    (State.afterCreate cfg request t).owing? = if t.reused then none else some t.id := by
  rw [State.afterCreate]
  split <;> rfl

theorem progress_afterCreate (pushed : List JobId) (request : Request) (t : Ticket) :
    Progress cfg pushed ⟨request, State.afterCreate cfg request t⟩ := by
  rw [State.afterCreate]
  split <;> trivial

/-- The pipeline: the call that claims the key writes it. -/
theorem Keyed.create (h : Keyed cfg s) {id : JobId} {runInput : String} (hphase : (s.call c).phase = .creating)
    (hnone : s.redis.jobs.get? id = none)
    (hu : u = {s with
      redis := s.redis.createJob id (s.call c).request.agent runInput (s.call c).request.key
        (s.call c).request.maxAttempts s.now
      created := id :: s.created}.setCall c (State.afterCreate cfg (s.call c).request ⟨id, false⟩)) : Keyed cfg u := by
  have hcall : ∀ c', u.call c' =
      if c = c' then ⟨(s.call c).request, State.afterCreate cfg (s.call c).request ⟨id, false⟩⟩ else s.call c' :=
    call_set (by rw [hu]; rfl)
  have hasks : ∀ {agent key : String} {c' : Nat}, u.Asks agent key c' ↔ s.Asks agent key c' :=
    asks_set (by rw [hu]; rfl)
  have hkeys : ∀ agent' key', u.redis.keys.get? (agent', key') =
      if (s.call c).request.agent = agent' ∧ (s.call c).request.key = some key' then some id
      else s.redis.keys.get? (agent', key') := by
    intro agent' key'
    rw [hu]
    exact keys_createJob _ _ _ _ _ _ _ _ _
  have hclaims : ∀ {c' : Nat}, (u.call c').phase.Claims → (s.call c').phase.Claims := by
    intro c' hclaim
    rw [hcall] at hclaim
    split at hclaim
    · rename_i hc
      exact .inl (hc ▸ hphase)
    · exact hclaim
  refine ⟨fun c' key hkey => ?_, fun agent key c₁ c₂ h₁ h₂ hclaim₁ hclaim₂ => ?_, fun agent key id' hget => ?_, ?_,
    fun id' hmem => ?_, fun id' => ?_⟩
  · rw [hcall] at hkey ⊢
    split
    · rename_i hc
      rw [if_pos hc] at hkey
      refine ⟨fun t ht => ?_, fun hcreating => ?_, progress_afterCreate _ _ _⟩
      · rw [ticket_afterCreate] at ht
        cases ht
        rw [hkeys, if_pos ⟨rfl, hkey⟩]
      · have hticket : (State.afterCreate cfg (s.call c).request ⟨id, false⟩).ticket? = some ⟨id, false⟩ :=
          ticket_afterCreate _ _
        rw [show State.afterCreate cfg (s.call c).request ⟨id, false⟩ = .creating from hcreating] at hticket
        cases hticket
    · rename_i hc
      rw [if_neg hc] at hkey
      have hold := h.call c' key hkey
      have hpushed : u.pushed = s.pushed := by rw [hu]; rfl
      have hother : ((s.call c').phase = .creating ∨ ∃ t, (s.call c').phase.ticket? = some t) →
          ¬((s.call c).request.agent = (s.call c').request.agent ∧ (s.call c).request.key = some key) := by
        intro hwhere hsame
        rcases hwhere with hcreating | ⟨t, ht⟩
        · exact hc (h.alone (s.call c').request.agent key c c' hsame ⟨rfl, hkey⟩ (.inl hphase) (.inl hcreating))
        · have hmissing := (h.call c key hsame.2).missing hphase
          rw [hsame.1, hold.found t ht] at hmissing
          cases hmissing
      refine ⟨fun t ht => ?_, fun hcreating => ?_, hpushed ▸ hold.progress⟩
      · rw [hkeys, if_neg (hother (.inr ⟨t, ht⟩))]
        exact hold.found t ht
      · rw [hkeys, if_neg (hother (.inl hcreating))]
        exact hold.missing hcreating
  · exact h.alone agent key c₁ c₂ (hasks.mp h₁) (hasks.mp h₂) (hclaims hclaim₁) (hclaims hclaim₂)
  · rw [hkeys] at hget
    split at hget
    · rename_i hsame
      cases hget
      refine ⟨c, hasks.mpr hsame, ?_⟩
      rw [hcall, if_pos rfl]
      exact ticket_afterCreate _ _
    · obtain ⟨c', hown, hticket⟩ := h.owner agent key id' hget
      refine ⟨c', hasks.mpr hown, ?_⟩
      rw [hcall, if_neg]
      · exact hticket
      · intro hc
        subst hc
        rw [hphase] at hticket
        cases hticket
  · have hnew : id ∉ s.created := by
      intro hmem
      obtain ⟨hash, hhash⟩ := h.known id hmem
      cases hnone.symm.trans hhash
    rw [hu]
    exact h.once.cons hnew
  · rw [hu] at hmem
    by_cases hid : id = id'
    · subst hid
      rw [hu]
      exact ⟨_, Dict.get?_set_self _ _ _⟩
    · obtain ⟨hash, hhash⟩ := h.known id' ((List.mem_cons.mp hmem).resolve_left fun heq => hid heq.symm)
      rw [hu]
      exact ⟨hash, (Dict.get?_set_ne _ _ hid).trans hhash⟩
  · have hset := Roster.weigh_set s.calls c
      ⟨(s.call c).request, State.afterCreate cfg (s.call c).request ⟨id, false⟩⟩
      (f := fun call => has id' call.phase.owing?) rfl
    have hbefore := h.owed id'
    have hempty : has id' (s.call c).phase.owing? = 0 := by rw [hphase]; rfl
    have hcount := count_cons_has s.created id id'
    rw [hu]
    simp only [owing_afterCreate] at hset
    simp only [State.owing, State.call, State.setCall] at hbefore hempty hset ⊢
    change _ + _ = _ + has id' (some id) at hset
    omega

theorem Keyed.progress (h : Keyed cfg s) {phase : CallPhase} (hphase : (s.call c).phase = phase)
    (hkey : (s.call c).request.key ≠ none) : Progress cfg s.pushed ⟨(s.call c).request, phase⟩ := by
  obtain ⟨key, hkey⟩ := Option.ne_none_iff_exists'.mp hkey
  rw [← hphase]
  exact (h.call c key hkey).progress

theorem ticket_afterPush (request : Request) (t : Ticket) : (s.afterPush request t).ticket? = some t := by
  rw [State.afterPush]
  split <;> rfl

theorem owing_afterPush (request : Request) (t : Ticket) : (s.afterPush request t).owing? = none := by
  rw [State.afterPush]
  split <;> rfl

theorem progress_afterPush {pushed : List JobId} {request : Request} {t : Ticket} (request' : Request)
    (h : t.reused = true ∨ t.id ∈ pushed) : Progress cfg pushed ⟨request', s.afterPush request t⟩ := by
  rw [State.afterPush]
  split <;> exact h

theorem keyed_step (h : Keyed cfg s) (hrule : oneMiss e s) (hstep : Step cfg s e u) : Keyed cfg u := by
  cases hstep with
  | tick | pump | endPump | giveUp | load | lose | start | finish =>
    exact h.still rfl rfl rfl rfl fun _ => Iff.rfl
  | putBack hphase hadd | schedule hphase hadd =>
    exact h.still rfl (Redis.zadd_frame hadd).2 rfl rfl (Redis.known_of_jobs (Redis.zadd_frame hadd).1)
  | putReady hphase hdue hpush =>
    exact h.still rfl (Redis.push_frame hpush).2 rfl rfl (Redis.known_of_jobs (Redis.push_frame hpush).1)
  | cancel | cancelled | begin | count | writeBack =>
    exact h.still rfl (Redis.hset_frame _ _ _).1 rfl rfl fun _ => Redis.known_hset _ _ _ _
  | zpopmin hphase hpop =>
    exact h.still rfl (Redis.zpopmin_frame hpop).2 rfl rfl (Redis.known_of_jobs (Redis.zpopmin_frame hpop).1)
  | brpop hphase hpop =>
    exact h.still rfl (Redis.pop_frame hpop).2 rfl rfl (Redis.known_of_jobs (Redis.pop_frame hpop).1)
  | @submit c request phase hphase hnew =>
    have hticket : phase.ticket? = none := by rcases hnew with rfl | ⟨_, message, rfl⟩ <;> rfl
    have howing : phase.owing? = none := by rcases hnew with rfl | ⟨_, message, rfl⟩ <;> rfl
    refine h.move rfl rfl rfl (fun _ => Iff.rfl) (fun _ => id) ?_ (fun key t _ ht => ?_) (fun _ id hid => ?_)
      (fun id hid => ?_) ?_ fun id => ?_
    · rcases hnew with rfl | ⟨_, message, rfl⟩ <;> exact nofun
    · cases hticket.symm.trans ht
    · rw [hphase] at hid
      cases hid
    · cases hticket.symm.trans hid
    · intro hkey
      rcases hnew with rfl | ⟨hunknown, message, rfl⟩
      · trivial
      · exact hunknown.resolve_right (hrule hkey)
    · rw [howing, hphase]
      exact le_rfl
  | @hit c key found hphase hkey hget =>
    refine h.move rfl rfl rfl (fun _ => Iff.rfl) (fun _ => id) ?_ (fun key' t hkey' ht => ?_) (fun _ id hid => ?_)
      (fun id hid => ?_) (fun _ => progress_afterCreate _ _ _) fun id => ?_
    · intro hcreating
      have hticket : (State.afterCreate cfg (s.call c).request ⟨found, true⟩).ticket? = some ⟨found, true⟩ :=
        ticket_afterCreate _ _
      rw [show State.afterCreate cfg (s.call c).request ⟨found, true⟩ = .creating from hcreating] at hticket
      cases hticket
    · cases hkey.symm.trans hkey'
      cases (ticket_afterCreate _ _).symm.trans ht
      exact hget
    · rw [hphase] at hid
      cases hid
    · cases (ticket_afterCreate _ _).symm.trans hid
    · rw [owing_afterCreate, hphase]
      exact le_rfl
  | miss hphase hmiss => exact h.miss hrule hphase hmiss
  | create hphase hnone hencode => exact h.create hphase hnone rfl
  | @unencoded c id message hphase hencode =>
    refine h.fail (not_not.mp fun hkey => ?_) rfl rfl nofun
    exact hrule hkey hencode
  | @mark c t hphase =>
    refine h.advance rfl (Redis.hset_frame _ _ _).1 rfl (fun _ => Redis.known_hset _ _ _ _) (fun _ => id) (t := t)
      (by rw [hphase]; rfl) rfl (fun hkey => hrule hkey t hphase) fun id => ?_
    rw [hphase]
    exact le_rfl
  | @post c reply t t0 success writes hphase hends =>
    have hprogress := h.progress hphase
    refine h.advance rfl rfl rfl (fun _ => Iff.rfl) (fun _ => id) (t := t) (by rw [hphase]; rfl) rfl hprogress
      fun id => by rw [hphase]; exact le_rfl
  | @write c t t0 success write rest hphase =>
    have hwaits : (s.call c).request.key ≠ none → t.reused = true ∨ (s.call c).request.wait = false :=
      h.progress hphase
    refine h.advance rfl (Redis.hset_frame _ _ _).1 rfl (fun _ => Redis.known_hset _ _ _ _) (fun _ => id) (t := t)
      (by rw [hphase]; rfl) ?_ (fun hkey => ?_) fun id => ?_
    · split <;> rfl
    · split <;> exact hwaits hkey
    · rw [hphase]
      split <;> exact le_rfl
  | @caught c t t0 message hphase =>
    have hprogress := h.progress hphase
    refine h.advance rfl rfl rfl (fun _ => Iff.rfl) (fun _ => id) (t := t) (by rw [hphase]; rfl) rfl hprogress
      fun id => by rw [hphase]; exact le_rfl
  | @uncaught c t t0 message hphase =>
    refine h.fail (not_not.mp fun hkey => ?_) rfl rfl nofun
    cases hrule hkey t t0 hphase
  | @recorded c t t0 success hphase =>
    refine h.advance rfl rfl rfl (fun _ => Iff.rfl) (fun _ => id) (t := t) (by rw [hphase]; rfl) ?_ (fun hkey => ?_)
      fun id => ?_
    · split <;> rfl
    · split
      · rename_i hwait
        refine (h.progress hphase hkey).resolve_right fun hno => ?_
        rw [hwait] at hno
        cases hno
      · trivial
    · rw [hphase]
      split
      · exact Nat.add_le_add (Nat.zero_le _) le_rfl
      · exact le_rfl
  | @reread c t status hphase =>
    refine h.advance rfl rfl rfl (fun _ => Iff.rfl) (fun _ => id) (t := t) (by rw [hphase]; rfl) rfl
      (fun hkey => .inl (h.progress hphase hkey)) fun id => by rw [hphase]; exact le_rfl
  | @skip c t hphase hreused =>
    refine h.advance rfl rfl rfl (fun _ => Iff.rfl) (fun _ => id) (t := t) (by rw [hphase]; rfl)
      (ticket_afterPush _ _) (fun _ => progress_afterPush _ (.inl hreused)) fun id => ?_
    rw [owing_afterPush, hphase]
    exact Nat.add_le_add (Nat.zero_le _) le_rfl
  | @push c t redis hphase hnew hpush =>
    refine h.advance rfl (Redis.push_frame hpush).2 rfl (Redis.known_of_jobs (Redis.push_frame hpush).1)
      (fun _ => List.mem_cons_of_mem _) (t := t) (by rw [hphase]; rfl) (ticket_afterPush _ _)
      (fun _ => progress_afterPush _ (.inr List.mem_cons_self)) fun id => ?_
    have hcount := count_cons_has s.pushed t.id id
    rw [owing_afterPush, hphase, CallPhase.owing?, hnew]
    show 0 + (t.id :: s.pushed).count id ≤ has id (some t.id) + s.pushed.count id
    omega
  | @refused c t hphase hnew hpush =>
    refine h.fail (not_not.mp fun hkey => ?_) rfl rfl nofun
    rw [Redis.push, hrule hkey t hphase hnew] at hpush
    cases hpush
  | @poll c t deadline status hphase =>
    have hprogress := h.progress hphase
    refine h.advance rfl rfl rfl (fun _ => Iff.rfl) (fun _ => id) (t := t) (by rw [hphase]; rfl) rfl hprogress
      fun id => by rw [hphase]; exact le_rfl
  | again hphase => exact h

theorem keyed_init : Keyed cfg {} := by
  refine ⟨fun c key _ => ⟨fun t ht => ?_, fun hcreating => ?_, trivial⟩, fun agent key c c' _ _ hclaim _ => ?_,
    fun agent key id hget => ?_, List.nodup_nil, fun id hmem => ?_, fun id => le_rfl⟩
  · cases ht
  · cases hcreating
  · rcases hclaim with hcreating | ⟨id, hid⟩
    · cases hcreating
    · cases hid
  · cases hget
  · cases hmem

theorem keyed_reachable (h : (service cfg).Reachable oneMiss s) : Keyed cfg s := by
  refine Transition.System.reachable_invariant (I := Keyed cfg) (fun s hs => ?_)
    (fun e s u hs hrule hstep => keyed_step hs hrule (step_some hstep)) h
  rw [show s = {} from hs]
  exact keyed_init

end Steps

/-- **As long as no call with a key misses while another with it has missed and not yet written, all
calls of a key are given one job, one of them as new; the job is pushed once at most, and once
all have returned exactly once; and for a registered agent none raises. (A first run on the
sandbox route must not be waited for, handlers must not raise, inputs must be dumped and have a
UTF-8 form, and the key of the queue must not hold a sorted set.)** -/
theorem one_job_per_key {cfg : Config} {s : State} (h : (service cfg).Reachable oneMiss s) {agent key : String} {c : Nat}
    {t : Ticket} (hasks : s.Asks agent key c) (hticket : (s.call c).phase.ticket? = some t) :
    (∀ c' t', s.Asks agent key c' → (s.call c').phase.ticket? = some t' → t'.id = t.id) ∧
    (∃! c', s.Asks agent key c' ∧ (s.call c').phase.ticket? = some ⟨t.id, false⟩) ∧
    s.pushed.count t.id ≤ 1 ∧
    ((∀ c', s.Asks agent key c' → ∃ t' status, (s.call c').phase = .returned t' status) → s.pushed.count t.id = 1) ∧
    (agent ∈ cfg.agents → ∀ c', s.Asks agent key c' →
      (∀ message, (s.call c').phase ≠ .raised message) ∧ ∀ t', (s.call c').phase ≠ .refused t') := by
  have hk := keyed_reachable h
  have hfound : ∀ {c' t'}, s.Asks agent key c' → (s.call c').phase.ticket? = some t' →
      s.redis.keys.get? (agent, key) = some t'.id := by
    intro c' t' hasks' hticket'
    rw [← hasks'.1]
    exact (hk.call c' key hasks'.2).found t' hticket'
  have hget := hfound hasks hticket
  obtain ⟨c', hasks', hticket'⟩ := hk.owner agent key t.id hget
  have hle : s.pushed.count t.id ≤ 1 := by
    have howed := hk.owed t.id
    have honce := List.nodup_iff_count_le_one.mp hk.once t.id
    omega
  refine ⟨fun c₁ t₁ h₁ ht₁ => ?_, ⟨c', ⟨hasks', hticket'⟩, fun c₁ h₁ => ?_⟩, hle, fun hdone => ?_,
    fun hknown c₁ h₁ => ⟨fun message hraised => ?_, fun t' hrefused => ?_⟩⟩
  · exact Option.some.inj ((hfound h₁ ht₁).symm.trans hget)
  · exact hk.alone agent key c₁ c' h₁.1 hasks' (.inr ⟨t.id, h₁.2⟩) (.inr ⟨t.id, hticket'⟩)
  · obtain ⟨t', status, hreturned⟩ := hdone c' hasks'
    have hprogress := hk.progress hreturned (by rw [hasks'.2]; exact Option.some_ne_none _)
    rw [hreturned] at hticket'
    cases hticket'
    have hpushed : 0 < s.pushed.count t.id := List.count_pos_iff.mpr (hprogress.resolve_left Bool.false_ne_true)
    omega
  · have hprogress := hk.progress hraised (by rw [h₁.2]; exact Option.some_ne_none _)
    rw [← h₁.1] at hknown
    exact hprogress hknown
  · exact hk.progress hrefused (by rw [h₁.2]; exact Option.some_ne_none _)

def keyed : Request := { agent := "echo", idempotencyKey := some "k" }

/-- Two calls with one key, the second after the first has written it. -/
def inTurn : List Event :=
  [.submit 0 keyed, .submit 1 keyed, .lookup 0, .create 0 7, .lookup 1, .push 1, .push 0]

/-- Of the rule, what calls off the sandbox route need. -/
def oneMissTest : Event → State → Bool
  | .lookup _, s => s.calls.values.all fun call =>
    match call.phase with
    | .creating => false
    | _ => true
  | .mark _, _ | .record .., _ => false
  | .submit _ request, _ => request.runInput.isSome
  | .create c _, s => ((s.call c).request.runInput.bind PyStr.encode).isSome
  | .push c, s => !(s.redis.kept (queueKey (s.call c).request.queueName)).isZset
  | _, _ => true

theorem oneMiss_of_test (e : Event) (s : State) (h : oneMissTest e s = true) : oneMiss e s := by
  cases e with
  | lookup c =>
    intro key _ _ c' _ _ hcreating
    have hmem : s.call c' ∈ s.calls.values := by
      cases hget : s.calls.get? c' with
      | none =>
        rw [State.call, Roster.phase, hget] at hcreating
        cases hcreating
      | some call =>
        rw [State.call, Roster.phase, hget]
        exact List.mem_map_of_mem (Dict.mem_entries.mpr hget)
    have hnot := List.all_eq_true.mp h _ hmem
    rw [hcreating] at hnot
    cases hnot
  | mark c => cases h
  | record c raised => cases h
  | submit c request => exact fun _ => Option.isSome_iff_ne_none.mp h
  | create c id => exact fun _ => Option.isSome_iff_ne_none.mp h
  | push c => exact fun _ _ _ _ => (Bool.not_eq_true' _).mp h
  | _ => trivial

theorem one_job_per_key_inTurn : ∃ s, (service { agents := ["echo"] }).Reachable oneMiss s ∧
    (∃ t t' status status', (s.call 0).phase = .returned t status ∧ (s.call 1).phase = .returned t' status' ∧
      t = ⟨7, false⟩ ∧ t'.id = t.id) ∧ s.pushed.count 7 ≤ 1 := by
  have hrun : (Transition.System.walk (service { agents := ["echo"] }) oneMissTest {} inTurn).map
      (fun s => (s.pushed, [0, 1].map fun c =>
        (decide ((s.call c).request.agent = "echo" ∧ (s.call c).request.key = some "k"),
          match (s.call c).phase with
          | .returned t _ => some t
          | _ => none))) = some ([7], [(true, some ⟨7, false⟩), (true, some ⟨7, true⟩)]) := by decide +kernel
  obtain ⟨s, hs, hseen⟩ := Option.map_eq_some_iff.mp hrun
  have hreach : (service { agents := ["echo"] }).Reachable oneMiss s :=
    ⟨{}, rfl, Transition.System.walk_leads (fun e _ => oneMiss_of_test e) hs⟩
  simp only [Prod.mk.injEq, List.map_cons, List.map_nil, List.cons.injEq, decide_eq_true_eq, and_true] at hseen
  obtain ⟨hpushed, ⟨hasks, hfirst⟩, hasks', hsecond⟩ := hseen
  split at hfirst
  · rename_i t status hphase
    split at hsecond
    · rename_i t' status' hphase'
      cases hfirst
      obtain ⟨hsame, _, hle, _, _⟩ := one_job_per_key (c := 0) (t := ⟨7, false⟩) hreach hasks (by rw [hphase]; rfl)
      exact ⟨s, hreach, ⟨_, t', status, status', hphase, hphase', rfl, hsame 1 t' hasks' (by rw [hphase']; rfl)⟩, hle⟩
    · cases hsecond
  · cases hfirst

/-- Two calls with one key that both miss. -/
def bothMiss : List Event :=
  [.submit 0 keyed, .submit 1 keyed, .lookup 0, .lookup 1, .create 0 7, .create 1 8, .push 0, .push 1]

theorem two_jobs_for_key : ∃ s, (service { agents := ["echo"] }).Reachable Transition.anything s ∧
    s.Asks "echo" "k" 0 ∧ s.Asks "echo" "k" 1 ∧ (s.call 0).phase = .returned ⟨7, false⟩ .queued ∧
    (s.call 1).phase = .returned ⟨8, false⟩ .queued ∧ s.pushed = [8, 7] := by
  have hrun : ((service { agents := ["echo"] }).run {} bothMiss).map
      (fun s => (s.pushed, [0, 1].map fun c =>
        (decide ((s.call c).request.agent = "echo" ∧ (s.call c).request.key = some "k"),
          match (s.call c).phase with
          | .returned t .queued => some t
          | _ => none))) = some ([8, 7], [(true, some ⟨7, false⟩), (true, some ⟨8, false⟩)]) := by decide +kernel
  obtain ⟨s, hs, hseen⟩ := Option.map_eq_some_iff.mp hrun
  simp only [Prod.mk.injEq, List.map_cons, List.map_nil, List.cons.injEq, decide_eq_true_eq, and_true] at hseen
  obtain ⟨hpushed, ⟨hasks, hfirst⟩, hasks', hsecond⟩ := hseen
  refine ⟨s, Transition.System.run_reachable rfl hs, hasks, hasks', ?_, ?_, hpushed⟩
  · split at hfirst
    · rename_i hphase
      cases hfirst
      exact hphase
    · cases hfirst
  · split at hsecond
    · rename_i hphase
      cases hsecond
      exact hphase
    · cases hsecond

end SynQc.Agents
