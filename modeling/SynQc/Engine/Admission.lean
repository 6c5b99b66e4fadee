import SynQc.Engine.GroverBatches
import SynQc.Engine.Simulation

/-! Which runs a deployment accepts, and what it can do with them.

`load_provider_clients` reads the clients of the providers from the environment, `_enqueue_run` accepts a request
for a provider if remote hardware is allowed and there are credentials or simulation, and the backend runs what was
accepted. The two look at different things: acceptance asks the client for its credentials, if it can be asked, and
the run asks it for a result. They fit together (`admitted_runs`): what was accepted does not fail for want of
credentials or of simulation. The other way round they do not: a client that reads a payload cannot be asked, and
without simulation nothing is accepted for it although it would answer (`payload_refused`). -/
namespace SynQc.Engine.Admission
open Simulation

/-! ### The clients -/

inductive ProviderClient where
  | filePayload (payload : String)
  | qiskit (backendName : String)
  | ionq (apiKey : Option String)
  | azure (accessToken : Option String) (queueBusy : Bool)
  | rigetti (apiKey : Option String) (capacityExhausted : Bool)

/-- What of the process and the libraries the clients depend on. -/
structure Environment where
  /-- `os.environ` -/
  vars : Dict String String
  /-- `str.lower` -/
  lower : String → String
  /-- The module of the Qiskit adapter can be imported. -/
  adapterImports : Bool
  /-- `importlib.util.find_spec(name) is not None` -/
  installed : String → Bool
  /-- A payload, read and parsed. -/
  payload : String → Except Exc ProviderLiveResult
  /-- The circuits of a Qiskit backend. -/
  execute : String → Nat → ExperimentPreset → Nat → Except Exc Counts
  /-- The generators of the stubs. -/
  rngOf : ExperimentPreset → Int → Kpi.Rng

namespace Environment
variable (env : Environment)

/-- `os.environ.get(name, "").lower() in {"1", "true", "yes"}` -/
def enabled (name : String) : Bool := env.lower ((env.vars.get? name).getD "") ∈ ["1", "true", "yes"]

/-- The rest of a variable's name behind its start, in lower case. -/
def backendId (start key : String) : Option String :=
  if start.toList <+: key.toList then some (env.lower (String.ofList (key.toList.drop start.length))) else none

/-- A client for each variable with a value whose name begins so. -/
def loadNamed (start : String) (client : String → ProviderClient) (clients : Dict String ProviderClient) :
    Dict String ProviderClient :=
  env.vars.entries.foldl (fun clients e =>
    match env.backendId start e.1 with
    | some id => if e.2 = "" then clients else clients.set id (client e.2)
    | none => clients) clients

def loadProviderClients : Dict String ProviderClient :=
  let clients := env.loadNamed "SYNQC_PROVIDER_PAYLOAD_" .filePayload Dict.empty
  let clients := if env.adapterImports then env.loadNamed "SYNQC_QISKIT_BACKEND_" .qiskit clients else clients
  let ionqApiKey := env.vars.get? "SYNQC_IONQ_API_KEY"
  let clients :=
    if !missing ionqApiKey || env.enabled "SYNQC_ENABLE_IONQ_DEMO" then clients.set "ionq_cloud" (.ionq ionqApiKey)
    else clients
  let clients :=
    if env.enabled "SYNQC_ENABLE_AZURE_SDK_STUB" then
      clients.set "azure_quantum" (.azure (env.vars.get? "SYNQC_AZURE_API_KEY") (env.enabled "SYNQC_AZURE_QUEUE_BUSY"))
    else clients
  let clients :=
    if env.enabled "SYNQC_ENABLE_RIGETTI_SDK_STUB" then
      clients.set "rigetti_forest"
        (.rigetti (env.vars.get? "SYNQC_RIGETTI_API_KEY") (env.enabled "SYNQC_RIGETTI_CAPACITY_EXHAUSTED"))
    else clients
  if (clients.get? "ibm_quantum").isNone && env.adapterImports then
    clients.set "ibm_quantum" (.qiskit ((env.vars.get? "SYNQC_QISKIT_BACKEND").getD "aer_simulator"))
  else clients

/-! ### Qiskit's credentials -/

def runtimeConfigured : Bool :=
  ["SYNQC_QISKIT_RUNTIME_TOKEN", "SYNQC_QISKIT_RUNTIME_CHANNEL", "SYNQC_QISKIT_RUNTIME_INSTANCE"].any fun name =>
    !missing (env.vars.get? name)

/-- What `_ensure_qiskit_available` raises. -/
def qiskitMissing : Option Exc :=
  if !env.installed "qiskit" then
    some (.provider "Qiskit is not installed. Install the 'qiskit' extra to enable Qiskit-backed runs."
      .providerCredentials (some "Install qiskit or switch to a simulator backend."))
  else if env.runtimeConfigured then
    if !env.installed "qiskit_ibm_runtime" then
      some (.provider ("qiskit-ibm-runtime is required for cloud execution. Install the 'qiskit' extra or " ++
        "add it manually.") .providerCredentials (some "Install qiskit-ibm-runtime or select Aer simulation."))
    else none
  else if !env.installed "qiskit_aer" then
    some (.provider ("qiskit-aer is required for the configured Qiskit backend. Install qiskit-aer or the " ++
      "'backend[qiskit]' extra.") .providerCredentials (some "Install qiskit-aer or target a runtime backend."))
  else none

end Environment

/-- `live_client.validate_credentials()`, where the client has it. -/
def ProviderClient.validateCredentials (env : Environment) : ProviderClient → Option Bool
  | .filePayload _ => none
  | .qiskit _ =>
    some (env.qiskitMissing.isNone &&
      (!env.runtimeConfigured || !missing (env.vars.get? "SYNQC_QISKIT_RUNTIME_TOKEN")))
  | .ionq apiKey => some !missing apiKey
  | .azure accessToken _ => some !missing accessToken
  | .rigetti apiKey _ => some !missing apiKey

/-- Its `run`. -/
def ProviderClient.run (env : Environment) : ProviderClient → LiveClient
  | .filePayload payload => filePayloadClient (env.payload payload)
  | .qiskit backendName => Qiskit.client { missing := env.qiskitMissing, execute := env.execute backendName }
  | .ionq _ => ionqProviderClient.run env.rngOf
  | .azure accessToken queueBusy => (azureQuantumStubClient accessToken queueBusy).run env.rngOf
  | .rigetti apiKey capacityExhausted => (rigettiForestStubClient apiKey capacityExhausted).run env.rngOf

/-! ### Acceptance -/

/-- The key of a target in the registry. -/
def targetId : HardwareTarget → String
  | .simLocal => "sim_local"
  | .awsBraket => "aws_braket"
  | .ibmQuantum => "ibm_quantum"
  | .azureQuantum => "azure_quantum"
  | .ionqCloud => "ionq_cloud"
  | .rigettiForest => "rigetti_forest"
  | .unknown id => id

structure Deployment where
  env : Environment
  settings : Settings
  /-- `allow_remote_hardware` -/
  allowRemoteHardware : Bool
  /-- The same flag of every other settings object in the process. -/
  otherFlags : List Bool

namespace Deployment
variable (d : Deployment)

/-- The `live_client` of a target's backend. -/
def clientOf (target : HardwareTarget) : Option ProviderClient := d.env.loadProviderClients.get? (targetId target)

/-- `validate_credentials` of a registered target. -/
def credentialsOk (target : HardwareTarget) : Bool :=
  if target = .simLocal then true
  else
    match d.clientOf target with
    | some client => (client.validateCredentials d.env).getD d.settings.allowProviderSimulation
    | none => d.settings.allowProviderSimulation

/-- `allow_remote` -/
def allowRemote : Bool := d.allowRemoteHardware && d.otherFlags.all id

end Deployment

/-- The 4xx of a refused request. -/
structure Refusal where
  status : Nat
  code : ErrorCode
  message : String
  actionHint : String
  deriving DecidableEq

def remoteDisabled : Refusal where
  status := 403
  code := .remoteDisabled
  message := "Remote hardware is disabled on this deployment"
  actionHint := "Enable remote hardware or target sim_local."

def invalidTarget (id : String) : Refusal where
  status := 400
  code := .invalidTarget
  message := "Unknown hardware_target '" ++ id ++ "'"
  actionHint := "Pick a hardware target from /hardware/targets."

def simulationDisabled : Refusal where
  status := 403
  code := .providerSimDisabled
  message := "Provider simulation is disabled for this deployment"
  actionHint := "Enable SYNQC_ALLOW_PROVIDER_SIMULATION=true or supply provider credentials."

/-- `_enqueue_run` up to the queue. -/
def Deployment.enqueueRun (d : Deployment) (target : HardwareTarget) : Except Refusal Unit :=
  if !d.allowRemoteHardware ∧ target ≠ .simLocal then .error remoteDisabled
  else if !d.allowRemote ∧ target ≠ .simLocal then .error remoteDisabled
  else
    match target with
    | .unknown id => .error (invalidTarget id)
    | .simLocal => .ok ()
    | _ =>
      if !(d.credentialsOk target || d.settings.allowProviderSimulation) then .error simulationDisabled
      else .ok ()

/-! ### Where the clients stand -/

/-- A client where it can stand: a vendor's own stands at the vendor's id. -/
inductive Fits : String → ProviderClient → Prop
  | filePayload (id payload : String) : Fits id (.filePayload payload)
  | qiskit (id backendName : String) : Fits id (.qiskit backendName)
  | ionq (apiKey : Option String) : Fits "ionq_cloud" (.ionq apiKey)
  | azure (accessToken : Option String) (queueBusy : Bool) : Fits "azure_quantum" (.azure accessToken queueBusy)
  | rigetti (apiKey : Option String) (capacityExhausted : Bool) :
      Fits "rigetti_forest" (.rigetti apiKey capacityExhausted)

def AllFit (clients : Dict String ProviderClient) : Prop := ∀ id client, clients.get? id = some client → Fits id client

theorem AllFit.set {clients : Dict String ProviderClient} {id : String} {client : ProviderClient}
    (h : AllFit clients) (hfits : Fits id client) : AllFit (clients.set id client) := by
  intro id' client' hget
  rw [Dict.get?_set] at hget
  split at hget
  · rename_i heq
    obtain rfl := Option.some.inj hget
    exact heq ▸ hfits
  · exact h id' client' hget

theorem AllFit.loadNamed {clients : Dict String ProviderClient} {client : String → ProviderClient}
    (h : AllFit clients) (hfits : ∀ id value, Fits id (client value)) (env : Environment) (start : String) :
    AllFit (env.loadNamed start client clients) := by
  unfold Environment.loadNamed
  generalize env.vars.entries = vars
  induction vars generalizing clients with
  | nil => exact h
  | cons e vars ih =>
    refine ih ?_
    dsimp only
    split
    · split
      · exact h
      · exact h.set (hfits _ _)
    · exact h

/-- Every loaded client stands where it can. -/
theorem allFit_loadProviderClients (env : Environment) : AllFit env.loadProviderClients := by
  have hite : ∀ (c : Bool) (loaded clients : Dict String ProviderClient), AllFit loaded → AllFit clients →
      AllFit (if c then loaded else clients) := by
    intro c loaded clients hloaded hclients
    split
    · exact hloaded
    · exact hclients
  have hempty : AllFit Dict.empty := by
    intro id client hget
    rw [Dict.get?_empty] at hget
    cases hget
  have hpayload := hempty.loadNamed .filePayload env "SYNQC_PROVIDER_PAYLOAD_"
  have hqiskit := hite env.adapterImports _ _ (hpayload.loadNamed .qiskit env "SYNQC_QISKIT_BACKEND_") hpayload
  have hionq := hite (!missing (env.vars.get? "SYNQC_IONQ_API_KEY") || env.enabled "SYNQC_ENABLE_IONQ_DEMO") _ _
    (hqiskit.set (.ionq (env.vars.get? "SYNQC_IONQ_API_KEY"))) hqiskit
  have hazure := hite (env.enabled "SYNQC_ENABLE_AZURE_SDK_STUB") _ _
    (hionq.set (.azure (env.vars.get? "SYNQC_AZURE_API_KEY") (env.enabled "SYNQC_AZURE_QUEUE_BUSY"))) hionq
  have hrigetti := hite (env.enabled "SYNQC_ENABLE_RIGETTI_SDK_STUB") _ _
    (hazure.set (.rigetti (env.vars.get? "SYNQC_RIGETTI_API_KEY") (env.enabled "SYNQC_RIGETTI_CAPACITY_EXHAUSTED")))
    hazure
  exact hite _ _ _ (hrigetti.set (.qiskit _ _)) hrigetti

/-! ### Running what was accepted -/

/-- The circuits of a run on Qiskit, by the shots each was run with. -/
def circuits (q : Qiskit) (preset : ExperimentPreset) (shotBudget : Int) : List Nat :=
  if preset = .groverDemo then q.groverSizes shotBudget else [(max 1 shotBudget).toNat]

/-- Where the loop of the Grover preset raises, its last batch did. -/
theorem groverTrace_error {q : Qiskit} {shots batch configShots total : Nat} {exc : Exc}
    (hpos : 0 < min configShots (shots - total)) (h : (q.groverTrace shots batch configShots total).2 = .error exc) :
    ∃ i size, (q.groverTrace shots batch configShots total).1[i]? = some size ∧
      q.execute (batch + i) .groverDemo size = .error exc := by
  induction batch, configShots, total using Qiskit.groverTrace.induct q shots with
  | case1 batch configShots total current hzero => omega
  | case2 batch configShots total current hzero exc' hrun =>
    rw [Qiskit.groverTrace, if_neg hzero] at h ⊢
    simp only [current, hrun] at h ⊢
    obtain rfl := Except.error.inj h
    exact ⟨0, current, rfl, hrun⟩
  | case3 batch configShots total current hzero counts hrun hstop =>
    rw [Qiskit.groverTrace, if_neg hzero] at h
    simp only [current, hrun, if_pos hstop] at h
    cases h
  | case4 batch configShots total current hzero counts hrun hstop ih =>
    have hleft : ¬shots - (total + current) = 0 := fun h => hstop (.inr h)
    rw [Qiskit.groverTrace, if_neg hzero] at h ⊢
    simp only [current, hrun, if_neg hstop] at h ⊢
    obtain ⟨i, size, hsize, hexecute⟩ := ih (by omega) h
    exact ⟨i + 1, size, hsize, by rwa [Nat.add_right_comm] at hexecute⟩

/-- With nothing missing, Qiskit fails only where one of its circuits does. -/
theorem qiskit_client {q : Qiskit} (hmissing : q.missing = none) (preset : ExperimentPreset) (shotBudget : Int) :
    (∃ result, q.client preset shotBudget = .ok result ∧
        result.expectedDistribution = some (Qiskit.expectedBaseline preset)) ∨
      ∃ i shots exc, (circuits q preset shotBudget)[i]? = some shots ∧ q.execute i preset shots = .error exc ∧
        q.client preset shotBudget = .error (Qiskit.mapException exc) := by
  rw [Qiskit.client, Qiskit.run, hmissing]
  dsimp only
  by_cases hgrover : preset = .groverDemo
  · subst hgrover
    have htrace := q.groverTrace_result (max 1 shotBudget).toNat 0 (min 64 (max 1 shotBudget).toNat) 0
    rw [if_pos rfl, circuits, if_pos rfl]
    cases hbatches : q.groverBatches (max 1 shotBudget).toNat 0 (min 64 (max 1 shotBudget).toNat) 0 with
    | ok r => exact .inl ⟨_, rfl, rfl⟩
    | error exc =>
      obtain ⟨i, shots, hshots, hexecute⟩ := groverTrace_error (by omega) (htrace.trans hbatches)
      rw [Nat.zero_add] at hexecute
      exact .inr ⟨i, shots, exc, hshots, hexecute, rfl⟩
  · rw [if_neg hgrover, circuits, if_neg hgrover]
    cases hexecute : q.execute 0 preset (max 1 shotBudget).toNat with
    | ok counts => exact .inl ⟨_, rfl, rfl⟩
    | error exc => exact .inr ⟨0, _, exc, rfl, hexecute, rfl⟩

/-- What an exception becomes is an error of a provider's client. -/
theorem mapException_provider (exc : Exc) :
    ∃ message code hint detail, Qiskit.mapException exc = .providerClientError message code hint detail := by
  rw [Qiskit.mapException.eq_def]
  split
  · exact ⟨_, _, _, _, rfl⟩
  · dsimp only
    split
    · exact ⟨_, _, _, _, rfl⟩
    · split <;> exact ⟨_, _, _, _, rfl⟩

/-- Only value errors come from the estimate of a fidelity. -/
def Estimates (w : World) : Prop :=
    ∀ counts exc, w.fidelityOf counts = .error exc → ∃ message, exc = .valueError message

section Shell
variable {w : World} {s : Settings} {preset : ExperimentPreset} {shotBudget : Int} {client : LiveClient}

theorem estimateFidelity_ok (hw : Estimates w) (counts : Counts) : ∃ f, estimateFidelity w counts = .ok f := by
  rw [estimateFidelity]
  cases h : w.fidelityOf counts with
  | ok f => exact ⟨some f, rfl⟩
  | error exc =>
    obtain ⟨message, rfl⟩ := hw counts exc h
    exact ⟨none, rfl⟩

/-- A simulation never fails. -/
theorem simulate_ok (hw : Estimates w) (s : Settings) (preset : ExperimentPreset) (shotBudget : Int) :
    ∃ kpis, Engine.ProviderBackend.simulate s w preset shotBudget = .ok kpis := by
  rw [Engine.ProviderBackend.simulate]
  by_cases hlatency : preset = .latency
  · rw [if_pos hlatency]
    exact ⟨_, rfl⟩
  · obtain ⟨f, hf⟩ := estimateFidelity_ok hw
      (Engine.sampleCounts (expectedOutcomes preset) (min shotBudget s.maxShotsPerExperiment) w.pick)
    rw [if_neg hlatency, hf]
    exact ⟨_, rfl⟩

/-- A live run fails only where the client does, or its distribution has no mass. -/
theorem runLive_ok (hw : Estimates w) {result : ProviderLiveResult} {dist : Dict String ℚ}
    (hrun : client preset shotBudget = .ok result) (hdist : result.expectedDistribution = some dist)
    (hmass : Engine.ProviderBackend.positiveMass dist = true) :
    ∃ kpis, Engine.ProviderBackend.runLive w client preset shotBudget = .ok kpis := by
  have haccepted : ¬(result.expectedDistribution.any fun dist =>
      dist.size ≠ 0 ∧ !Engine.ProviderBackend.positiveMass dist) = true := by
    rw [hdist, Option.any_some, hmass]
    simp
  rw [Engine.ProviderBackend.runLive, hrun]
  dsimp only
  rw [if_neg haccepted]
  cases hfidelity : result.fidelity with
  | some f => exact ⟨_, rfl⟩
  | none =>
    obtain ⟨f, hf⟩ := estimateFidelity_ok hw result.rawCounts
    dsimp only
    rw [hf]
    exact ⟨_, rfl⟩

/-- With simulation allowed, a shell never fails. -/
theorem shell_simulates (hw : Estimates w) (hsimulation : s.allowProviderSimulation = true) (preset : ExperimentPreset)
    (shotBudget : Int) : ∃ kpis, Engine.ProviderBackend.runExperiment s w preset shotBudget = .ok kpis := by
  obtain ⟨simulated, hsimulated⟩ := simulate_ok hw s preset shotBudget
  rw [Engine.ProviderBackend.runExperiment]
  cases hlive : w.live with
  | none =>
    dsimp only
    rw [if_pos hsimulation]
    exact ⟨_, hsimulated⟩
  | some client =>
    dsimp only
    cases Engine.ProviderBackend.runLive w client preset shotBudget with
    | ok kpis => exact ⟨kpis, rfl⟩
    | error exc =>
      dsimp only
      rw [if_pos hsimulation]
      exact ⟨_, hsimulated⟩

end Shell

/-! ### Acceptance and the run -/

section Admitted
variable {d : Deployment} {target : HardwareTarget} {w : World} {preset : ExperimentPreset} {shotBudget : Int}

/-- A client that says it has credentials is Qiskit with nothing missing, or a vendor's stub at its target that
refuses for its queue or its capacity only. -/
theorem credentialed {client : ProviderClient} (hget : d.clientOf target = some client) (hremote : Remote target)
    (hvalid : client.validateCredentials d.env = some true) :
    (∃ name, client = .qiskit name ∧ d.env.qiskitMissing = none) ∨
      ∃ stub, StubOf target stub ∧ client.run d.env = stub.run d.env.rngOf ∧
        ∀ exc, stub.refusal = some exc → ∃ message code hint detail,
          exc = .providerClientError message code hint detail ∧
            (code = .providerQueueBackpressure ∨ code = .providerCapacity) := by
  have hfits := allFit_loadProviderClients d.env _ _ hget
  have hrefusal : ∀ {token : Option String} {busy : Bool} {e₁ e₂ exc : Exc}, some (!missing token) = some true →
      (if missing token = true then some e₁ else if busy = true then some e₂ else none) = some exc → exc = e₂ := by
    intro token busy e₁ e₂ exc htoken heq
    have hpresent : missing token = false := by simpa using htoken
    rw [hpresent, if_neg Bool.false_ne_true] at heq
    split at heq
    · exact (Option.some.inj heq).symm
    · cases heq
  generalize hid : targetId target = id at hfits
  cases hfits with
  | filePayload id payload => cases hvalid
  | qiskit id name =>
    refine .inl ⟨name, rfl, ?_⟩
    have hboth := Option.some.inj hvalid
    rw [Bool.and_eq_true, Option.isNone_iff_eq_none] at hboth
    exact hboth.1
  | ionq apiKey =>
    have htarget : target = .ionqCloud := by
      cases target with
      | unknown id => exact absurd rfl (hremote.2 id)
      | _ => revert hid; decide
    subst htarget
    exact .inr ⟨_, .ionq, rfl, fun exc h => by cases h⟩
  | azure accessToken queueBusy =>
    have htarget : target = .azureQuantum := by
      cases target with
      | unknown id => exact absurd rfl (hremote.2 id)
      | _ => revert hid; decide
    subst htarget
    exact .inr ⟨_, .azure accessToken queueBusy, rfl, fun exc h =>
      ⟨_, _, _, _, hrefusal hvalid h, .inl rfl⟩⟩
  | rigetti apiKey capacityExhausted =>
    have htarget : target = .rigettiForest := by
      cases target with
      | unknown id => exact absurd rfl (hremote.2 id)
      | _ => revert hid; decide
    subst htarget
    exact .inr ⟨_, .rigetti apiKey capacityExhausted, rfl, fun exc h =>
      ⟨_, _, _, _, hrefusal hvalid h, .inr rfl⟩⟩

theorem enqueueRun_unknown (d : Deployment) (id : String) : d.enqueueRun (.unknown id) ≠ .ok () := by
  intro h
  rw [Deployment.enqueueRun] at h
  · split at h
    · cases h
    · split at h <;> cases h

theorem enqueueRun_remote (d : Deployment) (hremote : Remote target) : d.enqueueRun target =
    if d.allowRemote = true then
      if (d.credentialsOk target || d.settings.allowProviderSimulation) = true then .ok ()
      else .error simulationDisabled
    else .error remoteDisabled := by
  have hflag : d.allowRemote = true → d.allowRemoteHardware = true := fun h => (Bool.and_eq_true_iff.mp h).1
  rw [Deployment.enqueueRun.eq_3 _ _ (fun id heq => hremote.2 id heq) fun heq => hremote.1 heq]
  by_cases hallow : d.allowRemote = true
  · rw [if_neg (by simp [hflag hallow]), if_neg (by simp [hallow]), if_pos hallow]
    cases d.credentialsOk target || d.settings.allowProviderSimulation <;> rfl
  · rw [if_neg hallow, if_pos (c := !d.allowRemote ∧ target ≠ .simLocal) ⟨by simpa using hallow, hremote.1⟩, ite_self]

/-- Credentials are good where the client has them; one that cannot be asked for them, or is missing, needs
simulation. -/
theorem credentialsOk_iff (d : Deployment) (hremote : Remote target) :
    (d.credentialsOk target || d.settings.allowProviderSimulation) = true ↔
      d.settings.allowProviderSimulation = true ∨
        ∃ client, d.clientOf target = some client ∧ client.validateCredentials d.env = some true := by
  rw [Bool.or_eq_true, Deployment.credentialsOk, if_neg hremote.1, or_comm]
  refine or_congr_right' fun hsimulation => ?_
  cases hget : d.clientOf target with
  | none => exact iff_of_false hsimulation fun h => by obtain ⟨_, h, -⟩ := h; cases h
  | some client =>
    dsimp only
    cases hvalid : client.validateCredentials d.env with
    | none =>
      refine iff_of_false hsimulation fun h => ?_
      obtain ⟨client', heq, hvalid'⟩ := h
      cases heq
      rw [hvalid] at hvalid'
      cases hvalid'
    | some b =>
      constructor
      · intro h
        exact ⟨client, rfl, hvalid.trans (congrArg some h)⟩
      · intro h
        obtain ⟨client', heq, hvalid'⟩ := h
        cases heq
        rw [hvalid] at hvalid'
        exact Option.some.inj hvalid'

/-- What is accepted for a provider: remote hardware is allowed, the target is registered, and there is simulation or
a client with credentials. -/
theorem enqueueRun_iff (hremote : target ≠ .simLocal) :
    d.enqueueRun target = .ok () ↔ d.allowRemote = true ∧ Remote target ∧
      (d.settings.allowProviderSimulation = true ∨
        ∃ client, d.clientOf target = some client ∧ client.validateCredentials d.env = some true) := by
  by_cases hregistered : Remote target
  · rw [enqueueRun_remote d hregistered, ← credentialsOk_iff d hregistered]
    by_cases hallow : d.allowRemote = true
    · rw [if_pos hallow]
      split
      · rename_i hok
        exact iff_of_true rfl ⟨hallow, hregistered, hok⟩
      · rename_i hok
        exact iff_of_false (fun h => by cases h) fun h => hok h.2.2
    · rw [if_neg hallow]
      exact iff_of_false (fun h => by cases h) fun h => hallow h.1
  · refine iff_of_false (fun h => hregistered ⟨hremote, fun id heq => ?_⟩) fun h => hregistered h.2.1
    subst heq
    exact enqueueRun_unknown d id h

/-- Without simulation no run is accepted for a payload, though the payload would be its result. -/
theorem payload_refused {payload : String} (hget : d.clientOf target = some (.filePayload payload))
    (hremote : target ≠ .simLocal) (hsimulation : d.settings.allowProviderSimulation = false) :
    d.enqueueRun target ≠ .ok () := by
  intro haccepted
  obtain ⟨-, -, hcredentials⟩ := (enqueueRun_iff hremote).mp haccepted
  obtain hallowed | hclient := hcredentials
  · rw [hsimulation] at hallowed
    cases hallowed
  · obtain ⟨client, hclient, hvalid⟩ := hclient
    rw [hget] at hclient
    cases hclient
    cases hvalid

/-- How an accepted run ends: with KPIs, or, where nothing is simulated, for the vendor's queue or capacity or with
what one of its circuits raised. -/
def Answered (d : Deployment) (w : World) (target : HardwareTarget) (preset : ExperimentPreset)
    (shotBudget : Int) : Prop :=
  (∃ kpis, Providers.runExperiment d.settings w target preset shotBudget = .ok kpis) ∨
    d.settings.allowProviderSimulation = false ∧
      ((∃ message code hint detail, Providers.runExperiment d.settings w target preset shotBudget =
          .error (.providerClientError message code hint detail) ∧
            (code = .providerQueueBackpressure ∨ code = .providerCapacity)) ∨
        ∃ name i shots exc, d.clientOf target = some (.qiskit name) ∧
          (circuits ⟨d.env.qiskitMissing, d.env.execute name⟩ preset shotBudget)[i]? = some shots ∧
          d.env.execute name i preset shots = .error exc ∧
          Providers.runExperiment d.settings w target preset shotBudget = .error (Qiskit.mapException exc))

/-- **What is accepted can be run.** A run accepted for a provider, within the target's cap, never fails for want of
credentials or of simulation. -/
theorem admitted_runs (haccepted : d.enqueueRun target = .ok ()) (hremote : target ≠ .simLocal)
    (hlive : w.live = (d.clientOf target).map (ProviderClient.run d.env)) (hw : Estimates w) (preset : ExperimentPreset)
    (hpos : 0 < shotBudget) (hcap : ∀ cap, Providers.maxShots d.settings target = some cap → shotBudget ≤ cap) :
    Answered d w target preset shotBudget := by
  obtain ⟨-, hregistered, hcredentials⟩ := (enqueueRun_iff hremote).mp haccepted
  obtain ⟨hok, herror⟩ := registry_within hregistered d.settings w preset hcap
  by_cases hsimulation : d.settings.allowProviderSimulation = true
  · obtain ⟨kpis, hkpis⟩ := shell_simulates hw hsimulation preset shotBudget
    exact .inl ⟨kpis, (hok kpis).mpr hkpis⟩
  obtain ⟨client, hget, hvalid⟩ := hcredentials.resolve_left hsimulation
  rw [hget, Option.map_some] at hlive
  have hnone : d.settings.allowProviderSimulation = false := by simpa using hsimulation
  obtain hqiskit | hstub := credentialed hget hregistered hvalid
  · obtain ⟨name, rfl, hmissing⟩ := hqiskit
    obtain hresult | hfailed := qiskit_client (q := ⟨d.env.qiskitMissing, d.env.execute name⟩) hmissing preset shotBudget
    · obtain ⟨result, hresult, hdist⟩ := hresult
      have hmass : Engine.ProviderBackend.positiveMass (Qiskit.expectedBaseline preset) = true := by
        cases preset <;> decide +kernel
      obtain ⟨kpis, hkpis⟩ := runLive_ok hw hresult hdist hmass
      refine .inl ⟨kpis, (hok kpis).mpr ?_⟩
      rw [Engine.ProviderBackend.runExperiment, hlive]
      dsimp only [ProviderClient.run]
      rw [hkpis]
    · obtain ⟨i, shots, exc, hshots, hexecute, hraised⟩ := hfailed
      obtain ⟨message, code, hint, detail, hmapped⟩ := mapException_provider exc
      have hrun : Engine.ProviderBackend.runExperiment d.settings w preset shotBudget =
          .error (.providerClientError message code hint detail) := by
        rw [Engine.ProviderBackend.runExperiment, hlive]
        dsimp only [ProviderClient.run]
        rw [Engine.ProviderBackend.runLive, hraised, hmapped]
        dsimp only
        rw [hnone]
        rfl
      refine .inr ⟨hnone, .inr ⟨name, i, shots, exc, hget, hshots, hexecute, ?_⟩⟩
      rw [hmapped]
      exact herror _ _ _ _ hrun
  · obtain ⟨stub, hof, hrun, hrefuses⟩ := hstub
    rw [hrun] at hlive
    obtain ⟨hruns, hrefused⟩ :=
      stub_within hof hlive d.settings preset hpos (hcap _ (hof.maxShots_eq d.settings))
    cases hrefusal : stub.refusal with
    | none =>
      obtain ⟨kpis, -, hkpis, -⟩ := hruns hrefusal
      exact .inl ⟨kpis, hkpis⟩
    | some exc =>
      obtain ⟨message, code, hint, detail, rfl, hcode⟩ := hrefuses exc hrefusal
      exact .inr ⟨hnone, .inl ⟨message, code, hint, detail, (hrefused _ hrefusal).1 hnone, hcode⟩⟩

end Admitted

/-- A deployment with a key for IonQ. -/
def ionqOnly (settings : Settings) : Deployment where
  env := {
    vars := Dict.empty.set "SYNQC_IONQ_API_KEY" "key"
    lower := id
    adapterImports := false
    installed := fun _ => false
    payload := fun _ => .error (.other "")
    execute := fun _ _ _ _ => .error (.other "")
    rngOf := fun _ _ => Kpi.Rng.still }
  settings := settings
  allowRemoteHardware := true
  otherFlags := [true]

/-- Without simulation. -/
theorem admitted_runs_ionq : Answered (ionqOnly { allowProviderSimulation := false }) {
    pick := fun _ => 0
    fidelityOf := fun _ => .ok 1
    latencyUs := 0
    backaction := 0
    runGrover := fun _ => .error (.dependency "")
    live := ((ionqOnly {}).clientOf .ionqCloud).map (ProviderClient.run (ionqOnly {}).env) } .ionqCloud .health 100 :=
  admitted_runs (by decide +kernel) (by decide) rfl (fun _ _ h => by cases h) .health (by decide) (by decide)

end SynQc.Engine.Admission
