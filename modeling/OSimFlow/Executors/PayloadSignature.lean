import OSimFlow.Detached.Download
import OSimFlow.Errors
import OSimFlow.JsonText
import OSimFlow.Lib.Strip
import OSimFlow.Lib.Succeeds

/-!
# Signed payloads and signed transport settings

The orchestrator signs the task payload and the result-transport settings with a shared secret
(`task_payload_hmac`), an executor puts both signatures into the job's environment, and
`remote_runner` checks them: the payload before it is decoded, the settings before a storage
backend is built. Each side finds the secret by itself, and each side writes the settings in
canonical form by itself.

HMAC-SHA256 is a parameter. What an attacker can do to the environment is bounded by `Unforged`: no
signature the worker reads is that of a message the orchestrator has not signed with the secret.

> `signed_iff_submitted`: with the secret in `OSIMFLOW_TASK_PAYLOAD_SECRET`, the worker accepts what
> was submitted, and a payload or settings that it accepts are what was signed.
>
> `secret_file_refused`: with the secret in a file the settings are not signed, and refused.
-/

namespace OSimFlow.Executors.PayloadSignature

open OSimFlow.Detached (isSpace)
open OSimFlow.Lib (bind_eq_ok)
open OSimFlow.JsonText
open OSimFlow.Observability.Audit (dumpsStr)

/-- What a job is told, each under a name of its own and under one in Nomad's dispatch meta. -/
inductive Var where
  /-- `OSIMFLOW_TASK_PAYLOAD`, `NOMAD_META_task_payload` -/
  | taskPayload
  /-- `OSIMFLOW_TASK_PAYLOAD_SIG`, `NOMAD_META_task_payload_sig` -/
  | taskPayloadSig
  /-- `OSIMFLOW_TASK_PAYLOAD_SECRET`, `NOMAD_META_task_payload_secret` -/
  | taskPayloadSecret
  /-- `OSIMFLOW_RESULT_TRANSPORT_MODE`, `NOMAD_META_result_transport_mode` -/
  | transportMode
  /-- `OSIMFLOW_RESULT_STORAGE_BACKEND`, `NOMAD_META_result_storage_backend` -/
  | storageBackend
  /-- `OSIMFLOW_RESULT_STORAGE_BUCKET`, `NOMAD_META_result_storage_bucket` -/
  | storageBucket
  /-- `OSIMFLOW_RESULT_STORAGE_PREFIX`, `NOMAD_META_result_storage_prefix` -/
  | storagePrefix
  /-- `OSIMFLOW_RESULT_STORAGE_ENDPOINT`, `NOMAD_META_result_storage_endpoint` -/
  | storageEndpoint
  /-- `OSIMFLOW_ALLOW_INSECURE_STORAGE_ENDPOINT`, `NOMAD_META_allow_insecure_storage_endpoint` -/
  | allowInsecure
  /-- `OSIMFLOW_RESULT_TRANSPORT_SIG`, `NOMAD_META_result_transport_sig` -/
  | transportSig
deriving DecidableEq, Repr

/-- What a process finds around it. -/
structure Process where
  environ : Var → Option String
  /-- The `NOMAD_META_` variables. -/
  nomadMeta : Var → Option String
  /-- `OSIMFLOW_TASK_PAYLOAD_SECRET_FILE` -/
  secretFile : Option String
  /-- The text of a file that can be read. -/
  files : String → Option String

/-- `_get_env_or_nomad_meta`. -/
def getEnvOrNomadMeta (p : Process) (v : Var) : Option String := (p.environ v).or (p.nomadMeta v)

/-- `text.strip()`. -/
def strip (text : String) : String := String.ofList (Lib.strip isSpace text.toList)

/-- `resolve_payload_secret`. -/
def resolvePayloadSecret (p : Process) : Except PyError (Option String) :=
  match getEnvOrNomadMeta p .taskPayloadSecret with
  | some value => .ok (some value)
  | none =>
    match p.secretFile with
    | none => .ok none
    | some file =>
      if file = "" then .ok none
      else
        match p.files file with
        | none => .error (.exception "the file could not be read")
        | some content =>
          if strip content = "" then .error (.exception "the file is empty")
          else .ok (some (strip content))

/-! ## Transport settings -/

/-- `ResultTransportMode`. -/
inductive Mode where
  | auto
  | sharedFs
  | objectStorage
deriving DecidableEq, Repr

def Mode.value : Mode → String
  | .auto => "auto"
  | .sharedFs => "shared_fs"
  | .objectStorage => "object_storage"

/-- `coerce_transport_mode`. Only ASCII letters are lowered: what other characters become is no
letter of these words. -/
def coerceTransportMode : Option String → Mode
  | none => .auto
  | some raw =>
    let normalized := String.ofList ((strip raw).toList.map Char.toLower)
    if normalized ∈ ["shared_fs", "shared-fs", "sharedfs"] then .sharedFs
    else if normalized ∈ ["object_storage", "object-storage", "objectstorage"] then .objectStorage
    else .auto

theorem coerceTransportMode_value (m : Mode) : coerceTransportMode (some m.value) = m := by
  cases m <;> decide +kernel

/-- `ResultTransportConfig`; its mode is stored coerced. -/
structure ResultTransportConfig where
  mode : Mode
  backend : Option String
  bucket : Option String
  keyPrefix : Option String
  endpoint : Option String

/-- `json.dumps` of a string or `None`. -/
def dumpsOpt : Option String → String
  | none => "null"
  | some s => dumpsStr s

def dumpsBool (b : Bool) : String := if b then "true" else "false"

/-- `canonical_result_transport_settings`. -/
def canonicalResultTransportSettings (t : ResultTransportConfig) (allowInsecure : Bool) : String :=
  "\x7b\"allow_insecure\":" ++ dumpsBool allowInsecure ++ ",\"backend\":" ++ dumpsOpt t.backend ++
    ",\"bucket\":" ++ dumpsOpt t.bucket ++ ",\"endpoint\":" ++ dumpsOpt t.endpoint ++
    ",\"mode\":" ++ dumpsStr t.mode.value ++ ",\"prefix\":" ++ dumpsOpt t.keyPrefix ++ "\x7d"

/-! ## Signing -/

section

-- `hmac.new(secret, message, sha256).hexdigest()`
variable (hmac : String → String → String)

/-- `sign_task_payload`. -/
def signTaskPayload (payload secret : String) : String := hmac secret payload

/-- `hmac.compare_digest`, which takes ASCII strings only. -/
def compareDigest (expected signature : String) : Except PyError Bool :=
  if signature.toList.all fun c => decide (c.toNat < 128) then .ok (decide (expected = signature))
  else .error (.exception "comparing strings with non-ASCII characters is not supported")

/-- `verify_task_payload`. -/
def verifyTaskPayload (payload : String) (signature : Option String) (secret : String) :
    Except PyError Bool :=
  match signature with
  | none => .ok false
  | some signature =>
    if signature = "" then .ok false
    else compareDigest (signTaskPayload hmac payload secret) signature

/-- `build_signature_env`. -/
def buildSignatureEnv (p : Process) (payload : String) (secret : Option String)
    (includeSecret requireSecret : Bool) : Except PyError (List (Var × String)) := do
  let resolved ← match secret with
    | some s => .ok (some s)
    | none => resolvePayloadSecret p
  match resolved with
  | none =>
    if requireSecret then .error (.exception "OSIMFLOW_TASK_PAYLOAD_SECRET is not configured")
    else .ok []
  | some s =>
    if s = "" then
      if requireSecret then .error (.exception "OSIMFLOW_TASK_PAYLOAD_SECRET is not configured")
      else .ok []
    else if includeSecret then
      .ok [(.taskPayloadSig, signTaskPayload hmac payload s), (.taskPayloadSecret, s)]
    else .ok [(.taskPayloadSig, signTaskPayload hmac payload s)]

/-- `build_transport_signature_env`: the secret is looked for in one place only. -/
def buildTransportSignatureEnv (p : Process) (t : ResultTransportConfig) (secret : Option String)
    (allowInsecure : Bool) : List (Var × String) :=
  match secret.or (p.environ .taskPayloadSecret) with
  | none => []
  | some s =>
    if s = "" then []
    else [(.transportSig, signTaskPayload hmac (canonicalResultTransportSettings t allowInsecure) s)]

/-! ## The environment of a Kubernetes job -/

/-- An entry's value, or the reference to a Kubernetes secret. -/
inductive EnvValue where
  | value (s : String)
  | secretKeyRef
deriving DecidableEq, Repr

/-- `KubernetesExecutor._signature_env_entries`. -/
def signatureEnvEntries (p : Process) (payloadSecretRef : Bool) (taskPayload : String) :
    Except PyError (List (Var × EnvValue)) := do
  let signatureEnv ← buildSignatureEnv hmac p taskPayload none true false
  .ok (signatureEnv.map fun (key, value) =>
    if key = .taskPayloadSecret ∧ payloadSecretRef then (key, .secretKeyRef)
    else (key, .value value))

/-- `if value is not None: env.append(…)`. -/
def optionalEntry (v : Var) : Option String → List (Var × EnvValue)
  | none => []
  | some value => [(v, .value value)]

/-- `KubernetesExecutor._build_environment`, of it what concerns payload and transport. -/
def buildEnvironment (p : Process) (payloadSecretRef : Bool) (taskPayload : String)
    (transport : ResultTransportConfig) : Except PyError (List (Var × EnvValue)) := do
  let signatureEntries ← signatureEnvEntries hmac p payloadSecretRef taskPayload
  .ok ((.taskPayload, .value taskPayload) :: signatureEntries ++
    ((.transportMode, .value transport.mode.value) ::
      optionalEntry .storageBackend transport.backend ++
      optionalEntry .storageBucket transport.bucket ++
      optionalEntry .storagePrefix transport.keyPrefix ++
      optionalEntry .storageEndpoint transport.endpoint ++
      (buildTransportSignatureEnv hmac p transport none false).map fun (key, value) =>
        (key, .value value)))

/-! ## What the worker checks -/

/-- `_verify_payload_signature`. -/
def verifyPayloadSignature (w : Process) (raw : String) : Except PyError Unit := do
  match ← resolvePayloadSecret w with
  | none => .error (.exception "refusing to execute unsigned task payload")
  | some secret =>
    if secret = "" then .error (.exception "refusing to execute unsigned task payload")
    else if ← verifyTaskPayload hmac raw (getEnvOrNomadMeta w .taskPayloadSig) secret then .ok ()
    else .error (.exception "OSIMFLOW_TASK_PAYLOAD_SIG verification failed")

/-- `_load_payload`, up to the text that is decoded. -/
def loadPayload (w : Process) : Except PyError String :=
  match getEnvOrNomadMeta w .taskPayload with
  | none => .error (.exception "missing task payload")
  | some raw =>
    if strip raw = "" then .error (.exception "missing task payload")
    else do
      verifyPayloadSignature hmac w raw
      .ok raw

/-- `bool(value)` of a string or `None`. -/
def truthy (value : Option String) : Bool := decide (value.getD "" ≠ "")

/-- The settings as the worker reads them. -/
def readSettings (w : Process) : ResultTransportConfig where
  mode := coerceTransportMode (getEnvOrNomadMeta w .transportMode)
  backend := getEnvOrNomadMeta w .storageBackend
  bucket := getEnvOrNomadMeta w .storageBucket
  keyPrefix := getEnvOrNomadMeta w .storagePrefix
  endpoint := getEnvOrNomadMeta w .storageEndpoint

/-- What `build_result_storage` is called with. -/
structure StorageRequest where
  backend : String
  bucket : String
  keyPrefix : String
  endpointUrl : Option String
  allowInsecureEndpoint : Bool
deriving DecidableEq

/-- The middle part of `_object_storage_context`: `allow_insecure` as it may be used, after the
settings have been verified where there is a secret. -/
def verifyTransportSettings (w : Process) (t : ResultTransportConfig) : Except PyError Bool := do
  match ← resolvePayloadSecret w with
  | none => .ok false
  | some secret =>
    if secret = "" then .ok false
    else
      let allowInsecure := truthy (getEnvOrNomadMeta w .allowInsecure)
      if ← verifyTaskPayload hmac (canonicalResultTransportSettings t allowInsecure)
        (getEnvOrNomadMeta w .transportSig) secret then .ok allowInsecure
      else .error (.exception "result-transport settings failed HMAC verification")

/-- `_object_storage_context`, with the call that builds the storage in place of the storage. -/
def objectStorageContext (w : Process) :
    Except PyError (Option (StorageRequest × Option String)) :=
  let t := readSettings w
  if t.mode ≠ .objectStorage then .ok none
  else do
    let allowInsecure ← verifyTransportSettings hmac w t
    if truthy t.backend && truthy t.bucket then
      .ok (some (⟨t.backend.getD "", t.bucket.getD "", t.keyPrefix.getD "", t.endpoint,
        allowInsecure⟩, t.keyPrefix))
    else .error (.exception "object_storage requires result storage backend and bucket metadata")

/-! ## What is asked -/

/-- What an entry gives the job's process. -/
def valueOf (entries : List (Var × EnvValue)) (v : Var) : Option String :=
  match entries.lookup v with
  | some (.value s) => some s
  | _ => none

/-- The process reads what the entries say. Where it has the secret from is left open. -/
def StartedWith (entries : List (Var × EnvValue)) (w : Process) : Prop :=
  ∀ v, v ≠ .taskPayloadSecret → getEnvOrNomadMeta w v = valueOf entries v

/-- Who has not the secret can only put signatures into the environment that were made with it:
those of the messages in `signed`. -/
def Unforged (secret : String) (signed : List String) (w : Process) : Prop :=
  ∀ v ∈ [Var.taskPayloadSig, .transportSig], ∀ message,
    getEnvOrNomadMeta w v = some (hmac secret message) → message ∈ signed

/-- A digest is written in hexadecimal. -/
def HexDigest : Prop :=
  ∀ secret message, hmac secret message ≠ "" ∧
    (hmac secret message).toList.all (fun c => decide (c.toNat < 128)) = true

/-- What the storage is built with for these settings, if anything. -/
def storageFor (t : ResultTransportConfig) : Except PyError (Option (StorageRequest × Option String)) :=
  if t.mode ≠ .objectStorage then .ok none
  else if truthy t.backend && truthy t.bucket then
    .ok (some (⟨t.backend.getD "", t.bucket.getD "", t.keyPrefix.getD "", t.endpoint, false⟩,
      t.keyPrefix))
  else .error (.exception "object_storage requires result storage backend and bucket metadata")

/-! ## The canonical text determines the settings -/

theorem dumpsOpt_append_inj {a b : Option String} {x y : List Char}
    (h : (dumpsOpt a).toList ++ x = (dumpsOpt b).toList ++ y) : a = b ∧ x = y := by
  have hnull : ∀ (s : String) (x y : List Char),
      ("null" : String).toList ++ x ≠ (dumpsStr s).toList ++ y := by
    intro s x y h
    rw [dumpsStr, String.toList_append, String.toList_append, List.append_assoc] at h
    exact absurd (List.cons.inj h).1 (by decide)
  cases a with
  | none =>
    cases b with
    | none => exact ⟨rfl, List.append_cancel_left h⟩
    | some t => exact absurd h (hnull t x y)
  | some s =>
    cases b with
    | none => exact absurd h.symm (hnull s y x)
    | some t =>
      obtain ⟨hst, hxy⟩ := dumpsStr_append_inj h
      exact ⟨congrArg some hst, hxy⟩

theorem dumpsBool_append_inj {a b : Bool} {x y : List Char}
    (h : (dumpsBool a).toList ++ x = (dumpsBool b).toList ++ y) : a = b ∧ x = y := by
  have hdiff : ∀ x y : List Char, ("true" : String).toList ++ x ≠ ("false" : String).toList ++ y :=
    fun x y h => absurd (List.cons.inj h).1 (by decide)
  cases a with
  | true =>
    cases b with
    | true => exact ⟨rfl, List.append_cancel_left h⟩
    | false => exact absurd h (hdiff x y)
  | false =>
    cases b with
    | true => exact absurd h.symm (hdiff y x)
    | false => exact ⟨rfl, List.append_cancel_left h⟩

theorem mode_value_inj {m n : Mode} (h : m.value = n.value) : m = n := by
  rw [← coerceTransportMode_value m, h, coerceTransportMode_value]

/-- Field by field, each written so that its end is seen. -/
theorem canonical_inj {t u : ResultTransportConfig} {a b : Bool}
    (h : canonicalResultTransportSettings t a = canonicalResultTransportSettings u b) :
    t = u ∧ a = b := by
  have hlist := congrArg String.toList h
  unfold canonicalResultTransportSettings at hlist
  simp only [String.toList_append, List.append_assoc] at hlist
  obtain ⟨hallow, hlist⟩ := dumpsBool_append_inj (List.append_cancel_left hlist)
  obtain ⟨hbackend, hlist⟩ := dumpsOpt_append_inj (List.append_cancel_left hlist)
  obtain ⟨hbucket, hlist⟩ := dumpsOpt_append_inj (List.append_cancel_left hlist)
  obtain ⟨hendpoint, hlist⟩ := dumpsOpt_append_inj (List.append_cancel_left hlist)
  obtain ⟨hmode, hlist⟩ := dumpsStr_append_inj (List.append_cancel_left hlist)
  obtain ⟨hkeys, _⟩ := dumpsOpt_append_inj (List.append_cancel_left hlist)
  obtain ⟨mode, backend, bucket, keyPrefix, endpoint⟩ := t
  obtain ⟨mode', backend', bucket', keyPrefix', endpoint'⟩ := u
  obtain rfl : mode = mode' := mode_value_inj hmode
  obtain rfl : backend = backend' := hbackend
  obtain rfl : bucket = bucket' := hbucket
  obtain rfl : keyPrefix = keyPrefix' := hkeys
  obtain rfl : endpoint = endpoint' := hendpoint
  exact ⟨rfl, hallow⟩

/-! ## Signing and checking -/

theorem verify_signed (hhex : HexDigest hmac) (message secret : String) :
    verifyTaskPayload hmac message (some (signTaskPayload hmac message secret)) secret =
      .ok true := by
  obtain ⟨hne, hascii⟩ := hhex secret message
  unfold verifyTaskPayload compareDigest
  rw [signTaskPayload]
  exact (if_neg hne).trans ((if_pos hascii).trans (by rw [decide_eq_true rfl]))

/-- Only the message's own signature is accepted. -/
theorem eq_of_verify {message secret : String} {signature : Option String}
    (h : verifyTaskPayload hmac message signature secret = .ok true) :
    signature = some (hmac secret message) := by
  unfold verifyTaskPayload at h
  split at h
  next => exact nomatch h
  next signature =>
    split at h
    next => exact nomatch h
    next =>
      unfold compareDigest at h
      split at h
      next => exact congrArg some (of_decide_eq_true (Except.ok.inj h)).symm
      next => exact nomatch h

/-! ## What an executor submits -/

theorem resolvePayloadSecret_of_environ {p : Process} {secret : String}
    (h : p.environ .taskPayloadSecret = some secret) :
    resolvePayloadSecret p = .ok (some secret) := by
  unfold resolvePayloadSecret getEnvOrNomadMeta
  rw [h]
  rfl

/-- The entries of a job whose secret is in the orchestrator's environment. -/
def submittedEntries (secret : String) (payloadSecretRef : Bool) (taskPayload : String)
    (t : ResultTransportConfig) : List (Var × EnvValue) :=
  (.taskPayload, .value taskPayload) ::
    (.taskPayloadSig, .value (signTaskPayload hmac taskPayload secret)) ::
    (.taskPayloadSecret, if payloadSecretRef then .secretKeyRef else .value secret) ::
    (.transportMode, .value t.mode.value) ::
    (optionalEntry .storageBackend t.backend ++
      (optionalEntry .storageBucket t.bucket ++
        (optionalEntry .storagePrefix t.keyPrefix ++
          (optionalEntry .storageEndpoint t.endpoint ++
            [(.transportSig, .value (signTaskPayload hmac
              (canonicalResultTransportSettings t false) secret))]))))

theorem buildEnvironment_of_environ {p : Process} {secret : String}
    (h : p.environ .taskPayloadSecret = some secret) (hne : secret ≠ "") (payloadSecretRef : Bool)
    (taskPayload : String) (t : ResultTransportConfig) :
    buildEnvironment hmac p payloadSecretRef taskPayload t =
      .ok (submittedEntries hmac secret payloadSecretRef taskPayload t) := by
  have hsig : buildSignatureEnv hmac p taskPayload none true false =
      .ok [(.taskPayloadSig, signTaskPayload hmac taskPayload secret),
        (.taskPayloadSecret, secret)] := by
    unfold buildSignatureEnv
    rw [resolvePayloadSecret_of_environ h]
    exact if_neg hne
  have htransport : buildTransportSignatureEnv hmac p t none false =
      [(.transportSig, signTaskPayload hmac (canonicalResultTransportSettings t false) secret)] := by
    unfold buildTransportSignatureEnv
    rw [h]
    exact if_neg hne
  unfold buildEnvironment signatureEnvEntries submittedEntries
  rw [hsig, htransport]
  cases payloadSecretRef <;> simp [bind, Except.bind]

@[simp] theorem valueOf_nil (v : Var) : valueOf [] v = none := rfl

@[simp] theorem valueOf_cons_self (v : Var) (s : String) (l : List (Var × EnvValue)) :
    valueOf ((v, .value s) :: l) v = some s := by
  unfold valueOf
  rw [List.lookup_cons_self]

@[simp] theorem valueOf_cons_ne {v u : Var} (h : v ≠ u) (x : EnvValue)
    (l : List (Var × EnvValue)) : valueOf ((u, x) :: l) v = valueOf l v := by
  have hne : (v == u) = false := beq_eq_false_iff_ne.mpr h
  unfold valueOf
  rw [List.lookup_cons, hne]

@[simp] theorem valueOf_optionalEntry_self (v : Var) (x : Option String)
    (l : List (Var × EnvValue)) :
    valueOf (optionalEntry v x ++ l) v = x.or (valueOf l v) := by
  cases x with
  | none => rfl
  | some s => exact valueOf_cons_self v s l

@[simp] theorem valueOf_optionalEntry_ne {v u : Var} (h : v ≠ u) (x : Option String)
    (l : List (Var × EnvValue)) : valueOf (optionalEntry u x ++ l) v = valueOf l v := by
  cases x with
  | none => rfl
  | some s => exact valueOf_cons_ne h (.value s) l

/-! ## What the worker makes of it -/

section

variable {secret taskPayload : String} {payloadSecretRef : Bool} {t : ResultTransportConfig}
  {w : Process}

/-- The process reads back what the orchestrator put in. -/
theorem reads_submitted
    (h : StartedWith (submittedEntries hmac secret payloadSecretRef taskPayload t) w) :
    getEnvOrNomadMeta w .taskPayload = some taskPayload ∧
      getEnvOrNomadMeta w .taskPayloadSig = some (signTaskPayload hmac taskPayload secret) ∧
      readSettings w = t ∧ getEnvOrNomadMeta w .allowInsecure = none ∧
      getEnvOrNomadMeta w .transportSig =
        some (signTaskPayload hmac (canonicalResultTransportSettings t false) secret) := by
  refine ⟨?_, ?_, ?_, ?_, ?_⟩
  · rw [h _ (by decide)]
    rfl
  · rw [h _ (by decide)]
    rfl
  · unfold readSettings
    rw [h _ (by decide), h _ (by decide), h _ (by decide), h _ (by decide), h _ (by decide)]
    simp [submittedEntries, coerceTransportMode_value]
  · rw [h _ (by decide)]
    simp [submittedEntries]
  · rw [h _ (by decide)]
    simp [submittedEntries]

theorem loadPayload_submitted (hhex : HexDigest hmac) (hne : secret ≠ "")
    (hw : resolvePayloadSecret w = .ok (some secret)) (hblank : strip taskPayload ≠ "")
    (h : StartedWith (submittedEntries hmac secret payloadSecretRef taskPayload t) w) :
    loadPayload hmac w = .ok taskPayload := by
  obtain ⟨hpayload, hsig, _, _, _⟩ := reads_submitted hmac h
  have hverify : verifyPayloadSignature hmac w taskPayload = .ok () := by
    unfold verifyPayloadSignature
    rw [hw, hsig]
    show (if secret = "" then _ else _) = _
    rw [if_neg hne, verify_signed hmac hhex]
    rfl
  unfold loadPayload
  rw [hpayload]
  show (if strip taskPayload = "" then _ else _) = _
  rw [if_neg hblank, hverify]
  rfl

theorem objectStorageContext_submitted (hhex : HexDigest hmac) (hne : secret ≠ "")
    (hw : resolvePayloadSecret w = .ok (some secret))
    (h : StartedWith (submittedEntries hmac secret payloadSecretRef taskPayload t) w) :
    objectStorageContext hmac w = storageFor t := by
  obtain ⟨_, _, hread, hallow, hsig⟩ := reads_submitted hmac h
  have hverify : verifyTransportSettings hmac w t = .ok false := by
    unfold verifyTransportSettings
    rw [hw, hallow, hsig]
    show (if secret = "" then _ else _) = _
    rw [if_neg hne]
    show (verifyTaskPayload _ (canonicalResultTransportSettings t false) _ _ >>= _) = _
    rw [verify_signed hmac hhex]
    rfl
  unfold objectStorageContext storageFor
  dsimp only
  rw [hread, hverify]
  rfl

/-- A payload that is accepted carries its own signature. -/
theorem sig_of_loadPayload {raw : String} (hw : resolvePayloadSecret w = .ok (some secret))
    (h : loadPayload hmac w = .ok raw) :
    getEnvOrNomadMeta w .taskPayloadSig = some (hmac secret raw) := by
  unfold loadPayload at h
  split at h
  next => exact nomatch h
  next raw' _ =>
    split at h
    next => exact nomatch h
    next =>
      obtain ⟨_, hverify, hraw⟩ := bind_eq_ok.mp h
      obtain rfl : raw' = raw := Except.ok.inj hraw
      unfold verifyPayloadSignature at hverify
      obtain ⟨found, hfound, hchecked⟩ := bind_eq_ok.mp hverify
      obtain rfl : found = some secret := (Except.ok.inj (hw.symm.trans hfound)).symm
      replace hchecked : (if secret = "" then _ else _) = Except.ok () := hchecked
      split at hchecked
      next => exact nomatch hchecked
      next =>
        obtain ⟨accepted, haccepted, hok⟩ := bind_eq_ok.mp hchecked
        cases accepted with
        | true => exact eq_of_verify hmac haccepted
        | false => exact nomatch hok

/-- Settings that a storage is built with carry their own signature, and the storage is the one
for them. -/
theorem sig_of_objectStorageContext {context : StorageRequest × Option String}
    (hne : secret ≠ "") (hw : resolvePayloadSecret w = .ok (some secret))
    (h : objectStorageContext hmac w = .ok (some context)) :
    getEnvOrNomadMeta w .transportSig = some (hmac secret
        (canonicalResultTransportSettings (readSettings w)
          (truthy (getEnvOrNomadMeta w .allowInsecure)))) ∧
      (truthy (getEnvOrNomadMeta w .allowInsecure) = false →
        storageFor (readSettings w) = .ok (some context)) := by
  unfold objectStorageContext at h
  replace h : (if (readSettings w).mode ≠ .objectStorage then _ else _) = _ := h
  split at h
  next => exact nomatch h
  next hmode =>
    obtain ⟨allowInsecure, hverify, hbuild⟩ := bind_eq_ok.mp h
    unfold verifyTransportSettings at hverify
    obtain ⟨found, hfound, hchecked⟩ := bind_eq_ok.mp hverify
    obtain rfl : found = some secret := (Except.ok.inj (hw.symm.trans hfound)).symm
    replace hchecked : (if secret = "" then _ else _) = _ := hchecked
    rw [if_neg hne] at hchecked
    obtain ⟨accepted, haccepted, hok⟩ := bind_eq_ok.mp hchecked
    cases accepted with
    | false => exact nomatch hok
    | true =>
      refine ⟨eq_of_verify hmac haccepted, fun hallow => ?_⟩
      obtain rfl : false = allowInsecure := hallow.symm.trans (Except.ok.inj hok)
      exact (if_neg hmode).trans hbuild

end

/-! ## The result -/

/-- With the secret in the orchestrator's environment: what is submitted is accepted, and what is
accepted was signed. -/
theorem signed_iff_submitted (hhex : HexDigest hmac) {o : Process} {secret : String}
    (hsecret : o.environ .taskPayloadSecret = some secret) (hne : secret ≠ "")
    (payloadSecretRef : Bool) {taskPayload : String} (hblank : strip taskPayload ≠ "")
    (t : ResultTransportConfig) :
    ∃ entries, buildEnvironment hmac o payloadSecretRef taskPayload t = .ok entries ∧
      ∀ w, resolvePayloadSecret w = .ok (some secret) →
        (StartedWith entries w →
          loadPayload hmac w = .ok taskPayload ∧ objectStorageContext hmac w = storageFor t) ∧
        (Unforged hmac secret [taskPayload, canonicalResultTransportSettings t false] w →
          (∀ raw, loadPayload hmac w = .ok raw →
            raw = taskPayload ∨ raw = canonicalResultTransportSettings t false) ∧
          ∀ context, objectStorageContext hmac w = .ok (some context) →
            canonicalResultTransportSettings (readSettings w)
                (truthy (getEnvOrNomadMeta w .allowInsecure)) = taskPayload ∨
              readSettings w = t ∧ truthy (getEnvOrNomadMeta w .allowInsecure) = false ∧
                storageFor t = .ok (some context)) := by
  refine ⟨_, buildEnvironment_of_environ hmac hsecret hne payloadSecretRef taskPayload t, ?_⟩
  refine fun w hw => ⟨fun hstarted => ⟨?_, ?_⟩, fun hunforged => ⟨fun raw h => ?_, ?_⟩⟩
  · exact loadPayload_submitted hmac hhex hne hw hblank hstarted
  · exact objectStorageContext_submitted hmac hhex hne hw hstarted
  · have hsigned := hunforged .taskPayloadSig (by decide) raw (sig_of_loadPayload hmac hw h)
    simpa using hsigned
  · intro context h
    obtain ⟨hsig, hstorage⟩ := sig_of_objectStorageContext hmac hne hw h
    have hsigned := hunforged .transportSig (by decide) _ hsig
    rcases List.mem_cons.mp hsigned with hpayload | hsettings
    · exact .inl hpayload
    · obtain ⟨hread, hallow⟩ := canonical_inj (List.mem_singleton.mp hsettings)
      exact .inr ⟨hread, hallow, hread ▸ hstorage hallow⟩

end

/-! ## A campaign with a storage -/

/-- The job's process, with the secret among its variables. -/
def processOf (secret : String) (entries : List (Var × EnvValue)) : Process where
  environ v := if v = .taskPayloadSecret then some secret else valueOf entries v
  nomadMeta _ := none
  secretFile := none
  files _ := none

theorem resolvePayloadSecret_processOf (secret : String) (entries : List (Var × EnvValue)) :
    resolvePayloadSecret (processOf secret entries) = .ok (some secret) :=
  resolvePayloadSecret_of_environ rfl

theorem startedWith_processOf (secret : String) (entries : List (Var × EnvValue)) :
    StartedWith entries (processOf secret entries) := by
  intro v hv
  show (if v = .taskPayloadSecret then some secret else valueOf entries v).or none = _
  rw [if_neg hv]
  exact Option.or_none

def sampleSecret : String := "s3cret-key"

def samplePayload : String :=
  "\x7b\"schema_version\": 1, \"name\": \"a\", \"step\": \"sim\", \"args\": [], \"kwargs\": \x7b\x7d, \"result_hint\": null\x7d"

def sampleTransport : ResultTransportConfig where
  mode := .objectStorage
  backend := some "s3"
  bucket := some "campaigns"
  keyPrefix := some "out"
  endpoint := none

def sampleSettings : String := canonicalResultTransportSettings sampleTransport false

/-- The two digests that come up. -/
def sampleHmac (secret message : String) : String :=
  if secret = sampleSecret ∧ message = samplePayload then
    "cf41031cf95f41dedb7cb06db51535cf20080e185fc965cefc0908127267f763"
  else if secret = sampleSecret ∧ message = sampleSettings then
    "62c5003eebe37fdd7a85325cd7db6271c059f24848d23ce00e924d1acf1ff0d5"
  else "0000000000000000000000000000000000000000000000000000000000000000"

theorem hexDigest_sampleHmac : HexDigest sampleHmac := by
  intro secret message
  unfold sampleHmac
  split
  next => decide +kernel
  next =>
    split
    next => decide +kernel
    next => decide +kernel

/-- The secret in the environment. -/
def sampleOrchestrator : Process := processOf sampleSecret []

theorem sample_accepted :
    let w := processOf sampleSecret
      (submittedEntries sampleHmac sampleSecret false samplePayload sampleTransport)
    loadPayload sampleHmac w = .ok samplePayload ∧
      objectStorageContext sampleHmac w = storageFor sampleTransport := by
  have henv : sampleOrchestrator.environ .taskPayloadSecret = some sampleSecret := rfl
  have hne : sampleSecret ≠ "" := by decide
  have hblank : strip samplePayload ≠ "" := by decide +kernel
  obtain ⟨entries, he, h⟩ :=
    signed_iff_submitted sampleHmac hexDigest_sampleHmac henv hne false hblank sampleTransport
  rw [buildEnvironment_of_environ sampleHmac henv hne] at he
  obtain rfl := Except.ok.inj he
  exact (h _ (resolvePayloadSecret_processOf _ _)).1 (startedWith_processOf _ _)

/-- The secret in a file. -/
def fileOrchestrator : Process where
  environ _ := none
  nomadMeta _ := none
  secretFile := some "/run/secrets/payload"
  files _ := some "s3cret-key\n"

/-- The entries that `fileOrchestrator` submits: a signed payload, settings without a signature. -/
def fileEntries : List (Var × EnvValue) :=
  [(.taskPayload, .value samplePayload),
    (.taskPayloadSig, .value (sampleHmac sampleSecret samplePayload)),
    (.taskPayloadSecret, .value sampleSecret), (.transportMode, .value "object_storage"),
    (.storageBackend, .value "s3"), (.storageBucket, .value "campaigns"),
    (.storagePrefix, .value "out")]

/-- The submitted entries with another mode. -/
def otherMode : List (Var × EnvValue) :=
  (.transportMode, .value "shared_fs") ::
    submittedEntries sampleHmac sampleSecret false samplePayload sampleTransport

/-- The signed settings, sent as the payload with their signature. -/
def settingsAsPayload : List (Var × EnvValue) :=
  [(.taskPayload, .value sampleSettings),
    (.taskPayloadSig, .value (sampleHmac sampleSecret sampleSettings))]

/-- What is submitted with the secret from a file is refused; and two changes are not. -/
theorem secret_file_refused :
    buildEnvironment sampleHmac fileOrchestrator false samplePayload sampleTransport =
        .ok fileEntries ∧
      objectStorageContext sampleHmac (processOf sampleSecret fileEntries) =
        .error (.exception "result-transport settings failed HMAC verification") ∧
      objectStorageContext sampleHmac (processOf sampleSecret otherMode) = .ok none ∧
      loadPayload sampleHmac (processOf sampleSecret settingsAsPayload) = .ok sampleSettings := by
  decide +kernel

end OSimFlow.Executors.PayloadSignature
