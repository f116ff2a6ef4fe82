import PqcReadiness.Report

/-!
# Capability against configuration, per protocol

`gap.py` joins what a host can do with what it is set up to do into one state
per protocol.  Each judgement comes with the report paths that decided it.

`classify` is the table every verdict goes through, for protocols, services,
clients and observed endpoints alike.
-/

namespace PqcReadiness.Gap

open Lib

/-- The state of a protocol, service or client. -/
inductive State where
  | deployed
  | capableNotConfigured
  | configuredNotCapable
  | notCapable
  | unknown
  | notPresent
  deriving DecidableEq

/-- The name of a state in the report. -/
def State.name : State → String
  | deployed => "deployed"
  | capableNotConfigured => "capable_not_configured"
  | configuredNotCapable => "configured_not_capable"
  | notCapable => "not_capable"
  | unknown => "unknown"
  | notPresent => "not_present"

/-- The position of a state in `STATES`. -/
def State.index : State → ℕ
  | deployed => 0
  | capableNotConfigured => 1
  | configuredNotCapable => 2
  | notCapable => 3
  | unknown => 4
  | notPresent => 5

/-- The two states that are reported as gaps. -/
def State.isGap (state : State) : Bool :=
  state = .capableNotConfigured || state = .configuredNotCapable

/-- State for one protocol or service from its two judgements. -/
def classify : Option Bool → Option Bool → State
  | some true, some true => .deployed
  | some true, some false => .capableNotConfigured
  | some true, none => .unknown
  | some false, some true => .configuredNotCapable
  | some false, _ => .notCapable
  | none, _ => .unknown

/-- A verdict with the report paths that decided it. -/
structure Verdict where
  state : State
  capable : Option Bool
  configured : Option Bool
  capableFrom : List String
  configuredFrom : List String
  note : Option String

/-- `_verdict`, for something that is on the host or not. -/
def verdict (capable configured : Option Bool) (capableFrom configuredFrom : List String)
    (note : Option String) (isPresent : Bool) : Verdict :=
  if isPresent then
    ⟨classify capable configured, capable, configured, capableFrom, configuredFrom, note⟩
  else ⟨.notPresent, none, none, [], [], note⟩

/-! ## Per-protocol judgements -/

/-- `bool(groups.get("hybrid") or groups.get("pure_pqc"))`. -/
def offersPqc (groups : List (String × Json)) : Bool :=
  (Json.get groups "hybrid").truthy || (Json.get groups "pure_pqc").truthy

/-- Whether the system TLS library can negotiate a PQC key exchange. -/
def tlsCapable (report : Report) : Option Bool × List String :=
  let o := report.openssl
  match o.available, o.tlsGroups with
  | true, .obj groups => (some (offersPqc groups), ["openssl.tls_groups"])
  | _, _ =>
      match o.pqcNative.asBool with
      | some native => (some native, ["openssl.pqc_native"])
      | none =>
          -- Offline scans infer it from the packaged OpenSSL version.
          match o.pqcNativeExpected.asBool with
          | some expected => (some expected, ["openssl.pqc_native_expected"])
          | none => (none, [])

/-- Whether the system default offers a PQC TLS key exchange. -/
def tlsConfigured (report : Report) : Option Bool × List String :=
  match report.cryptoPolicy.tlsKeyExchange.asBool with
  | some v => (some v, ["crypto_policy.pqc_enabled.tls_key_exchange"])
  | none =>
      match report.openssl.pqcKeyExchangeByDefault.asBool with
      | some v => (some v, ["openssl.config.pqc_key_exchange_by_default"])
      | none => (none, [])

/-- Whether the installed OpenSSH build supports a PQC key exchange. -/
def sshCapable (report : Report) : Option Bool × List String :=
  match report.sshd.opensshSupportsPqcKex.asBool with
  | some v => (some v, ["sshd.openssh_supports_pqc_kex"])
  | none =>
      match report.sshPqc.kexGroups with
      | .obj kex => (some (offersPqc kex), ["ssh_pqc.kex_groups"])
      | _ => (none, [])

/-- Whether sshd offers a PQC key exchange. -/
def sshConfigured (report : Report) : Option Bool × List String :=
  match report.sshd.pqcOffered.asBool with
  | some v => (some v, ["sshd.pqc_offered"])
  | none =>
      match report.cryptoPolicy.sshKeyExchangeServer.asBool with
      | some v => (some v, ["crypto_policy.pqc_enabled.ssh_key_exchange_server"])
      | none => (none, [])

/-- Whether the IKE implementation supports ML-KEM. -/
def ikeCapable (report : Report) : Option Bool × List String :=
  if report.ipsecPqc.available then
    match report.ipsecPqc.pqc.asBool with
    | some v => (some v, ["ipsec_pqc.pqc"])
    | none => (none, [])
  else (none, [])

/-- Whether the configured IKE proposals offer ML-KEM. -/
def ikeConfigured (report : Report) : Option Bool × List String :=
  -- The configured proposals say more than the policy.
  if report.ipsecPqc.connections ≠ 0 then
    (some (report.ipsecPqc.connectionsOfferingPqc ≠ 0),
      ["ipsec_pqc.configured.summary.connections_offering_pqc"])
  else
    match report.cryptoPolicy.ikeKeyExchange.asBool with
    | some v => (some v, ["crypto_policy.pqc_enabled.ike_key_exchange"])
    | none => (none, [])

/-! ## Report-level verdicts -/

/-- `_tls`. -/
def tls (report : Report) : Verdict :=
  let o := report.openssl
  verdict (tlsCapable report).1 (tlsConfigured report).1 (tlsCapable report).2
    (tlsConfigured report).2 none (o.available || !o.pqcNativeExpected.isNull)

/-- The hint of an unreadable sshd configuration. -/
def permissionHint : String := "run as root or with CAP_DAC_READ_SEARCH"

/-- `_ssh`. -/
def ssh (report : Report) : Verdict :=
  let sshd := report.sshd
  let note :=
    if (sshConfigured report).1 = some true ∧ sshd.pqcFirst.asBool = some false then
      some ("PQC offered, but " ++ optionText sshd.firstKex ++ " is preferred first")
    else if sshd.unreadable ∧
        (!sshd.available ∨ sshd.kexSource = some "unreadable-config") then
      some ("sshd configuration not readable by this user; " ++ permissionHint)
    else none
  verdict (sshCapable report).1 (sshConfigured report).1 (sshCapable report).2
    (sshConfigured report).2 note
    -- A configuration that cannot be read means that sshd is there.
    (sshd.available || sshd.unreadable || report.sshPqc.available)

/-- `_ipsec`. -/
def ipsec (report : Report) : Verdict :=
  let o := report.ipsecPqc
  let note :=
    if o.mismatchConnections ≠ [] then
      some ("connections the installed stack can't load: " ++ join ", " o.mismatchConnections)
    else none
  verdict (ikeCapable report).1 (ikeConfigured report).1 (ikeCapable report).2
    (ikeConfigured report).2 note (o.available || o.connections ≠ 0)

/-- The verdicts of the three protocols. -/
structure Protocols where
  tls : Verdict
  ssh : Verdict
  ipsec : Verdict

/-- The protocol verdicts of a report. -/
def protocols (report : Report) : Protocols := ⟨tls report, ssh report, ipsec report⟩

end PqcReadiness.Gap
