import Interpose.Session

/-!
# Probes

A probe tries a table out: it registers keys, applies the table, resolves every entry, reports on
them, and closes what it opened. A probe without keys, or with one key given twice, is refused
before anything happens.

`Session.probe` puts the session's own host aside; only the loader and the policy are used.
-/

namespace Interpose

variable {σ φ : Type}

/-- Why a probe is refused. -/
inductive ProbeError
  /-- There is nothing to probe. -/
  | noKeys
  /-- The keys cannot be registered. -/
  | registry (error : RegistryError)
  deriving DecidableEq, Repr

namespace ProbeError

/-- The error in words. -/
def message : ProbeError → String
  | noKeys => "no keys to probe"
  | registry error => error.message

/-- The structured form of the error. -/
def details : ProbeError → String
  | noKeys => "NoKeys"
  | registry error => "Registry(" ++ error.details ++ ")"

end ProbeError

/-- What a probe found. The report is from before the modules were closed. -/
structure ProbeReport where
  init : InitReport
  report : Report
  closed : Nat
  deriving DecidableEq, Repr

/-- A probe report as a JSON object. -/
def ProbeReport.toJson (p : ProbeReport) : Json :=
  .object [("init", p.init.toJson), ("entries", .array (p.report.entries.map Snapshot.toJson)),
    ("any_failed", .bool p.report.anyFailed), ("closed", .ofNat p.closed)]

/-- Probes keys with the table in a file, on a host of their own. -/
def Host.probe [Loader σ φ] (keys : List String) (file : TableFile) (h : Host σ φ) :
    Step σ φ (Except ProbeError ProbeReport) :=
  if keys.isEmpty then { result := .error .noKeys, host := h }
  else
    let fresh := { h with registry := .ofKeys keys }
    let first := fresh.init (some file)
    match first.result with
    | .error e => { result := .error (.registry e), host := h }
    | .ok init =>
      let second := first.host.info
      let third := second.host.dispose
      { result := .ok ⟨init, second.result, third.result⟩
        host := third.host
        events := first.events ++ second.events }

/-- Probes keys with the table in a file under observation. -/
def Session.probe [Loader σ φ] (keys : List String) (file : TableFile) (s : Session σ φ) :
    Except ProbeError ProbeReport × Session σ φ :=
  let step := s.host.probe keys file
  (step.result, (s.visible step.events).foldl observe { s with host := step.host })

end Interpose
