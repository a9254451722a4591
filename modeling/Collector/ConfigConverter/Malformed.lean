import Collector.ConfigConverter.LogLevel
import Collector.ConfigConverter.Metrics

/-!
# Malformed configurations

Which configurations make a converter panic.
-/

namespace Collector.ConfigConverter

open Lib Lib.Outcome Confmap

section
variable (unmarshalText : Str → Option LogLevelToVerbosity.Level) (compile : DpFilters.Compilers)
  (unmarshal : Fields → Option DisableKubeletUtilizationMetrics.SignalfxExporterConfig)

def converters : List (Fields → Result Fields) :=
  [Discovery.convert, LogLevelToVerbosity.convert unmarshalText, NormalizeGcp.convert,
    DisableKubeletUtilizationMetrics.convert compile unmarshal, DisableExcessiveInternalMetrics.convert]

structure WellShaped (conf : Fields) : Prop where
  service : ∀ service, find "service".toList (toStringMap conf) = some (.map service) → Discovery.Found service →
    Discovery.WellFormed service (Discovery.elements (find "extensions".toList service))
      (Discovery.elements (find Discovery.discoExtensionsKey service))
      (Discovery.elements (find Discovery.discoReceiversKey service))
  levels : ∀ k ∈ allKeys conf, LogLevelToVerbosity.WellFormed conf k
  jobs : ∀ key ∈ DisableExcessiveInternalMetrics.promScrapeConfigsKeys,
    DisableExcessiveInternalMetrics.WellFormed (lookup conf key)

/-- No converter panics exactly if the configuration has that shape. -/
theorem converters_safe_iff (conf : Fields) :
    (∀ convert ∈ converters unmarshalText compile unmarshal, Safe (convert conf)) ↔ WellShaped conf := by
  have hgcp : Safe (NormalizeGcp.convert conf) := safe_ok _
  have hk : Safe (DisableKubeletUtilizationMetrics.convert compile unmarshal conf) := safe_ok _
  simp only [converters, List.forall_mem_cons, Discovery.safe_convert, LogLevelToVerbosity.safe_convert,
    DisableExcessiveInternalMetrics.safe_convert, hgcp, hk, true_and]
  constructor
  · rintro ⟨hs, hl, hj, -⟩
    exact ⟨hs, hl, hj⟩
  · rintro ⟨hs, hl, hj⟩
    exact ⟨hs, hl, hj, by simp⟩

end

def emptyTelemetry : Fields :=
  [("service", .map [(Discovery.discoReceiversKey, .list [.str "redis"]), ("telemetry", .null)])]

/-- The section is present, so the assertion is made on nil. -/
theorem emptyTelemetry_panics : Discovery.convert emptyTelemetry = .error (.panic (.assertion .null)) := by
  rfl

end Collector.ConfigConverter
