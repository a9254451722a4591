import Collector.Lib.CString
import Collector.Value

/-!
# The injection library

`instrumentation/src/main.c`. One buffer holds the lines in turn, and what a line does not overwrite stays.
-/

namespace Collector.Instrumentation

open Lib

def maxLineLength : Nat := 1023

def maxLines : Nat := 50

def bufferSize : Nat := maxLineLength + 1

def allowedEnvVars : List Str :=
  ["OTEL_SERVICE_NAME", "OTEL_EXPORTER_OTLP_ENDPOINT", "OTEL_RESOURCE_ATTRIBUTES", "SPLUNK_PROFILER_ENABLED",
    "SPLUNK_PROFILER_MEMORY_ENABLED", "SPLUNK_METRICS_ENABLED", "JAVA_TOOL_OPTIONS", "NODE_OPTIONS",
    "CORECLR_ENABLE_PROFILING", "CORECLR_PROFILER", "CORECLR_PROFILER_PATH", "DOTNET_ADDITIONAL_DEPS",
    "DOTNET_SHARED_STORE", "DOTNET_STARTUP_HOOKS", "OTEL_DOTNET_AUTO_HOME", "OTEL_DOTNET_AUTO_PLUGINS"].map
    String.toList

def envVarFile (programInvocationShortName : Str) : Option Str :=
  if programInvocationShortName = "dotnet" then some "/etc/splunk/zeroconfig/dotnet.conf"
  else if programInvocationShortName = "java" then some "/etc/splunk/zeroconfig/java.conf"
  else if programInvocationShortName = "node" then some "/etc/splunk/zeroconfig/node.conf"
  else none

def nul : Char := Char.ofNat 0

/-- `char buffer[buffer_size]`, before anything is written to it. -/
structure Buffer where
  bytes : Str
  size : bytes.length = bufferSize

abbrev Env := Str → Option Str

def setenv (env : Env) (key value : Str) : Env :=
  if (env key).isSome then env else Function.update env key (some value)

/-- The end of the loop's body. `beyond` is the memory after the buffer. -/
def injectLine (beyond buffer : Str) (env : Env) : Str × Env :=
  if (CString.string nul buffer).length = 0 then (buffer, env)
  else if buffer.head? = some '#' then (buffer, env)
  else
    match CString.memchr buffer '=' with
    | none => (buffer, env)
    | some equals =>
      let buffer := buffer.set equals nul
      let key := CString.string nul buffer
      let value := CString.string nul (buffer.drop (equals + 1) ++ beyond)
      if ' ' ∈ key then (buffer, env)
      else if key ∈ allowedEnvVars then (buffer, setenv env key value)
      else (buffer, env)

def readLines (beyond : Str) (lines : Nat) (buffer fp : Str) (env : Env) : Env :=
  match CString.fgets nul '\n' buffer fp with
  | none => env
  | some (buffer, fp) =>
    match lines with
    | 0 => env
    | lines + 1 =>
      match CString.memchr buffer '\n' with
      | none => env
      | some newline =>
        let (buffer, env) := injectLine beyond (buffer.set newline nul) env
        readLines beyond lines buffer fp env

def enter (programInvocationShortName : Str) (files : Str → Option Str) (buffer : Buffer) (beyond : Str)
    (env : Env) : Env :=
  match envVarFile programInvocationShortName with
  | none => env
  | some path =>
    match files path with
    | none => env
    | some fp => readLines beyond maxLines buffer.bytes fp env

end Collector.Instrumentation
