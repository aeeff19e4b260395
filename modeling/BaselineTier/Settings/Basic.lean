/-
  BaselineTier.Settings.Basic — the limits of the compiler and the machine.

  Every limit has a default. Settings are valid when something can be compiled under them
  at all: scripts and the code pool may have a positive size, and if a method may have a
  site then there is room for a stub.
-/

namespace BaselineTier

structure Settings where
  /-- Longer scripts, in bytes, are not compiled. -/
  maxScriptLength : Nat := 0x100000
  /-- Inline-cache sites of one method. -/
  maxSites : Nat := 0x10000
  /-- Stubs of one method. -/
  maxStubs : Nat := 0x10000
  /-- Instructions in the shared code pool. -/
  codePool : Nat := 0x1000000
  /-- Activations that may be nested. -/
  maxDepth : Nat := 1000
  /-- Whether the whole operand stack is written out before every instruction. -/
  debugMode : Bool := false
deriving DecidableEq, Repr, Inhabited

inductive SettingsError where
  /-- The document is not one of settings. -/
  | malformed
  | invalid (field reason : String)
deriving DecidableEq, Repr

namespace SettingsError

def message : SettingsError → String
  | malformed => "Invalid TOML"
  | invalid field reason => s!"Invalid value for `{field}`: {reason}"

end SettingsError

namespace Settings

/-- The first limit that leaves no room to compile anything. -/
def check (s : Settings) : Except SettingsError Unit :=
  if s.maxScriptLength = 0 then .error (.invalid "max_script_length" "must be positive")
  else if s.codePool = 0 then .error (.invalid "code_pool_limit" "must be positive")
  else if s.maxStubs < min s.maxSites 1 then
    .error (.invalid "stub_space_limit" "must hold at least one fallback stub")
  else .ok ()

def inspect (s : Settings) : String :=
  "JitConfig \x7b max_script_length: " ++ toString s.maxScriptLength ++ ", max_ic_entries: " ++ toString s.maxSites ++
    ", stub_space_limit: " ++ toString s.maxStubs ++ ", code_pool_limit: " ++ toString s.codePool ++
    ", max_native_depth: " ++ toString s.maxDepth ++ ", debug_mode: " ++ toString s.debugMode ++ " \x7d"

end Settings
end BaselineTier
