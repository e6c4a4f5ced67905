/-!
# Sample settings
-/

namespace Lockstep.Settings

/-- A settings file with every setting, as an example. -/
def sample : String :=
  "# uop-emu configuration
# Place this file at ~/.config/uop-emu/config.toml or ./uop-emu.toml

# Log every executed instruction (same as TRACE=1)
trace = false

# Emulated hardware target: \"metal\" or \"hip\" (same as EMULATE_METAL=1 / EMULATE_HIP=1)
# emulate = \"metal\"

# Directory of kernel manifests run by `uop-emu suite`
# manifest_dir = \"manifests\"
"

end Lockstep.Settings
