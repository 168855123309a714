/-!
This module contains the configuration file that a new user starts from. It says what every setting
means, and its values are the defaults.
-/

namespace Enclosure.Configuration

def exampleLines : List String := [
  "# confine configuration",
  "#",
  "# Every key can also be set through the environment, e.g.",
  "# CONFINE_MAX_PARALLEL_SANDBOXES=8",
  "",
  "# Path to the confine-supervisor binary.",
  "# Defaults to confine-supervisor next to the current executable, then PATH.",
  "# supervisor_path = \"/usr/local/bin/confine-supervisor\"",
  "",
  "# Delegated cgroup v2 directory under which each supervisor creates its tree.",
  "# It must be writable by the user running confine, have the pids, memory and",
  "# cpu controllers available, and hold no processes of its own.",
  "# Defaults to the cgroup of the spawning process, which only qualifies at the",
  "# top of the hierarchy, so most setups have to set this.",
  "# cgroup_root = \"/sys/fs/cgroup/user.slice/user-1000.slice/user@1000.service/confine\"",
  "",
  "# How many sandboxes one supervisor runs at the same time; further requests queue.",
  "max_parallel_sandboxes = 4",
  "",
  "# How long to wait for the supervisor to exit on shutdown before killing it.",
  "shutdown_timeout_ms = 1000"]

def exampleText : String :=
  String.join (exampleLines.map (· ++ "\n"))

end Enclosure.Configuration
