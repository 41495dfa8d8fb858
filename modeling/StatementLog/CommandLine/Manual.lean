import StatementLog.CommandLine.Options

namespace StatementLog.CommandLine

namespace Manual

def programName : String :=
  "streamcmd"

def version : List String :=
  [programName ++ " 0.1.0"]

def usage : String :=
  "Usage: " ++ programName ++ " [OPTIONS] --log-file <LOG_FILE>"

def summary : List String :=
  ["Durable command log and command runner for a distributed streaming SQL control plane",
   "",
   usage,
   "",
   "Options:",
   "      --log-file <LOG_FILE>      Command log file; created if missing",
   "      --config <CONFIG>          JSON config file",
   "      --timeout-ms <TIMEOUT_MS>  How long to wait for each statement, overriding the config",
   "      --topics <TOPICS>          Topics that already exist on the broker",
   "  -h, --help                     Print help (see more with '--help')",
   "  -V, --version                  Print version"]

def help : List String :=
  ["Runs one node against a file-backed command log.",
   "",
   "Statements are read from stdin, one per line. Each one is appended to the log and its final " ++
     "status printed. `TERMINATE CLUSTER` stops the node.",
   "",
   usage,
   "",
   "Options:",
   "      --log-file <LOG_FILE>",
   "          Command log file; created if missing",
   "",
   "      --config <CONFIG>",
   "          JSON config file",
   "",
   "      --timeout-ms <TIMEOUT_MS>",
   "          How long to wait for each statement, overriding the config",
   "",
   "      --topics <TOPICS>",
   "          Topics that already exist on the broker",
   "",
   "  -h, --help",
   "          Print help (see a summary with '-h')",
   "",
   "  -V, --version",
   "          Print version"]

end Manual

def Detour.lines : Detour → List String
  | .help => Manual.help
  | .summary => Manual.summary
  | .version => Manual.version
  | .usage => []

def Detour.exitCode : Detour → Nat
  | .usage => 2
  | _ => 0

end StatementLog.CommandLine
