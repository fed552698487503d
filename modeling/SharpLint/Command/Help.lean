import SharpLint.Command.Arguments

/-!
# Help

## Main definitions

* `Topic.lines`: what is printed when help is asked for.
* `versionLine`: the name and the version of the program.
-/

namespace SharpLint

/-- The version of the program. -/
def version : String := "0.3.0"

/-- The name and the version of the program. -/
def versionLine : String := "dslint " ++ version

/-- What is printed when help about the topic is asked for, line by line. -/
def Topic.lines : Topic → List String
  | .program => [
    "Constructor and field analyzers with code fixes for C#",
    "",
    "Usage: dslint <COMMAND>",
    "",
    "Commands:",
    "  check   Analyze C# sources",
    "  config  Show or create configuration",
    "  help    Print this message or the help of the given subcommand(s)",
    "",
    "Options:",
    "  -h, --help     Print help",
    "  -V, --version  Print version"]
  | .check => [
    "Analyze C# sources",
    "",
    "Usage: dslint check [OPTIONS] [PATH]",
    "",
    "Arguments:",
    "  [PATH]  File or directory to check (default: current directory) [default: .]",
    "",
    "Options:",
    "  -f, --fix              Apply every available fix and write the files back",
    "      --format <FORMAT>  Output format [default: default] [possible values: default, json, github]",
    "      --strict           Exit with code 1 if any issues remain",
    "  -h, --help             Print help"]
  | .config => [
    "Show or create configuration",
    "",
    "Usage: dslint config [OPTIONS]",
    "",
    "Options:",
    "      --show  Show the effective configuration",
    "      --init  Write a default .dslint.toml in the current directory",
    "  -h, --help  Print help"]
  | .help => [
    "Print this message or the help of the given subcommand(s)",
    "",
    "Usage: dslint help [COMMAND]...",
    "",
    "Arguments:",
    "  [COMMAND]...  Print help for the subcommand(s)"]

end SharpLint
