/-! # Usage

What the program says of itself: its name and version, and how to call it.
-/

namespace Phrasebook.CommandLine

def versionText : String := "glider 0.1.0\n"

def usageText : String :=
  "Compile JSON translation files into typed, fallback-aware TypeScript accessor functions\n\n" ++
  "Usage: glider [COMMAND]\n\n" ++
  "Commands:\n" ++
  "  compile  Generate TypeScript accessor functions from the message files\n" ++
  "             -i, --input <DIR>        Messages directory (overrides config file)\n" ++
  "             -v, --verbose            Enable verbose output\n" ++
  "             -o, --output <DIR>       Output directory (overrides config file)\n" ++
  "             -l, --locales <LOCALES>  Comma-separated locales (overrides config file)\n" ++
  "             --no-validate            Skip translation completeness checks\n" ++
  "             --no-namespaces          Do not generate namespace objects\n" ++
  "  check    Check that every locale has every translation\n" ++
  "             -i, --input <DIR>        Messages directory (overrides config file)\n" ++
  "             -v, --verbose            Enable verbose output\n" ++
  "  info     Show the resolved configuration\n" ++
  "  init     Initialize a new glider.config.json configuration file\n" ++
  "             -d, --dir <DIR>          Directory to create the config file in\n" ++
  "  lookup   Print what the accessor for a message returns\n" ++
  "             <PATH>                   Message path\n" ++
  "             -g, --group <GROUP>      Message group, relative to the messages directory\n" ++
  "             --lang <LANG>            Locale passed explicitly to the accessor\n" ++
  "             --current-locale <LOCALE>\n" ++
  "                                      Ambient locale used when `--lang` is not given\n" ++
  "             -p, --param <NAME=VALUE> Parameter value, may be repeated\n" ++
  "  help     Print this message\n\n" ++
  "Options:\n" ++
  "  -h, --help     Print help\n" ++
  "  -V, --version  Print version\n"

/-- What is said of a call that cannot be understood. -/
def faultText : String := "error: unexpected arguments\n\nFor more information, try '--help'.\n"

end Phrasebook.CommandLine
