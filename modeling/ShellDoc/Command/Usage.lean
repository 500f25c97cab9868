import ShellDoc.Text.Lines

/-!
# Help texts

The help of the program and of each of its commands, as printed in eighty columns.  The usage is the
part of a help text in front of its first empty line.
-/

namespace ShellDoc.Command

/-- The program itself, or one of its commands. -/
inductive Topic where
  | program
  | generate
  | inspect
  | config
  deriving DecidableEq, Repr

namespace Topic

/-- The words that call it. -/
def call : Topic → Text
  | program => "shocker"
  | generate => "shocker generate"
  | inspect => "shocker inspect"
  | config => "shocker config"

def helpLines : Topic → List Text
  | program =>
      ["usage: shocker [-h] [--version] [-v] [-q] [--log-format \x7bhuman,json\x7d]",
       "               [--config CONFIG]",
       "               \x7bgenerate,inspect,config\x7d ...",
       "",
       "Shocker - Markdown documentation from shell script DocBlocks",
       "",
       "positional arguments:",
       "  \x7bgenerate,inspect,config\x7d",
       "                        Available commands",
       "    generate            Generate Markdown documentation",
       "    inspect             Show the DocBlocks of a script",
       "    config              Show the effective configuration",
       "",
       "options:",
       "  -h, --help            show this help message and exit",
       "  --version             show program's version number and exit",
       "  -v, --verbose         Increase verbosity (can be repeated)",
       "  -q, --quiet           Suppress non-essential output",
       "  --log-format \x7bhuman,json\x7d",
       "                        Log output format (default: human)",
       "  --config CONFIG       Configuration file (.json, .yaml or .yml)"]
  | generate =>
      ["usage: shocker generate [-h] [-t TITLE] [-f] [-o OUTPUT] [-x] [-c COPYRIGHT]",
       "                        [-C] [-T] [--json]",
       "                        path",
       "",
       "Generate Markdown from the DocBlocks of a script, or of every script in a",
       "directory.",
       "",
       "positional arguments:",
       "  path                  Script file or directory of scripts",
       "",
       "options:",
       "  -h, --help            show this help message and exit",
       "  -t TITLE, --title TITLE",
       "                        File heading, or table of contents heading for",
       "                        directories",
       "  -f, --force           Overwrite existing output files",
       "  -o OUTPUT, --output OUTPUT",
       "                        Output file, or output directory",
       "  -x, --keep-extension  Keep file extensions in headings",
       "  -c COPYRIGHT, --copyright COPYRIGHT",
       "                        Copyright statement appended to every page",
       "  -C, --capitalize      Capitalize file names and headings",
       "  -T, --toc             Write a table of contents for directory runs",
       "  --json                Output results in JSON format"]
  | inspect =>
      ["usage: shocker inspect [-h] [--json] file",
       "",
       "Parse a script and list its DocBlocks without writing files.",
       "",
       "positional arguments:",
       "  file        Script file to inspect",
       "",
       "options:",
       "  -h, --help  show this help message and exit",
       "  --json      Output in JSON format"]
  | config =>
      ["usage: shocker config [-h] [--json]",
       "",
       "Show configuration after applying files and environment.",
       "",
       "options:",
       "  -h, --help  show this help message and exit",
       "  --json      Output in JSON format"]

def help (t : Topic) : Text := Text.ofLines t.helpLines

def usage (t : Topic) : Text := Text.ofLines (t.helpLines.takeWhile (· ≠ []))

end Topic

/-- The version of the program, as it prints it. -/
def versionLine : Text := "shocker 1.0.0"

end ShellDoc.Command
