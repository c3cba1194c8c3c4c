/-!
# Help

How the command is used, in three lines for a mistaken command line and in full for whoever asks.
-/

namespace Offside.Cli

/-- How the command is called. -/
def usage : String := "usage: myac [-h] [--example] [--tokens] [--scope-ledger] [--outline]
            [--canonical] [--tab-width TAB_WIDTH] [-v | -q]
            [source_file]
"

/-- What the command and each of its switches do. -/
def help : String := usage ++ "
Preprocess a MYA source file into INDENT/DEDENT tokens.

positional arguments:
  source_file           Path to the MYA source file

options:
  -h, --help            show this help message and exit
  --example             Use the built-in example program instead of a file
  --tokens              Display preprocessed tokens
  --scope-ledger        Display the scope ledger used for lateral navigation
  --outline             Parse the source and list every block-opening
                        statement
  --canonical           Print the source re-indented with four spaces per
                        scope
  --tab-width TAB_WIDTH
                        Width of a tab character in columns (default: 4)
  -v, --verbose         Debug logging
  -q, --quiet           Only log errors

Examples:
  myac program.mya --tokens            # Show preprocessed tokens
  myac program.mya --scope-ledger      # Show the scope ledger
  myac program.mya --outline           # Parse and list block headers
  myac --example --tokens              # Run on the built-in example program
  myac program.mya --tab-width 8       # Count tabs as 8 columns
        \n"

end Offside.Cli
