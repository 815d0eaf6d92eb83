/-
The texts that the command line shows about itself.
-/
import ProtoPhp.Output.Assembly

namespace ProtoPhp.Command

/-- The name and the version of the program. -/
def versionText : String := "protoc-gen-php " ++ version ++ "\n"

/-- The summary of the options. -/
def shortHelp : String := String.join ([
  "Generates PHP message classes from protobuf descriptors",
  "",
  "Usage: protoc-gen-php [OPTIONS] [PROTO_FILES]...",
  "",
  "Arguments:",
  "  [PROTO_FILES]...  Names of the files in the descriptor set to generate code for. " ++
    "Defaults to all files",
  "",
  "Options:",
  "      --descriptor-set <PATH>  Generate code from an encoded file descriptor set instead of " ++
    "a plugin request [alias: --descriptor_set_in]",
  "  -o, --output <PATH>          The directory in which to write generated files, when reading " ++
    "a descriptor set [default: .]",
  "  -p, --parameter <PARAMS>     Generator parameters, e.g. 'multifile,suffix=.inc.php'",
  "  -h, --help                   Print help (see more with '--help')",
  "  -V, --version                Print version"].map (· ++ "\n"))

/-- The description of the program and its options. -/
def longHelp : String := String.join ([
  "Generates PHP message classes from protobuf descriptors.",
  "",
  "When run without arguments, acts as a protoc plugin: a code generator request is read from " ++
    "stdin and the response is written to stdout.",
  "",
  "Usage: protoc-gen-php [OPTIONS] [PROTO_FILES]...",
  "",
  "Arguments:",
  "  [PROTO_FILES]...",
  "          Names of the files in the descriptor set to generate code for. Defaults to all files",
  "",
  "Options:",
  "      --descriptor-set <PATH>",
  "          Generate code from an encoded file descriptor set instead of a plugin request",
  "          ",
  "          [alias: --descriptor_set_in]",
  "",
  "  -o, --output <PATH>",
  "          The directory in which to write generated files, when reading a descriptor set",
  "          ",
  "          [default: .]",
  "",
  "  -p, --parameter <PARAMS>",
  "          Generator parameters, e.g. 'multifile,suffix=.inc.php'",
  "",
  "  -h, --help",
  "          Print help (see a summary with '-h')",
  "",
  "  -V, --version",
  "          Print version"].map (· ++ "\n"))

end ProtoPhp.Command
