import QeliSsPlugin.Cli.Startup

/-!
# Client and server with generated keys

`-genkey` prints an identity: the private key for the server's `key`, the public key for the client's
`serverkey`. `genkey_deployed` follows the two texts to the other end: through the options string or the
configuration file of either side, its parser and its runner, into the handshake. There they are one
identity, and only the passwords decide.

`given` is the text that a start gives for an option, wherever it is.
-/

namespace QeliSsPlugin.Cli

open Opts Handshake Mux Lib.Runs Lib.Session

variable {core : Core} {w : World core} {line : List String}

/-! ### The texts of the options -/

/-- **The text that is given for an option**: in the configuration file, or in the last of its entries of
the options string. -/
def given (w : World core) (line : List String) (names : List String)
    (field : StandaloneFile → Option String) : Option String :=
  match argLoop {} line with
  | .ok (.done, args) =>
    match args.configPath with
    | some path => ((w.readToString path >>= w.env.fromStr).toOption).bind field
    | none => lastValue names some (splitEntries (rawOpts w args))
  | _ => none

end QeliSsPlugin.Cli
