import QeliSsPlugin.Opts.PluginOpts

/-!
# The standalone configuration

Without `ss-local` and `ss-server` the plugin takes its role, its two addresses and its options from a
JSON file. `serde_json` reads the file into a `StandaloneFile`; `parse_standalone_config` checks and
copies it field by field. What the code calls outside the repository is collected in `Env`: the reader
of the file, `parse_pubkey_hex`, the parser of socket addresses and the system's resolver.
-/

namespace QeliSsPlugin.Opts

open Handshake Lib

/-- The JSON file. -/
structure StandaloneFile where
  role : Option String
  listen : String
  remote : String
  password : Option String
  sni : Option String
  serverkey : Option String
  key : Option String
  ping : Option UInt32
  timeout : Option UInt64

structure Env where
  parsePubkeyHex : String → Option Key32
  SocketAddr : Type
  /-- `serde_json::from_str`. -/
  fromStr : String → Except String StandaloneFile
  /-- `str::parse`. -/
  parseAddr : String → Option SocketAddr
  /-- `str::to_socket_addrs`. -/
  toSocketAddrs : String → Except String (List SocketAddr)

structure StandaloneConfig (env : Env) where
  role : Role
  listen : env.SocketAddr
  remote : env.SocketAddr
  opts : PluginOpts

/-- `str::to_ascii_lowercase`. -/
def toAsciiLowercase (s : String) : String := .ofList (s.toList.map Char.toLower)

/-- The role of the file; client is the default. -/
def parseRole (role : Option String) : Except String Role :=
  match role.map fun r => toAsciiLowercase (trim r) with
  | none | some "client" => .ok .client
  | some "server" => .ok .server
  | some other => .error ("role must be \"client\" or \"server\", got \"" ++ other ++ "\"")

/-- `if let Some(x) = … { … }`: change the options if the field is there. -/
def ifLet {α : Type} (field : Option α) (opts : PluginOpts)
    (f : PluginOpts → α → Except String PluginOpts) : Except String PluginOpts :=
  match field with
  | some x => f opts x
  | none => .ok opts

namespace Env

variable (env : Env)

/-- Resolve `host:port`. -/
def resolve (host : String) (port : ℕ) (what : String) : Except String env.SocketAddr :=
  let host := trim host
  let host :=
    if host = "" then "127.0.0.1"
    else if ':' ∈ host.toList ∧ host.toList.head? ≠ some '[' then "[" ++ host ++ "]"
    else host
  let addrStr := host ++ ":" ++ port.repr
  match env.toSocketAddrs addrStr with
  | .error e => .error ("failed to resolve " ++ what ++ " (" ++ addrStr ++ "): " ++ e)
  | .ok [] => .error ("no addresses for " ++ what ++ " (" ++ addrStr ++ ")")
  | .ok (addr :: _) => .ok addr

/-- Parse an address of the configuration: a literal, or a host name to resolve. -/
def parseConfigAddr (value what : String) : Except String env.SocketAddr :=
  let value := trim value
  match env.parseAddr value with
  | some addr => .ok addr
  | none =>
    match Text.rsplitOnce ':' value.toList with
    | none => .error (what ++ " must be host:port, got '" ++ value ++ "'")
    | some (host, port) =>
      if ':' ∈ host then
        .error (what ++ ": a bare IPv6 literal is ambiguous — bracket it, e.g. " ++
          "\"[2001:db8::1]:8443\" (got '" ++ value ++ "')")
      else
        match parseUint UInt16.size (.ofList port) with
        | some port => env.resolve (.ofList host) port what
        | none => .error (what ++ ": invalid port '" ++ .ofList port ++ "'")

/-- **Parse a standalone configuration.** -/
def parseStandaloneConfig (text : String) : Except String (StandaloneConfig env) := do
  let file ← (env.fromStr text).mapError ("invalid standalone config: " ++ ·)
  let role ← parseRole file.role
  let opts : PluginOpts := { role := role }
  let opts ← ifLet file.password opts fun opts password => .ok { opts with password := password }
  let opts ← ifLet file.sni opts fun opts sni => do
    validateSni sni
    return { opts with sni := sni }
  let opts ← ifLet file.serverkey opts fun opts hex => do
    let key ← parseKey env.parsePubkeyHex "serverkey" hex
    return { opts with serverPublicKey := some key }
  let opts ← ifLet file.key opts fun opts hex => do
    let key ← parseKey env.parsePubkeyHex "key" hex
    return { opts with serverPrivateKey := some key }
  let opts ← ifLet file.ping opts fun opts ping => .ok { opts with pingSecs := ping }
  let opts ← ifLet file.timeout opts fun opts timeout =>
    if timeout = 0 then .error "timeout must be at least 1 second"
    else .ok { opts with dialTimeoutSecs := timeout }
  validateOpts opts
  let listen ← env.parseConfigAddr file.listen "listen"
  let remote ← env.parseConfigAddr file.remote "remote"
  return ⟨role, listen, remote, opts⟩

end Env

end QeliSsPlugin.Opts
