import QeliSsPlugin.Cli.Args
import QeliSsPlugin.Handshake.Agreement
import QeliSsPlugin.Opts.Sip003

/-!
# Starting the plugin

`main` from the command line to the accept loop of a client or a server. The options and the addresses come
from the configuration file of `-c`, or from the options string and the environment; a role flag goes before
both.

* `started_sound`: whatever it is started with, what runs has the role of the flag, a password, a server
  name that the hello builder takes, and a timeout;
* `starts_agree`: the same values start the same process, from a configuration file or from the
  environment.
-/

namespace QeliSsPlugin.Cli

open Opts Handshake Mux

variable {core : Core}

/-- What a process is started in, and what else it calls that is not its own. -/
structure World (core : Core) where
  env : Env
  /-- `std::env::var`. -/
  var : String → Option String
  /-- `std::fs::read_to_string`. -/
  readToString : String → Except String String
  /-- `TcpListener::bind`. -/
  bind : env.SocketAddr → Except String Unit
  /-- What `StaticKeypair::generate` returns. -/
  generate : core.StaticKeypair
  privateBytes : core.StaticKeypair → Key32
  fromPrivateBytes : Key32 → core.StaticKeypair

structure ClientTunnelConfig (env : Env) where
  remote : env.SocketAddr
  password : String
  sni : String
  serverPublicKey : Option Key32
  pingSecs : UInt32
  dialTimeout : UInt64

def ClientTunnelConfig.fromOpts {env : Env} (opts : PluginOpts) (sip : Sip003 env) :
    ClientTunnelConfig env :=
  ⟨sip.remote, opts.password, opts.sni, opts.serverPublicKey, opts.pingSecs, opts.dialTimeoutSecs⟩

structure ServerConfig (core : Core) (env : Env) where
  staticKp : core.StaticKeypair
  password : String
  destination : env.SocketAddr
  pingSecs : UInt32
  dialTimeout : UInt64

/-- The digits of `to_hex`. -/
def hexTable : List Char := "0123456789abcdef".toList

/-- The two digits of a byte. -/
def hexPair (byte : UInt8) : List Char :=
  [hexTable.getD (byte >>> 4).toNat '0', hexTable.getD (byte &&& 0x0F).toNat '0']

/-- Lowercase hex. -/
def toHex (bytes : Bytes) : String := .ofList (bytes.flatMap hexPair)

/-- What a process gets to. -/
inductive Outcome (w : World core)
  | help
  | version
  /-- The two keys are printed. -/
  | genkey (privateKey publicKey : String)
  /-- `client::run` is in its accept loop. -/
  | client (listen : w.env.SocketAddr) (config : ClientTunnelConfig w.env)
  /-- `server::run` is in `serve`. -/
  | server (listen : w.env.SocketAddr) (config : ServerConfig core w.env)
  /-- The `debug_assert_eq!` of a runner fails. -/
  | assertFailed

variable (w : World core)

/-- `client::run`, up to its accept loop. -/
def runClient (opts : PluginOpts) (sip : Sip003 w.env) : Except String (Outcome w) :=
  if opts.role ≠ .client then .ok .assertFailed
  else do
    w.bind sip.localAddr
    return .client sip.localAddr (.fromOpts opts sip)

/-- The identity of a server. -/
def staticKp (opts : PluginOpts) : core.StaticKeypair :=
  match opts.serverPrivateKey with
  | some bytes => w.fromPrivateBytes bytes
  | none => w.generate

/-- `server::run`, up to `serve`. -/
def runServer (opts : PluginOpts) (sip : Sip003 w.env) : Except String (Outcome w) :=
  if opts.role ≠ .server then .ok .assertFailed
  else do
    w.bind sip.remote
    return .server sip.remote
      ⟨staticKp w opts, opts.password, sip.localAddr, opts.pingSecs, opts.dialTimeoutSecs⟩

/-- The runner of a role. -/
def run (role : Role) (opts : PluginOpts) (sip : Sip003 w.env) : Except String (Outcome w) :=
  match role with
  | .client => runClient w opts sip
  | .server => runServer w opts sip

/-- The options string. -/
def rawOpts (args : Args) : String := (args.optsArg.or (w.var "SS_PLUGIN_OPTIONS")).getD ""

/-- `main` after the argument loop. -/
def start (args : Args) : Except String (Outcome w) :=
  if args.genkey then
    .ok (.genkey (toHex (w.privateBytes w.generate)) (toHex (core.staticPublic w.generate)))
  else
    match args.configPath with
    | some path => do
      let text ← (w.readToString path).mapError ("failed to read config " ++ path ++ ": " ++ ·)
      let config ← w.env.parseStandaloneConfig text
      let role := args.roleFlag.getD config.role
      let opts := { config.opts with role := role }
      run w role opts (standaloneSip003 { config with role := role, opts := opts })
    | none => do
      let opts ← parsePluginOpts w.env.parsePubkeyHex (rawOpts w args)
      let opts := { opts with role := args.roleFlag.getD opts.role }
      let sip ← w.env.sip003FromEnv w.var
      run w opts.role opts sip

/-- **The program.** -/
def main (line : List String) : Except String (Outcome w) := do
  let (finish, args) ← argLoop {} line
  match finish with
  | .help => return .help
  | .version => return .version
  | .done => start w args

variable {w} {args args' : Args} {line : List String} {o : Outcome w}

/-! ### What is started -/

/-- What a start with these arguments may come to. -/
def Outcome.Sound (args : Args) : Outcome w → Prop
  | .help | .version | .genkey _ _ => True
  | .client _ config => args.roleFlag ≠ some .server ∧ config.password ≠ "" ∧
      validateSni config.sni = .ok () ∧ config.dialTimeout ≠ 0
  | .server _ config => args.roleFlag ≠ some .client ∧ config.password ≠ "" ∧
      config.dialTimeout ≠ 0
  | .assertFailed => False

/-- A runner of the role of its options runs with them. -/
theorem run_cases {opts : PluginOpts} {sip : Sip003 w.env} (h : run w opts.role opts sip = .ok o) :
    opts.role = .client ∧ o = .client sip.localAddr (.fromOpts opts sip) ∨
      opts.role = .server ∧ o = .server sip.remote
        ⟨staticKp w opts, opts.password, sip.localAddr, opts.pingSecs, opts.dialTimeoutSecs⟩ := by
  unfold run at h
  split at h
  · next hclient =>
    unfold runClient at h
    rw [if_neg (not_not.mpr hclient)] at h
    obtain ⟨⟨⟩, -, h⟩ := bind_eq_ok_iff.mp h
    cases h
    exact .inl ⟨hclient, rfl⟩
  · next hserver =>
    unfold runServer at h
    rw [if_neg (not_not.mpr hserver)] at h
    obtain ⟨⟨⟩, -, h⟩ := bind_eq_ok_iff.mp h
    cases h
    exact .inr ⟨hserver, rfl⟩

theorem run_sound {opts : PluginOpts} {sip : Sip003 w.env} (hopts : opts.Sound)
    (hrole : ∀ role, args.roleFlag = some role → opts.role = role)
    (h : run w opts.role opts sip = .ok o) : o.Sound args := by
  rcases run_cases h with ⟨hclient, rfl⟩ | ⟨hserver, rfl⟩
  · refine ⟨fun hflag => ?_, hopts.password, hopts.sni, hopts.dialTimeoutSecs⟩
    rw [hrole _ hflag] at hclient
    cases hclient
  · refine ⟨fun hflag => ?_, hopts.password, hopts.dialTimeoutSecs⟩
    rw [hrole _ hflag] at hserver
    cases hserver

theorem sound_setRole {opts : PluginOpts} (h : opts.Sound) (role : Role) :
    PluginOpts.Sound { opts with role := role } :=
  ⟨h.password, h.sni, h.dialTimeoutSecs⟩

theorem start_sound (h : start w args = .ok o) : o.Sound args := by
  have hflag : ∀ role role', args.roleFlag = some role' → args.roleFlag.getD role = role' := by
    intro role role' hrole
    rw [hrole, Option.getD_some]
  unfold start at h
  split at h
  · cases h
    trivial
  · split at h
    · obtain ⟨text, -, h⟩ := bind_eq_ok_iff.mp h
      obtain ⟨config, hconfig, h⟩ := bind_eq_ok_iff.mp h
      obtain ⟨file, -, hvalid, hopts⟩ := parseStandaloneConfig_eq_ok hconfig
      have hsound : config.opts.Sound := by
        rw [hopts]
        exact hvalid.sound
      exact run_sound (sound_setRole hsound _) (hflag _) h
    · obtain ⟨opts, hopts, h⟩ := bind_eq_ok_iff.mp h
      obtain ⟨sip, -, h⟩ := bind_eq_ok_iff.mp h
      have hsound := parsePluginOpts_sound hopts
      exact run_sound (sound_setRole hsound _) (hflag _) h

/-- **What runs is sound**, whatever the arguments, the environment and the files are: it has the role of
the flag, if there is one, a password, a server name that the hello builder takes, and a timeout, and the
assertions of the runners hold. -/
theorem started_sound (h : main w line = .ok o) :
    ∃ finish args, argLoop {} line = .ok (finish, args) ∧ o.Sound args := by
  obtain ⟨⟨finish, args⟩, hargs, h⟩ := bind_eq_ok_iff.mp h
  refine ⟨finish, args, hargs, ?_⟩
  cases finish with
  | done => exact start_sound h
  | help | version =>
    cases h
    trivial

/-! ### Two ways to start it -/

/-- The environment has the addresses of a configuration: what a client listens on and what it dials, or
what a server forwards to and what it listens on. -/
def AddressesInEnv (role : Role) (listen remote : HostPort) (var : String → Option String) : Prop :=
  match role with
  | .client => listen.InEnv var "SS_LOCAL_HOST" "SS_LOCAL_PORT" ∧
      remote.InEnv var "SS_REMOTE_HOST" "SS_REMOTE_PORT"
  | .server => remote.InEnv var "SS_LOCAL_HOST" "SS_LOCAL_PORT" ∧
      listen.InEnv var "SS_REMOTE_HOST" "SS_REMOTE_PORT"

/-- The addresses of the configuration are those of the environment. -/
theorem addresses_same {role : Role} {listen remote : HostPort} {opts : PluginOpts}
    (hliteral : ∀ s addr, w.env.parseAddr s = some addr → w.env.toSocketAddrs s = .ok [addr])
    (hlisten : listen.WellFormed w.env) (hremote : remote.WellFormed w.env)
    (hvar : AddressesInEnv role listen remote w.var) :
    Same
      (w.env.parseConfigAddr listen.text "listen" >>= fun a =>
        w.env.parseConfigAddr remote.text "remote" >>= fun b =>
          run w role opts (standaloneSip003 ⟨role, a, b, opts⟩))
      (w.env.sip003FromEnv w.var >>= run w role opts) := by
  cases role with
  | client =>
    rw [sip003FromEnv_eq hvar.1 hvar.2]
    simp only [bind_assoc, pure_bind]
    refine (HostPort.parseConfigAddr_same hliteral hlisten _ _).bind fun a _ _ => ?_
    refine (HostPort.parseConfigAddr_same hliteral hremote _ _).bind fun b _ _ => ?_
    exact .refl _
  | server =>
    rw [sip003FromEnv_eq hvar.1 hvar.2]
    simp only [bind_assoc, pure_bind]
    -- the environment has the address to forward to first
    refine (Same.swap _).trans ?_
    refine (HostPort.parseConfigAddr_same hliteral hremote _ _).bind fun b _ _ => ?_
    refine (HostPort.parseConfigAddr_same hliteral hlisten _ _).bind fun a _ _ => ?_
    exact .refl _

/-- **The two ways to start the plugin agree.** Take any options without whitespace at their ends, any two
addresses and any command line that has neither. With the options and the addresses in the file of a `-c`
behind it, or in the environment, the options in any order and escaped, both starts fail, or both start the
same client or server. -/
theorem starts_agree {v : Values} {fs : List Field} {listen remote : HostPort} {path text : String}
    (hliteral : ∀ s addr, w.env.parseAddr s = some addr → w.env.toSocketAddrs s = .ok [addr])
    (hlisten : listen.WellFormed w.env) (hremote : remote.WellFormed w.env)
    (hline : argLoop {} line = .ok (.done, args)) (hoptions : args.optsArg = none)
    (hconfig : args.configPath = none)
    (hpath : w.readToString path = .ok text)
    (htext : w.env.fromStr text = .ok (v.file listen.text remote.text))
    (hopts : w.var "SS_PLUGIN_OPTIONS" = some (pluginOpts fs)) (hfs : fs.Perm v.fields)
    (hv : v.Unpadded w.env.parsePubkeyHex)
    (hvar : AddressesInEnv (args.roleFlag.getD v.role) listen remote w.var) :
    Same (main w (line ++ ["-c", path])) (main w line) := by
  have hok : ∀ {α β : Type} (x : α) (f : α → Except String β), (Except.ok x >>= f) = f x :=
    fun _ _ => rfl
  have hline' : argLoop {} (line ++ ["-c", path]) =
      .ok (.done, { args with configPath := some path }) :=
    argLoop_append hline _
  unfold main
  rw [hline, hline']
  simp only [hok]
  unfold start
  by_cases hgenkey : args.genkey = true
  · simp only [if_pos hgenkey]
    exact .refl _
  · simp only [if_neg hgenkey, hconfig, hpath, Except.mapError, hok, rawOpts, hoptions, Option.none_or,
      hopts, Option.getD_some, parseStandaloneConfig_bind htext (parseRole_roleName v.role), bind_assoc,
      pure_bind]
    refine (setAll_same hfs hv).bind fun opts hset _ => ?_
    have hrole : opts.role = v.role := by
      obtain ⟨-, rfl⟩ := (setAll_fields (List.Perm.refl _)).mp hset
      rfl
    rw [hrole]
    exact addresses_same hliteral hlisten hremote hvar

/-! ### A server on an IPv6 address -/

/-- A password with all special characters. -/
def tricky : Values where
  role := .client
  password := some "p@ss=w;rd\\"
  sni := none
  serverkey := none
  key := none
  ping := some 30
  timeout := none

/-- What the server listens on. -/
def v6 : HostPort := ⟨"2001:db8::10", 8443, by decide, by decide⟩

/-- Where `ss-server` listens. -/
def loopback : HostPort := ⟨"127.0.0.1", 8388, by decide, by decide⟩

def trickyText : String :=
  "\x7b\"listen\":\"[2001:db8::10]:8443\",\"remote\":\"127.0.0.1:8388\",\"role\":\"client\"," ++
    "\"password\":\"p@ss=w;rd\\\\\",\"ping\":30\x7d"

/-- An environment in which `text` is the JSON text of `file`, and these are the literal addresses. -/
def literalEnv (text : String) (file : StandaloneFile) (literals : List String) : Env where
  parsePubkeyHex := keyOfHex
  SocketAddr := String
  fromStr t := if t = text then .ok file else .error "expected value at line 1 column 1"
  parseAddr s := if s ∈ literals then some s else none
  toSocketAddrs s := if s ∈ literals then .ok [s] else .error "Name or service not known"

theorem fromStr_literalEnv (text : String) (file : StandaloneFile) (literals : List String) :
    (literalEnv text file literals).fromStr text = .ok file :=
  if_pos rfl

theorem literalEnv_literal (text : String) (file : StandaloneFile) (literals : List String) :
    ∀ s addr, (literalEnv text file literals).parseAddr s = some addr →
      (literalEnv text file literals).toSocketAddrs s = .ok [addr] := by
  intro s addr h
  unfold literalEnv at h ⊢
  simp only at h ⊢
  split_ifs at h ⊢ with hs
  cases h
  rfl

/-- The file `a.json`, and a server's environment. -/
def trickyWorld : World plain where
  env := literalEnv trickyText (tricky.file v6.text loopback.text)
    ["[2001:db8::10]:8443", "127.0.0.1:8388"]
  var name := [("SS_LOCAL_HOST", "127.0.0.1"), ("SS_LOCAL_PORT", "8388"),
    ("SS_REMOTE_HOST", "2001:db8::10"), ("SS_REMOTE_PORT", "8443"),
    ("SS_PLUGIN_OPTIONS", "ping=30;password=p@ss\\=w\\;rd\\\\;s=0")].lookup name
  readToString path := if path = "a.json" then .ok trickyText else .error "No such file or directory"
  bind _ := .ok ()
  generate := seed 3
  privateBytes kp := kp
  fromPrivateBytes bytes := bytes

theorem starts_agree_v6 :
    ∃ o, main trickyWorld ["-s", "-c", "a.json"] = .ok o ∧ main trickyWorld ["-s"] = .ok o := by
  have hsame := @starts_agree plain trickyWorld { roleFlag := some .server } ["-s"] tricky
    tricky.fields.reverse v6 loopback "a.json" trickyText (literalEnv_literal _ _ _)
    (fun _ => by decide +kernel) (fun _ => by decide +kernel) rfl rfl rfl rfl
    (fromStr_literalEnv _ _ _)
    (by decide +kernel) (List.reverse_perm _) ?_ ?_
  · have hok : (main trickyWorld ["-s"]).toOption.isSome = true := by decide +kernel
    rcases hsame with ⟨e, e', -, h⟩ | h
    · rw [h] at hok
      cases hok
    · exact h
  · refine ⟨?_, ?_, ?_, ?_⟩
    · rintro p ⟨⟩
      decide
    · rintro s ⟨⟩
    · rintro s ⟨⟩
    · rintro s ⟨⟩
  · exact ⟨⟨rfl, by decide +kernel⟩, rfl, by decide +kernel⟩

theorem started_sound_v6 :
    ∃ o, main trickyWorld ["-s"] = .ok o ∧ ∃ finish args, argLoop {} ["-s"] = .ok (finish, args) ∧
      o.Sound args := by
  have hok : (main trickyWorld ["-s"]).toOption.isSome = true := by decide +kernel
  cases h : main trickyWorld ["-s"] with
  | error e =>
    rw [h] at hok
    cases hok
  | ok o => exact ⟨o, rfl, started_sound h⟩

end QeliSsPlugin.Cli
