import QeliSsPlugin.Opts.Meaning

/-!
# The two addresses

Under `ss-local` and `ss-server` the addresses come from the environment: `sip003_from_env` reads two hosts
and two ports and resolves them. Standalone they come from the configuration, which has them the other
way round for a server: `standalone_sip003`.

Both ways lead to the same resolver, but the configuration is first tried as a literal address, and splits
at the last colon what is none. `parseConfigAddr_hostPort`: a host and a port resolve to the same address
from either source, an IPv6 literal being bracketed in the configuration and not in the environment.
-/

namespace QeliSsPlugin.Opts

open Lib

/-- Both fail, or both return the same. -/
def Same {α : Type} (r r' : Except String α) : Prop :=
  (∃ e e', r = .error e ∧ r' = .error e') ∨ ∃ a, r = .ok a ∧ r' = .ok a

namespace Same

variable {α β : Type} {r r' : Except String α} {f g : α → Except String β}

theorem refl (r : Except String α) : Same r r := by
  cases r with
  | error e => exact .inl ⟨e, e, rfl, rfl⟩
  | ok a => exact .inr ⟨a, rfl, rfl⟩

theorem symm (h : Same r r') : Same r' r := by
  rcases h with ⟨e, e', h, h'⟩ | ⟨a, h, h'⟩
  · exact .inl ⟨e', e, h', h⟩
  · exact .inr ⟨a, h', h⟩

/-- What is done with what both return. -/
theorem bind (h : Same r r') (hfg : ∀ a, r = .ok a → r' = .ok a → Same (f a) (g a)) :
    Same (r >>= f) (r' >>= g) := by
  rcases h with ⟨e, e', rfl, rfl⟩ | ⟨a, rfl, rfl⟩
  · exact .inl ⟨e, e', rfl, rfl⟩
  · exact hfg a rfl rfl

theorem trans {r'' : Except String α} (h : Same r r') (h' : Same r' r'') : Same r r'' := by
  rcases h with ⟨e, e', rfl, rfl⟩ | ⟨a, rfl, rfl⟩
  · rcases h' with ⟨_, e'', -, rfl⟩ | ⟨a, h', -⟩
    · exact .inl ⟨e, e'', rfl, rfl⟩
    · cases h'
  · exact h'

/-- Which of two comes first matters only for the error. -/
theorem swap {γ : Type} {x : Except String α} {y : Except String β} (f : α → β → Except String γ) :
    Same (x >>= fun a => y >>= f a) (y >>= fun b => x >>= fun a => f a b) := by
  cases x with
  | error e =>
    cases y with
    | error e' => exact .inl ⟨e, e', rfl, rfl⟩
    | ok b => exact .inl ⟨e, e, rfl, rfl⟩
  | ok a =>
    cases y with
    | error e' => exact .inl ⟨e', e', rfl, rfl⟩
    | ok b => exact .refl (f a b)

theorem of_iff (h : ∀ a, r = .ok a ↔ r' = .ok a) : Same r r' := by
  cases r with
  | ok a => exact .inr ⟨a, rfl, (h a).mp rfl⟩
  | error e =>
    obtain ⟨e', he'⟩ := error_of_ne_ok fun a ha => nomatch (h a).mpr ha
    exact .inl ⟨e, e', rfl, he'⟩

end Same

/-- The two addresses. A client listens on the first and dials the second; a server listens on the
second and forwards to the first. -/
structure Sip003 (env : Env) where
  localAddr : env.SocketAddr
  remote : env.SocketAddr

/-- A variable that has to be there. -/
def requiredEnv (var : String → Option String) (name : String) : Except String String :=
  match var name with
  | some v => .ok (trim v)
  | none => .error ("missing environment variable " ++ name ++ " (must run under ss-local/ss-server)")

/-- `str::parse` for a port, with the error of the variable `name`. -/
def parsePort (name port : String) : Except String ℕ :=
  match parseUint UInt16.size port with
  | some port => .ok port
  | none => .error (name ++ " is not a valid port")

/-- **The addresses of the environment.** -/
def Env.sip003FromEnv (env : Env) (var : String → Option String) : Except String (Sip003 env) := do
  let localHost ← requiredEnv var "SS_LOCAL_HOST"
  let localPort ← requiredEnv var "SS_LOCAL_PORT"
  let localPort ← parsePort "SS_LOCAL_PORT" localPort
  let remoteHost ← requiredEnv var "SS_REMOTE_HOST"
  let remotePort ← requiredEnv var "SS_REMOTE_PORT"
  let remotePort ← parsePort "SS_REMOTE_PORT" remotePort
  let localAddr ← env.resolve localHost localPort "SS_LOCAL_HOST/PORT"
  let remote ← env.resolve remoteHost remotePort "SS_REMOTE_HOST/PORT"
  return ⟨localAddr, remote⟩

/-- **The addresses of a configuration.** -/
def standaloneSip003 {env : Env} (config : StandaloneConfig env) : Sip003 env :=
  match config.role with
  | .client => ⟨config.listen, config.remote⟩
  | .server => ⟨config.remote, config.listen⟩

/-! ### A host and a port -/

/-- A host that is not blank, and a port. -/
structure HostPort where
  host : String
  port : UInt16
  trimmed : Trimmed host
  ne_empty : host ≠ ""

namespace HostPort

variable (a : HostPort)

/-- Whether the host is an IPv6 literal without its brackets. -/
def Bare : Prop := ':' ∈ a.host.toList ∧ a.host.toList.head? ≠ some '['

instance : Decidable a.Bare := inferInstanceAs (Decidable (_ ∧ _))

/-- The host as it stands before a port. -/
def bracketed : String := if a.Bare then "[" ++ a.host ++ "]" else a.host

/-- The address as the configuration has it. -/
def text : String := a.bracketed ++ ":" ++ a.port.toNat.repr

/-- A host with colons is an IPv6 literal. -/
def WellFormed (env : Env) : Prop := ':' ∈ a.host.toList → (env.parseAddr a.text).isSome

variable {a}

theorem toList_text : a.text.toList = a.bracketed.toList ++ ':' :: a.port.toNat.repr.toList := by
  simp [text]

/-- What both sources ask of the resolver. -/
theorem resolve_eq (env : Env) (what : String) : env.resolve a.host a.port.toNat what =
    match env.toSocketAddrs a.text with
    | .error e => .error ("failed to resolve " ++ what ++ " (" ++ a.text ++ "): " ++ e)
    | .ok [] => .error ("no addresses for " ++ what ++ " (" ++ a.text ++ ")")
    | .ok (addr :: _) => .ok addr := by
  unfold Env.resolve
  simp only [a.trimmed.trim_eq, if_neg a.ne_empty]
  rfl

theorem trim_text : Opts.trim a.text = a.text := by
  have hhead : ∀ c, a.text.toList.head? = some c → isWhitespace c = false := by
    have hne : a.host.toList ≠ [] := fun h => a.ne_empty (String.toList_eq_nil_iff.mp h)
    obtain ⟨d, cs, hcs⟩ := List.exists_cons_of_ne_nil hne
    intro c hc
    rw [toList_text, bracketed] at hc
    split_ifs at hc
    · simp only [String.toList_append] at hc
      cases hc
      decide
    · rw [hcs] at hc
      exact a.trimmed.1 c (by rw [hcs]; exact hc)
  have hlast : ∀ c, a.text.toList.getLast? = some c → isWhitespace c = false := by
    intro c hc
    rw [toList_text, List.getLast?_append, List.getLast?_cons] at hc
    cases hrepr : a.port.toNat.repr.toList.getLast? with
    | none =>
      rw [hrepr] at hc
      cases hc
      decide
    | some d =>
      rw [hrepr] at hc
      cases hc
      exact isWhitespace_of_mem_repr (List.mem_of_getLast? hrepr)
  rw [Opts.trim, Text.trim_eq_self hhead hlast, String.ofList_toList]

/-- Resolving fails with an error that names what for, and returns the same. -/
theorem resolve_same (env : Env) (what what' : String) :
    Same (env.resolve a.host a.port.toNat what) (env.resolve a.host a.port.toNat what') := by
  rw [resolve_eq, resolve_eq]
  cases env.toSocketAddrs a.text with
  | error e => exact .inl ⟨_, _, rfl, rfl⟩
  | ok addrs =>
    cases addrs with
    | nil => exact .inl ⟨_, _, rfl, rfl⟩
    | cons addr rest => exact .inr ⟨addr, rfl, rfl⟩

/-- **A host and a port resolve to the same address from either source**, if the resolver returns a
literal address as it is. -/
theorem parseConfigAddr_same {env : Env}
    (hliteral : ∀ s addr, env.parseAddr s = some addr → env.toSocketAddrs s = .ok [addr])
    (ha : a.WellFormed env) (what what' : String) :
    Same (env.parseConfigAddr a.text what) (env.resolve a.host a.port.toNat what') := by
  have hdigits : ':' ∉ a.port.toNat.repr.toList := fun h =>
    absurd (isDigit_of_mem_repr h) (by decide)
  have hport : parseUint UInt16.size a.port.toNat.repr = some a.port.toNat :=
    parseUint_repr a.port.toNat_lt_size
  unfold Env.parseConfigAddr
  simp only [trim_text]
  cases haddr : env.parseAddr a.text with
  | some addr =>
    refine .inr ⟨addr, rfl, ?_⟩
    rw [resolve_eq, hliteral _ _ haddr]
  | none =>
    -- not a literal, so a name: there is no other colon to split at
    have hcolon : ':' ∉ a.host.toList := by
      intro h
      have hsome := ha h
      rw [haddr] at hsome
      cases hsome
    have hbracketed : a.bracketed = a.host := if_neg fun h => hcolon h.1
    have hsplit : Text.rsplitOnce ':' a.text.toList =
        some (a.host.toList, a.port.toNat.repr.toList) := by
      rw [toList_text, hbracketed]
      exact Text.rsplitOnce_append _ _ hdigits
    simp only [hsplit, if_neg hcolon, String.ofList_toList]
    rw [hport]
    exact resolve_same env what what'

/-- The environment has the host and the port under these names. -/
def InEnv (a : HostPort) (var : String → Option String) (host port : String) : Prop :=
  var host = some a.host ∧ var port = some a.port.toNat.repr

theorem InEnv.requiredEnv {var : String → Option String} {host port : String}
    (h : a.InEnv var host port) : requiredEnv var host = .ok a.host ∧
      requiredEnv var port = .ok a.port.toNat.repr := by
  unfold Opts.requiredEnv
  rw [h.1, h.2]
  simp only [a.trimmed.trim_eq, trim_repr, and_self]

theorem parsePort_repr (name : String) : parsePort name a.port.toNat.repr = .ok a.port.toNat := by
  unfold parsePort
  rw [parseUint_repr a.port.toNat_lt_size]

end HostPort

/-- The addresses of an environment that has both. -/
theorem sip003FromEnv_eq {env : Env} {var : String → Option String} {a b : HostPort}
    (ha : a.InEnv var "SS_LOCAL_HOST" "SS_LOCAL_PORT")
    (hb : b.InEnv var "SS_REMOTE_HOST" "SS_REMOTE_PORT") :
    env.sip003FromEnv var = do
      let localAddr ← env.resolve a.host a.port.toNat "SS_LOCAL_HOST/PORT"
      let remote ← env.resolve b.host b.port.toNat "SS_REMOTE_HOST/PORT"
      return ⟨localAddr, remote⟩ := by
  have hok : ∀ {α β : Type} (x : α) (f : α → Except String β), (Except.ok x >>= f) = f x :=
    fun _ _ => rfl
  unfold Env.sip003FromEnv
  simp only [ha.requiredEnv.1, ha.requiredEnv.2, hb.requiredEnv.1, hb.requiredEnv.2,
    HostPort.parsePort_repr, hok]

/-- Values that trimming leaves as they are are accepted as the same options from either source. -/
theorem setAll_same {parsePubkeyHex : String → Option Handshake.Key32} {v : Values} {fs : List Field}
    (hfs : fs.Perm v.fields) (hv : v.Unpadded parsePubkeyHex) :
    Same (setAll parsePubkeyHex v.fields) (parsePluginOpts parsePubkeyHex (pluginOpts fs)) := by
  have htrim : (fs.map Field.trim).Perm v.trim.fields := by
    rw [fields_trim]
    exact hfs.map Field.trim
  refine .of_iff fun o => ?_
  rw [setAll_fields (List.Perm.refl _), parsePluginOpts_eq, setAll_fields htrim, valid_trim hv,
    opts_trim_iff.mpr hv]

end QeliSsPlugin.Opts
