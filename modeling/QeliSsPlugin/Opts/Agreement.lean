import QeliSsPlugin.Opts.Standalone

/-!
# The two sources of the options

The same options are given as a `plugin_opts` string or as a JSON file. `Values` are the options of one
configuration, `Values.file` the file and `pluginOpts` the string that hold them, the entries of the
string in any order. Both sources set the same fields in the same way (`Field.set`), but
`split_entries` trims the values and the file is taken as it is.

`sources_agree_iff`: when both sources agree. `sources_disagree`: a password that ends in a space.
-/

namespace QeliSsPlugin.Opts

open Handshake Lib

/-- An option with its value. -/
inductive Field
  | role (role : Role)
  | password (password : String)
  | sni (sni : String)
  | serverkey (hex : String)
  | key (hex : String)
  | ping (secs : UInt32)
  | timeout (secs : UInt64)
  deriving DecidableEq

/-- The options of a configuration. -/
structure Values where
  role : Role
  password : Option String
  sni : Option String
  serverkey : Option String
  key : Option String
  ping : Option UInt32
  timeout : Option UInt64

namespace Field

/-- The entry of `plugin_opts`. -/
def entry : Field → String × String
  | .role .server => ("s", "1")
  | .role .client => ("s", "0")
  | .password p => ("password", p)
  | .sni s => ("sni", s)
  | .serverkey hex => ("serverkey", hex)
  | .key hex => ("key", hex)
  | .ping secs => ("ping", secs.toNat.repr)
  | .timeout secs => ("timeout", secs.toNat.repr)

/-- The option with its value trimmed. -/
def trim : Field → Field
  | .password p => .password (Opts.trim p)
  | .sni s => .sni (Opts.trim s)
  | .serverkey hex => .serverkey (Opts.trim hex)
  | .key hex => .key (Opts.trim hex)
  | f => f

/-- What both sources do with an option. -/
def set (parsePubkeyHex : String → Option Key32) (opts : PluginOpts) :
    Field → Except String PluginOpts
  | .role r => .ok { opts with role := r }
  | .password p => .ok { opts with password := p }
  | .sni s => do
    validateSni s
    return { opts with sni := s }
  | .serverkey hex => do
    let key ← parseKey parsePubkeyHex "serverkey" hex
    return { opts with serverPublicKey := some key }
  | .key hex => do
    let key ← parseKey parsePubkeyHex "key" hex
    return { opts with serverPrivateKey := some key }
  | .ping secs => .ok { opts with pingSecs := secs }
  | .timeout secs =>
    if secs = 0 then .error "timeout must be at least 1 second"
    else .ok { opts with dialTimeoutSecs := secs }

end Field

namespace Values

/-- The options that are given. -/
def fields (v : Values) : List Field :=
  .role v.role :: (v.password.toList.map .password ++ (v.sni.toList.map .sni ++
    (v.serverkey.toList.map .serverkey ++ (v.key.toList.map .key ++
      (v.ping.toList.map .ping ++ v.timeout.toList.map .timeout)))))

/-- The role in the JSON file. -/
def roleName : Role → String
  | .client => "client"
  | .server => "server"

/-- The JSON file that holds the values. -/
def file (v : Values) (listen remote : String) : StandaloneFile where
  role := some (roleName v.role)
  listen := listen
  remote := remote
  password := v.password
  sni := v.sni
  serverkey := v.serverkey
  key := v.key
  ping := v.ping
  timeout := v.timeout

/-- The values as `split_entries` hands them on. -/
def trim (v : Values) : Values :=
  { v with password := v.password.map Opts.trim, sni := v.sni.map Opts.trim,
           serverkey := v.serverkey.map Opts.trim, key := v.key.map Opts.trim }

/-- No value is refused: there is a password, the server name and the keys are well formed and the
timeout is positive. -/
def Valid (parsePubkeyHex : String → Option Key32) (v : Values) : Prop :=
  (∃ p, v.password = some p ∧ p ≠ "") ∧ (∀ s, v.sni = some s → validateSni s = .ok ()) ∧
  (∀ h, v.serverkey = some h → (parsePubkeyHex h).isSome) ∧
  (∀ h, v.key = some h → (parsePubkeyHex h).isSome) ∧ v.timeout ≠ some 0

/-- Trimming changes nothing: not the password, not the server name, and not what the keys are read
as. -/
def Unpadded (parsePubkeyHex : String → Option Key32) (v : Values) : Prop :=
  (∀ p, v.password = some p → Opts.trim p = p) ∧ (∀ s, v.sni = some s → Opts.trim s = s) ∧
  (∀ h, v.serverkey = some h → parsePubkeyHex (Opts.trim h) = parsePubkeyHex h) ∧
  (∀ h, v.key = some h → parsePubkeyHex (Opts.trim h) = parsePubkeyHex h)

/-- The options that the values stand for. -/
def opts (parsePubkeyHex : String → Option Key32) (v : Values) : PluginOpts where
  role := v.role
  password := v.password.getD ""
  sni := v.sni.getD "www.cloudflare.com"
  serverPublicKey := v.serverkey.bind parsePubkeyHex
  serverPrivateKey := v.key.bind parsePubkeyHex
  pingSecs := v.ping.getD 2
  dialTimeoutSecs := v.timeout.getD 10

end Values

/-- The `plugin_opts` string with the options, their values escaped. -/
def pluginOpts (fs : List Field) : String := ";".intercalate (fs.map fun f => writeEntry f.entry)

/-- Both sources are rejected, or both are accepted with the same options. -/
def Agree {env : Env} (r : Except String (StandaloneConfig env)) (r' : Except String PluginOpts) :
    Prop :=
  (∃ e e', r = .error e ∧ r' = .error e') ∨ ∃ config, r = .ok config ∧ r' = .ok config.opts

/-- Set the options one after the other and check them together. -/
def setAll (parsePubkeyHex : String → Option Key32) (fs : List Field) : Except String PluginOpts := do
  let opts ← fs.foldlM (Field.set parsePubkeyHex) {}
  validateOpts opts
  return opts

/-! ### Both sources set the fields -/

section Sources

variable {parsePubkeyHex : String → Option Key32}

theorem applyEntry_entry (opts : PluginOpts) (f : Field) :
    applyEntry parsePubkeyHex opts f.entry.1 f.entry.2 = f.set parsePubkeyHex opts := by
  cases f with
  | role role => cases role <;> rfl
  | ping secs =>
    have h : parseU32 secs.toNat.repr = some secs := by
      simp [parseU32, parseUint_repr secs.toNat_lt_size]
    simp only [Field.entry, applyEntry, Field.set, h]
  | timeout secs =>
    have h : parseU64 secs.toNat.repr = some secs := by
      simp [parseU64, parseUint_repr secs.toNat_lt_size]
    simp only [Field.entry, applyEntry, Field.set, h]
  | _ => rfl

/-- The keys of the entries. -/
def keys : List String := ["s", "password", "sni", "serverkey", "key", "ping", "timeout"]

theorem entry_fst_mem (f : Field) : f.entry.1 ∈ keys := by
  unfold keys
  cases f with
  | role role => cases role <;> simp [Field.entry]
  | _ => simp [Field.entry]

theorem trim_of_mem_keys : ∀ k ∈ keys, trim k = k := by decide

theorem isSpecial_of_mem_keys : ∀ k ∈ keys, ∀ c ∈ k.toList, isSpecial c = false := by
  have h : (keys.all fun k => k.toList.all fun c => !isSpecial c) = true := by decide
  simpa only [List.all_eq_true, Bool.not_eq_true'] using h

theorem trim_entry (f : Field) : (trim f.entry.1, trim f.entry.2) = f.trim.entry := by
  have hvalue : trim f.entry.2 = f.trim.entry.2 := by
    cases f with
    | role role => cases role <;> decide
    | ping secs => exact trim_repr _
    | timeout secs => exact trim_repr _
    | _ => rfl
  have hkey : f.entry.1 = f.trim.entry.1 := by cases f <;> rfl
  rw [trim_of_mem_keys _ (entry_fst_mem f), hvalue, hkey]

/-- The string sets the trimmed fields. -/
theorem parsePluginOpts_eq (fs : List Field) :
    parsePluginOpts parsePubkeyHex (pluginOpts fs) = setAll parsePubkeyHex (fs.map Field.trim) := by
  have hsplit : splitEntries (pluginOpts fs) = (fs.map Field.trim).map Field.entry := by
    have hws : List.Forall₂ Written (fs.map Field.entry) (fs.map fun f => writeEntry f.entry) := by
      rw [List.forall₂_map_left_iff, List.forall₂_map_right_iff]
      exact List.forall₂_same.mpr fun f _ => written_writeEntry f.entry
    rw [pluginOpts, splitEntries_join hws]
    · simp only [List.map_map]
      exact List.map_congr_left fun f _ => trim_entry f
    · intro e he
      obtain ⟨f, -, rfl⟩ := List.mem_map.mp he
      exact isSpecial_of_mem_keys _ (entry_fst_mem f)
  have happly : (fun opts (f : Field) => applyEntry parsePubkeyHex opts f.entry.1 f.entry.2) =
      Field.set parsePubkeyHex := by
    funext opts f
    exact applyEntry_entry opts f
  unfold parsePluginOpts setAll
  rw [hsplit, List.foldlM_map, happly]

theorem parseRole_roleName (role : Role) : parseRole (some (Values.roleName role)) = .ok role := by
  cases role <;> rfl

theorem foldlM_toList {α : Type} (c : α → Field) (o : Option α) (opts : PluginOpts) :
    (o.toList.map c).foldlM (Field.set parsePubkeyHex) opts =
      ifLet o opts fun opts x => (c x).set parsePubkeyHex opts := by
  cases o with
  | none => rfl
  | some x => exact bind_pure _

/-- The file sets the fields. -/
theorem parseStandaloneConfig_eq {env : Env} {v : Values} {text listen remote : String}
    (htext : env.fromStr text = .ok (v.file listen remote)) {a b : env.SocketAddr}
    (hlisten : env.parseConfigAddr listen "listen" = .ok a)
    (hremote : env.parseConfigAddr remote "remote" = .ok b) :
    env.parseStandaloneConfig text =
      setAll env.parsePubkeyHex v.fields >>= fun opts => pure ⟨v.role, a, b, opts⟩ := by
  have hrole : parseRole (v.file listen remote).role = .ok v.role := parseRole_roleName v.role
  have hok : ∀ {α β : Type} (x : α) (f : α → Except String β), (Except.ok x >>= f) = f x :=
    fun _ _ => rfl
  unfold Env.parseStandaloneConfig setAll Values.fields
  rw [htext]
  simp only [List.foldlM_cons, List.foldlM_append, foldlM_toList, Except.mapError, hok, hrole,
    Field.set, bind_assoc, pure_bind]
  simp only [Values.file, hlisten, hremote, hok]

end Sources

/-! ### What is accepted, and as what -/

namespace Field

variable (parsePubkeyHex : String → Option Key32)

/-- The option is not refused. -/
def Ok : Field → Prop
  | .sni s => validateSni s = .ok ()
  | .serverkey hex => (parsePubkeyHex hex).isSome
  | .key hex => (parsePubkeyHex hex).isSome
  | .timeout secs => secs ≠ 0
  | _ => True

/-- The options with this one set. -/
def apply (opts : PluginOpts) : Field → PluginOpts
  | .role r => { opts with role := r }
  | .password p => { opts with password := p }
  | .sni s => { opts with sni := s }
  | .serverkey hex => { opts with serverPublicKey := parsePubkeyHex hex }
  | .key hex => { opts with serverPrivateKey := parsePubkeyHex hex }
  | .ping secs => { opts with pingSecs := secs }
  | .timeout secs => { opts with dialTimeoutSecs := secs }

end Field

section Accepted

variable {parsePubkeyHex : String → Option Key32} {v : Values} {f g : Field} {fs : List Field}
  {opts o : PluginOpts}

theorem bind_eq_ok_iff {α β : Type} {x : Except String α} {k : α → Except String β} {b : β} :
    (x >>= k) = .ok b ↔ ∃ a, x = .ok a ∧ k a = .ok b := by
  cases x with
  | error e => simp [bind, Except.bind]
  | ok a => simp [bind, Except.bind]

theorem parseKey_eq_ok_iff {name hex : String} {key : Key32} :
    parseKey parsePubkeyHex name hex = .ok key ↔ parsePubkeyHex hex = some key := by
  unfold parseKey
  cases parsePubkeyHex hex <;> simp

theorem set_eq_ok_iff : f.set parsePubkeyHex opts = .ok o ↔
    f.Ok parsePubkeyHex ∧ o = f.apply parsePubkeyHex opts := by
  cases f with
  | sni s =>
    simp only [Field.set, Field.Ok, Field.apply, bind_eq_ok_iff, pure, Except.pure,
      Except.ok.injEq]
    constructor
    · rintro ⟨_, h, rfl⟩; exact ⟨h, rfl⟩
    · rintro ⟨h, rfl⟩; exact ⟨(), h, rfl⟩
  | serverkey hex =>
    simp only [Field.set, Field.Ok, Field.apply, bind_eq_ok_iff, parseKey_eq_ok_iff, pure,
      Except.pure, Except.ok.injEq]
    cases parsePubkeyHex hex <;> simp [eq_comm]
  | key hex =>
    simp only [Field.set, Field.Ok, Field.apply, bind_eq_ok_iff, parseKey_eq_ok_iff, pure,
      Except.pure, Except.ok.injEq]
    cases parsePubkeyHex hex <;> simp [eq_comm]
  | timeout secs =>
    simp only [Field.set, Field.Ok, Field.apply]
    split_ifs with h <;> simp [h, eq_comm]
  | _ => simp [Field.set, Field.Ok, Field.apply, eq_comm]

theorem foldlM_set_eq_ok_iff : fs.foldlM (Field.set parsePubkeyHex) opts = .ok o ↔
    (∀ f ∈ fs, f.Ok parsePubkeyHex) ∧ o = fs.foldl (Field.apply parsePubkeyHex) opts := by
  induction fs generalizing opts with
  | nil => simp [pure, Except.pure, eq_comm]
  | cons f fs ih =>
    rw [List.foldlM_cons, bind_eq_ok_iff, List.forall_mem_cons, List.foldl_cons]
    simp only [set_eq_ok_iff, ih]
    constructor
    · rintro ⟨a, ⟨hf, rfl⟩, hfs, ho⟩
      exact ⟨⟨hf, hfs⟩, ho⟩
    · rintro ⟨⟨hf, hfs⟩, ho⟩
      exact ⟨_, ⟨hf, rfl⟩, hfs, ho⟩

theorem setAll_eq_ok_iff : setAll parsePubkeyHex fs = .ok o ↔
    (∀ f ∈ fs, f.Ok parsePubkeyHex) ∧ o = fs.foldl (Field.apply parsePubkeyHex) {} ∧
      o.password ≠ "" := by
  have hvalid : ∀ a : PluginOpts, (validateOpts a >>= fun _ => pure a) = .ok o ↔
      a.password ≠ "" ∧ a = o := fun a => by
    unfold validateOpts
    split_ifs with h <;> simp [h, bind, Except.bind, pure, Except.pure]
  unfold setAll
  simp only [bind_eq_ok_iff (k := fun opts => validateOpts opts >>= fun _ => pure opts), hvalid,
    foldlM_set_eq_ok_iff]
  constructor
  · rintro ⟨a, ⟨hok, ha⟩, hp, rfl⟩
    exact ⟨hok, ha, hp⟩
  · rintro ⟨hok, ho, hp⟩
    exact ⟨o, ⟨hok, ho⟩, hp, rfl⟩

theorem mem_fields : f ∈ v.fields ↔
    match f with
    | .role role => v.role = role
    | .password p => v.password = some p
    | .sni s => v.sni = some s
    | .serverkey hex => v.serverkey = some hex
    | .key hex => v.key = some hex
    | .ping secs => v.ping = some secs
    | .timeout secs => v.timeout = some secs := by
  cases f <;> simp [Values.fields, eq_comm]

/-- The options of a configuration can be set in any order. -/
theorem apply_comm (hf : f ∈ v.fields) (hg : g ∈ v.fields) (opts : PluginOpts) :
    (g.apply parsePubkeyHex (f.apply parsePubkeyHex opts)) =
      f.apply parsePubkeyHex (g.apply parsePubkeyHex opts) := by
  rw [mem_fields] at hf hg
  cases f <;> cases g <;> first | rfl | (rw [hf] at hg; cases hg; rfl)

theorem foldl_apply_fields (v : Values) :
    v.fields.foldl (Field.apply parsePubkeyHex) {} = v.opts parsePubkeyHex := by
  obtain ⟨role, password, sni, serverkey, key, ping, timeout⟩ := v
  cases password <;> cases sni <;> cases serverkey <;> cases key <;> cases ping <;>
    cases timeout <;> rfl

theorem valid_iff : v.Valid parsePubkeyHex ↔
    (∀ f ∈ v.fields, f.Ok parsePubkeyHex) ∧ (v.opts parsePubkeyHex).password ≠ "" := by
  constructor
  · rintro ⟨⟨p, hp, hne⟩, hsni, hserverkey, hkey, htimeout⟩
    refine ⟨fun f hf => ?_, by simpa [Values.opts, hp] using hne⟩
    rw [mem_fields] at hf
    cases f with
    | sni s => exact hsni s hf
    | serverkey hex => exact hserverkey hex hf
    | key hex => exact hkey hex hf
    | timeout secs => rintro rfl; exact htimeout hf
    | _ => trivial
  · rintro ⟨hok, hp⟩
    refine ⟨?_, fun s hs => hok (.sni s) (mem_fields.mpr hs),
      fun hex hs => hok (.serverkey hex) (mem_fields.mpr hs),
      fun hex hs => hok (.key hex) (mem_fields.mpr hs),
      fun hs => hok (.timeout 0) (mem_fields.mpr hs) rfl⟩
    cases hv : v.password with
    | none => simp [Values.opts, hv] at hp
    | some p => exact ⟨p, rfl, by simpa [Values.opts, hv] using hp⟩

/-- **What the fields of a configuration, in any order, are accepted as.** -/
theorem setAll_fields (hfs : fs.Perm v.fields) : setAll parsePubkeyHex fs = .ok o ↔
    v.Valid parsePubkeyHex ∧ o = v.opts parsePubkeyHex := by
  have hopts : fs.foldl (Field.apply parsePubkeyHex) {} = v.opts parsePubkeyHex := by
    rw [← foldl_apply_fields v]
    refine hfs.foldl_eq' (fun f hf g hg opts => ?_) _
    exact apply_comm (hfs.mem_iff.mp hf) (hfs.mem_iff.mp hg) opts
  have hok : (∀ f ∈ fs, f.Ok parsePubkeyHex) ↔ ∀ f ∈ v.fields, f.Ok parsePubkeyHex :=
    forall_congr' fun f => by rw [hfs.mem_iff]
  rw [setAll_eq_ok_iff, hopts, hok, valid_iff]
  constructor
  · rintro ⟨h, rfl, hp⟩; exact ⟨⟨h, hp⟩, rfl⟩
  · rintro ⟨⟨h, hp⟩, rfl⟩; exact ⟨h, rfl, hp⟩

theorem fields_trim (v : Values) : v.trim.fields = v.fields.map Field.trim := by
  obtain ⟨role, password, sni, serverkey, key, ping, timeout⟩ := v
  cases password <;> cases sni <;> cases serverkey <;> cases key <;> cases ping <;>
    cases timeout <;> rfl

end Accepted

/-! ### When the sources agree -/

section Agreement

variable {parsePubkeyHex : String → Option Key32} {env : Env} {v : Values}

theorem error_of_ne_ok {α : Type} {r : Except String α} (h : ∀ a, r ≠ .ok a) :
    ∃ e, r = .error e := by
  cases r with
  | error e => exact ⟨e, rfl⟩
  | ok a => exact absurd rfl (h a)

theorem valid_trim (h : v.Unpadded parsePubkeyHex) :
    v.trim.Valid parsePubkeyHex ↔ v.Valid parsePubkeyHex := by
  obtain ⟨hpassword, hsni, hserverkey, hkey⟩ := h
  have hmap : ∀ o : Option String, (∀ x, o = some x → trim x = x) → o.map trim = o := by
    rintro (_ | x) hx
    · rfl
    · rw [Option.map_some, hx x rfl]
  have hparse : ∀ o : Option String,
      (∀ x, o = some x → parsePubkeyHex (trim x) = parsePubkeyHex x) →
        ((∀ x, o.map trim = some x → (parsePubkeyHex x).isSome) ↔
          ∀ x, o = some x → (parsePubkeyHex x).isSome) := by
    rintro (_ | x) hx
    · simp
    · simp [hx x rfl]
  unfold Values.Valid Values.trim
  rw [hmap _ hpassword, hmap _ hsni, hparse _ hserverkey, hparse _ hkey]

theorem opts_trim_iff :
    v.trim.opts parsePubkeyHex = v.opts parsePubkeyHex ↔ v.Unpadded parsePubkeyHex := by
  have hgetD : ∀ (o : Option String) (d : String),
      (o.map trim).getD d = o.getD d ↔ ∀ x, o = some x → trim x = x := by
    rintro (_ | x) d <;> simp
  have hbind : ∀ o : Option String, (o.map trim).bind parsePubkeyHex = o.bind parsePubkeyHex ↔
      ∀ x, o = some x → parsePubkeyHex (trim x) = parsePubkeyHex x := by
    rintro (_ | x) <;> simp
  unfold Values.opts Values.trim Values.Unpadded
  simp [hgetD, hbind]

/-- **When both sources agree.** For any options, a JSON file that holds them, with addresses that
resolve, and the `plugin_opts` string that holds them, in any order and escaped, are both rejected or
both accepted with the same options exactly if trimming changes no value, or the values are refused both
as they are and trimmed. -/
theorem sources_agree_iff {text listen remote : String} {fs : List Field}
    (htext : env.fromStr text = .ok (v.file listen remote))
    (hlisten : ∃ a, env.parseConfigAddr listen "listen" = .ok a)
    (hremote : ∃ b, env.parseConfigAddr remote "remote" = .ok b) (hfs : fs.Perm v.fields) :
    Agree (env.parseStandaloneConfig text) (parsePluginOpts env.parsePubkeyHex (pluginOpts fs)) ↔
      v.Unpadded env.parsePubkeyHex ∨
        ¬ v.Valid env.parsePubkeyHex ∧ ¬ v.trim.Valid env.parsePubkeyHex := by
  obtain ⟨a, ha⟩ := hlisten
  obtain ⟨b, hb⟩ := hremote
  have htrim : (fs.map Field.trim).Perm v.trim.fields := by
    rw [fields_trim]
    exact hfs.map Field.trim
  have hfile : ∀ c, env.parseStandaloneConfig text = .ok c ↔ v.Valid env.parsePubkeyHex ∧
      c = ⟨v.role, a, b, v.opts env.parsePubkeyHex⟩ := fun c => by
    rw [parseStandaloneConfig_eq htext ha hb, bind_eq_ok_iff]
    simp only [setAll_fields (List.Perm.refl v.fields), pure, Except.pure, Except.ok.injEq]
    constructor
    · rintro ⟨o, ⟨hv, rfl⟩, rfl⟩; exact ⟨hv, rfl⟩
    · rintro ⟨hv, rfl⟩; exact ⟨_, ⟨hv, rfl⟩, rfl⟩
  have hstring : ∀ o, parsePluginOpts env.parsePubkeyHex (pluginOpts fs) = .ok o ↔
      v.trim.Valid env.parsePubkeyHex ∧ o = v.trim.opts env.parsePubkeyHex := fun o => by
    rw [parsePluginOpts_eq, setAll_fields htrim]
  constructor
  · rintro (⟨e, e', he, he'⟩ | ⟨c, hc, ho⟩)
    · refine .inr ⟨fun hv => ?_, fun hv => ?_⟩
      · rw [(hfile _).mpr ⟨hv, rfl⟩] at he; cases he
      · rw [(hstring _).mpr ⟨hv, rfl⟩] at he'; cases he'
    · obtain ⟨-, rfl⟩ := (hfile c).mp hc
      exact .inl (opts_trim_iff.mp ((hstring _).mp ho).2.symm)
  · intro h
    by_cases hv : v.Valid env.parsePubkeyHex
    · have hpad : v.Unpadded env.parsePubkeyHex := h.resolve_right fun hn => hn.1 hv
      refine .inr ⟨_, (hfile _).mpr ⟨hv, rfl⟩, (hstring _).mpr ⟨(valid_trim hpad).mpr hv, ?_⟩⟩
      exact (opts_trim_iff.mpr hpad).symm
    · have hv' : ¬ v.trim.Valid env.parsePubkeyHex := by
        rcases h with hpad | hn
        · exact fun ht => hv ((valid_trim hpad).mp ht)
        · exact hn.2
      obtain ⟨e, he⟩ := error_of_ne_ok fun c hc => hv ((hfile c).mp hc).1
      obtain ⟨e', he'⟩ := error_of_ne_ok fun o ho => hv' ((hstring o).mp ho).1
      exact .inl ⟨e, e', he, he'⟩

/-! ### Two configurations -/

/-- The number of a hexadecimal digit. -/
def hexDigit (c : Char) : Option ℕ :=
  if c.isDigit then some (c.toNat - 48)
  else if 'a' ≤ c ∧ c ≤ 'f' then some (c.toNat - 87)
  else if 'A' ≤ c ∧ c ≤ 'F' then some (c.toNat - 55)
  else none

def hexBytes : List Char → Option (List UInt8)
  | [] => some []
  | [_] => none
  | a :: b :: cs => do
    let hi ← hexDigit a
    let lo ← hexDigit b
    let bytes ← hexBytes cs
    return UInt8.ofNat (16 * hi + lo) :: bytes

/-- The key with these 64 hexadecimal digits. -/
def keyOfHex (hex : String) : Option Key32 :=
  match hexBytes hex.toList with
  | some bytes => if h : bytes.length = 32 then some ⟨bytes, h⟩ else none
  | none => none

/-- An environment in which `text` is the JSON text of `file`. -/
def envOf (text : String) (file : StandaloneFile) : Env where
  parsePubkeyHex := keyOfHex
  SocketAddr := String
  fromStr t := if t = text then .ok file else .error "expected value at line 1 column 1"
  parseAddr s := if s = "127.0.0.1:1080" ∨ s = "203.0.113.10:8443" then some s else none
  toSocketAddrs _ := .error "Name or service not known"

theorem fromStr_envOf (text : String) (file : StandaloneFile) :
    (envOf text file).fromStr text = .ok file :=
  if_pos rfl

theorem parseConfigAddr_envOf (text what : String) (file : StandaloneFile) :
    (envOf text file).parseConfigAddr "127.0.0.1:1080" what = .ok "127.0.0.1:1080" ∧
    (envOf text file).parseConfigAddr "203.0.113.10:8443" what = .ok "203.0.113.10:8443" :=
  ⟨rfl, rfl⟩

/-- A client with a key, its password with all special characters. -/
def pinned : Values where
  role := .client
  password := some "p@ss=w;rd\\"
  sni := none
  serverkey := some "00112233445566778899aabbccddeeff00112233445566778899aabbccddeeff"
  key := none
  ping := none
  timeout := some 7

def pinnedText : String :=
  "\x7b\"role\":\"client\",\"listen\":\"127.0.0.1:1080\",\"remote\":\"203.0.113.10:8443\"," ++
    "\"password\":\"p@ss=w;rd\\\\\"," ++
    "\"serverkey\":\"00112233445566778899aabbccddeeff00112233445566778899aabbccddeeff\"," ++
    "\"timeout\":7\x7d"

def pinnedEnv : Env := envOf pinnedText (pinned.file "127.0.0.1:1080" "203.0.113.10:8443")

theorem sources_agree_pinned :
    Agree (pinnedEnv.parseStandaloneConfig pinnedText)
      (parsePluginOpts pinnedEnv.parsePubkeyHex (pluginOpts pinned.fields.reverse)) := by
  have htrim : ∀ hex, pinned.serverkey = some hex → trim hex = hex := by
    rintro hex ⟨⟩
    decide +kernel
  refine (sources_agree_iff (v := pinned) (fromStr_envOf _ _)
    ⟨_, (parseConfigAddr_envOf _ _ _).1⟩ ⟨_, (parseConfigAddr_envOf _ _ _).2⟩
    (List.reverse_perm _)).mpr (.inl ⟨?_, ?_, fun hex h => ?_, ?_⟩)
  · rintro p ⟨⟩; decide
  · rintro s ⟨⟩
  · rw [htrim hex h]
  · rintro h ⟨⟩

/-- A password that ends in a space. -/
def padded : Values where
  role := .client
  password := some "a "
  sni := none
  serverkey := none
  key := none
  ping := none
  timeout := none

def paddedText : String :=
  "\x7b\"role\":\"client\",\"listen\":\"127.0.0.1:1080\",\"remote\":\"203.0.113.10:8443\"," ++
    "\"password\":\"a \"\x7d"

def paddedEnv : Env := envOf paddedText (padded.file "127.0.0.1:1080" "203.0.113.10:8443")

/-- Both sources accept it, as different passwords. -/
theorem sources_disagree :
    paddedEnv.fromStr paddedText = .ok (padded.file "127.0.0.1:1080" "203.0.113.10:8443") ∧
    (∃ a, paddedEnv.parseConfigAddr "127.0.0.1:1080" "listen" = .ok a) ∧
    (∃ b, paddedEnv.parseConfigAddr "203.0.113.10:8443" "remote" = .ok b) ∧
    ¬ Agree (paddedEnv.parseStandaloneConfig paddedText)
      (parsePluginOpts paddedEnv.parsePubkeyHex (pluginOpts padded.fields)) := by
  refine ⟨fromStr_envOf _ _, ⟨_, (parseConfigAddr_envOf _ _ _).1⟩,
    ⟨_, (parseConfigAddr_envOf _ _ _).2⟩, ?_⟩
  have hfile : (paddedEnv.parseStandaloneConfig paddedText).toOption.map (·.opts.password) =
      some "a " := by
    decide
  have hstring : (parsePluginOpts paddedEnv.parsePubkeyHex (pluginOpts padded.fields)).toOption.map
      (·.password) = some "a" := by
    decide
  rintro (⟨e, e', he, he'⟩ | ⟨c, hc, ho⟩)
  · rw [he] at hfile; cases hfile
  · rw [hc] at hfile
    rw [ho] at hstring
    have h : some c.opts.password = some "a " := hfile
    have h' : some c.opts.password = some "a" := hstring
    rw [h] at h'
    exact absurd h' (by decide)

end Agreement

end QeliSsPlugin.Opts
