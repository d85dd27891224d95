import QeliSsPlugin.Opts.Agreement

/-!
# What a `plugin_opts` string means

`parse_plugin_opts` applies one entry after the other to the options so far. `parsePluginOpts_eq_meaning`
says what comes of it without the order: the first entry that is wrong by itself, whatever the others are,
is the error; and if there is none, every option is what its last entry says, under either of its names, or
its default (`meaning`).

* `foldlM_eq`, `foldl_last_or`: updates that fail independently of the state, and fields that every update
  writes or keeps;
* `assign`: what one entry does to the options;
* `PluginOpts.Sound`: what every accepted configuration meets, from either source.
-/

namespace QeliSsPlugin.Opts

open Handshake Lib

/-! ### Updates one after the other -/

section Updates

variable {α σ ε β : Type} {l : List α}

/-- The error, if there is one. -/
def unlessError (error? : Option ε) (a : σ) : Except ε σ :=
  match error? with
  | some error => .error error
  | none => .ok a

/-- Updates that fail or not whatever the state is: the first failure is the result. -/
theorem foldlM_eq {f : σ → α → Except ε σ} {error? : α → Option ε} {assign : σ → α → σ}
    (h : ∀ s a, f s a = unlessError (error? a) (assign s a)) (s : σ) :
    l.foldlM f s = unlessError (l.findSome? error?) (l.foldl assign s) := by
  induction l generalizing s with
  | nil => rfl
  | cons a l ih =>
    rw [List.foldlM_cons, h, List.findSome?_cons, List.foldl_cons]
    cases ha : error? a with
    | some error => rfl
    | none => exact ih (assign s a)

/-- An optional field that every update writes or keeps is what was written last. -/
theorem foldl_last_or {assign : σ → α → σ} {field : σ → Option β} {value : α → Option β}
    (h : ∀ s a, field (assign s a) = (value a).or (field s)) (s : σ) :
    field (l.foldl assign s) = ((l.filterMap value).getLast?).or (field s) := by
  induction l generalizing s with
  | nil => rfl
  | cons a l ih =>
    rw [List.foldl_cons, ih, h, List.filterMap_cons]
    cases ha : value a with
    | none => rfl
    | some b =>
      rw [List.getLast?_cons]
      cases (l.filterMap value).getLast? <;> rfl

theorem foldl_last_getD {assign : σ → α → σ} {field : σ → β} {value : α → Option β}
    (h : ∀ s a, field (assign s a) = (value a).getD (field s)) (s : σ) :
    field (l.foldl assign s) = ((l.filterMap value).getLast?).getD (field s) := by
  have hor : ∀ (o : Option β) (b : β), o.or (some b) = some (o.getD b) := by
    rintro (_ | a) b <;> rfl
  have hsome := @foldl_last_or _ _ _ l assign (fun s => some (field s)) value
    (fun s a => by rw [h, hor]) s
  rw [hor] at hsome
  exact Option.some.inj hsome

end Updates

/-! ### Entries -/

/-- A boolean as a role. -/
def readRole (value : String) : Option Role :=
  match parseBool "server" value with
  | .ok server => some (if server then .server else .client)
  | .error _ => none

def readSni (value : String) : Option String :=
  match validateSni value with
  | .ok () => some value
  | .error _ => none

/-- A number of seconds that is not zero. -/
def readTimeout (value : String) : Option UInt64 :=
  match parseU64 value with
  | some secs => if secs = 0 then none else some secs
  | none => none

/-- The value of an entry with one of the names. -/
def valueOf {β : Type} (names : List String) (read : String → Option β) (e : String × String) :
    Option β :=
  if e.1 ∈ names then read e.2 else none

/-- The value of the last such entry. -/
def lastValue {β : Type} (names : List String) (read : String → Option β)
    (es : List (String × String)) : Option β :=
  (es.filterMap (valueOf names read)).getLast?

section Meaning

variable (parsePubkeyHex : String → Option Key32)

/-- **What a list of entries means.** -/
def meaning (es : List (String × String)) : PluginOpts where
  role := (lastValue ["s", "server"] readRole es).getD .client
  password := (lastValue ["password", "pass"] some es).getD ""
  sni := (lastValue ["sni"] readSni es).getD "www.cloudflare.com"
  serverPublicKey := lastValue ["serverkey", "server_key"] parsePubkeyHex es
  serverPrivateKey := lastValue ["key"] parsePubkeyHex es
  pingSecs := (lastValue ["ping", "keepalive"] parseU32 es).getD 2
  dialTimeoutSecs := (lastValue ["timeout"] readTimeout es).getD 10

/-- What is wrong with an entry by itself. -/
def entryError (e : String × String) : Option String :=
  match applyEntry parsePubkeyHex {} e.1 e.2 with
  | .error error => some error
  | .ok _ => none

/-- What an entry does to the options if there is nothing wrong with it. -/
def assign (opts : PluginOpts) (e : String × String) : PluginOpts where
  role := (valueOf ["s", "server"] readRole e).getD opts.role
  password := (valueOf ["password", "pass"] some e).getD opts.password
  sni := (valueOf ["sni"] readSni e).getD opts.sni
  serverPublicKey := (valueOf ["serverkey", "server_key"] parsePubkeyHex e).or opts.serverPublicKey
  serverPrivateKey := (valueOf ["key"] parsePubkeyHex e).or opts.serverPrivateKey
  pingSecs := (valueOf ["ping", "keepalive"] parseU32 e).getD opts.pingSecs
  dialTimeoutSecs := (valueOf ["timeout"] readTimeout e).getD opts.dialTimeoutSecs

variable {parsePubkeyHex}

theorem readRole_cases (key value : String) :
    (∃ error, parseBool key value = .error error ∧ readRole value = none) ∨
      ∃ server, parseBool key value = .ok server ∧
        readRole value = some (if server then .server else .client) := by
  unfold readRole parseBool
  split
  · exact .inr ⟨_, rfl, rfl⟩
  · exact .inr ⟨_, rfl, rfl⟩
  · exact .inr ⟨_, rfl, rfl⟩
  · exact .inr ⟨_, rfl, rfl⟩
  · exact .inr ⟨_, rfl, rfl⟩
  · exact .inr ⟨_, rfl, rfl⟩
  · exact .inr ⟨_, rfl, rfl⟩
  · exact .inr ⟨_, rfl, rfl⟩
  · exact .inr ⟨_, rfl, rfl⟩
  · exact .inl ⟨_, rfl, rfl⟩

theorem readSni_cases (value : String) :
    (∃ error, validateSni value = .error error ∧ readSni value = none) ∨
      validateSni value = .ok () ∧ readSni value = some value := by
  unfold readSni
  cases h : validateSni value with
  | error error => exact .inl ⟨error, rfl, rfl⟩
  | ok _ => exact .inr ⟨rfl, rfl⟩

theorem parseKey_cases (name hex : String) :
    (∃ error, parseKey parsePubkeyHex name hex = .error error ∧ parsePubkeyHex hex = none) ∨
      ∃ key, parseKey parsePubkeyHex name hex = .ok key ∧ parsePubkeyHex hex = some key := by
  unfold parseKey
  cases parsePubkeyHex hex with
  | none => exact .inl ⟨_, rfl, rfl⟩
  | some key => exact .inr ⟨key, rfl, rfl⟩

/-- An error is the entry's own, and an entry without one is assigned. -/
theorem applyEntry_eq (opts : PluginOpts) (e : String × String) :
    applyEntry parsePubkeyHex opts e.1 e.2 =
      unlessError (entryError parsePubkeyHex e) (assign parsePubkeyHex opts e) := by
  obtain ⟨key, value⟩ := e
  unfold unlessError entryError assign valueOf
  simp only
  unfold applyEntry
  split
  case h_1 =>
    rcases readRole_cases "s" value with ⟨error, h, h'⟩ | ⟨server, h, h'⟩ <;>
      simp [h, h', bind, Except.bind, pure, Except.pure]
  case h_2 =>
    rcases readRole_cases "server" value with ⟨error, h, h'⟩ | ⟨server, h, h'⟩ <;>
      simp [h, h', bind, Except.bind, pure, Except.pure]
  case h_3 | h_4 => simp
  case h_5 =>
    rcases readSni_cases value with ⟨error, h, h'⟩ | ⟨h, h'⟩ <;>
      simp [h, h', bind, Except.bind, pure, Except.pure]
  case h_6 | h_7 =>
    rcases @parseKey_cases parsePubkeyHex "serverkey" value with ⟨error, h, h'⟩ | ⟨key, h, h'⟩ <;>
      simp [h, h', bind, Except.bind, pure, Except.pure]
  case h_8 =>
    rcases @parseKey_cases parsePubkeyHex "key" value with ⟨error, h, h'⟩ | ⟨key, h, h'⟩ <;>
      simp [h, h', bind, Except.bind, pure, Except.pure]
  case h_9 | h_10 => cases h : parseU32 value <;> simp
  case h_11 =>
    unfold readTimeout
    cases h : parseU64 value with
    | none => simp
    | some secs => by_cases hz : secs = 0 <;> simp [hz]
  case h_12 => simp_all

/-- Assigned one after the other, the entries come to what they mean. -/
theorem foldl_assign (es : List (String × String)) :
    es.foldl (assign parsePubkeyHex) {} = meaning parsePubkeyHex es := by
  have hrole := @foldl_last_getD _ _ _ es (assign parsePubkeyHex) PluginOpts.role _ (fun _ _ => rfl) {}
  have hpassword :=
    @foldl_last_getD _ _ _ es (assign parsePubkeyHex) PluginOpts.password _ (fun _ _ => rfl) {}
  have hsni := @foldl_last_getD _ _ _ es (assign parsePubkeyHex) PluginOpts.sni _ (fun _ _ => rfl) {}
  have hserverkey :=
    @foldl_last_or _ _ _ es (assign parsePubkeyHex) PluginOpts.serverPublicKey _ (fun _ _ => rfl) {}
  have hkey :=
    @foldl_last_or _ _ _ es (assign parsePubkeyHex) PluginOpts.serverPrivateKey _ (fun _ _ => rfl) {}
  have hping :=
    @foldl_last_getD _ _ _ es (assign parsePubkeyHex) PluginOpts.pingSecs _ (fun _ _ => rfl) {}
  have htimeout :=
    @foldl_last_getD _ _ _ es (assign parsePubkeyHex) PluginOpts.dialTimeoutSecs _ (fun _ _ => rfl) {}
  rw [Option.or_none] at hserverkey hkey
  generalize es.foldl (assign parsePubkeyHex) {} = opts at *
  obtain ⟨role, password, sni, serverkey, key, ping, timeout⟩ := opts
  subst hrole hpassword hsni hserverkey hkey hping htimeout
  rfl

/-- **What a `plugin_opts` string means**, whatever it is: the error of its first wrong entry; else that
there is no password, if the last one is empty or there is none; else what its entries mean, of which the
last of a kind counts. -/
theorem parsePluginOpts_eq_meaning (raw : String) :
    parsePluginOpts parsePubkeyHex raw =
      match (splitEntries raw).findSome? (entryError parsePubkeyHex) with
      | some error => .error error
      | none =>
        if (lastValue ["password", "pass"] some (splitEntries raw)).getD "" = "" then
          .error "password is required: set password=... (both sides)"
        else .ok (meaning parsePubkeyHex (splitEntries raw)) := by
  unfold parsePluginOpts
  rw [foldlM_eq applyEntry_eq, foldl_assign]
  unfold unlessError
  cases (splitEntries raw).findSome? (entryError parsePubkeyHex) with
  | some error => rfl
  | none =>
    have hpassword : (meaning parsePubkeyHex (splitEntries raw)).password =
        (lastValue ["password", "pass"] some (splitEntries raw)).getD "" := rfl
    simp only [bind, Except.bind, validateOpts, hpassword]
    split_ifs <;> rfl

end Meaning

/-! ### What is accepted -/

/-- **Options a runner can be started with.** -/
structure PluginOpts.Sound (opts : PluginOpts) : Prop where
  password : opts.password ≠ ""
  sni : validateSni opts.sni = .ok ()
  dialTimeoutSecs : opts.dialTimeoutSecs ≠ 0

section Sound

variable {parsePubkeyHex : String → Option Key32} {opts : PluginOpts}

/-- A value was read from an entry. -/
theorem exists_read {β : Type} {names : List String} {read : String → Option β}
    {es : List (String × String)} {b : β} (h : lastValue names read es = some b) :
    ∃ value, read value = some b := by
  have hmem : b ∈ es.filterMap (valueOf names read) := List.mem_of_getLast? h
  obtain ⟨e, -, he⟩ := List.mem_filterMap.mp hmem
  unfold valueOf at he
  split_ifs at he
  exact ⟨e.2, he⟩

theorem validateSni_of_readSni {value sni : String} (h : readSni value = some sni) :
    validateSni sni = .ok () := by
  rcases readSni_cases value with ⟨error, -, h'⟩ | ⟨hok, h'⟩
  · rw [h'] at h
    cases h
  · rw [h'] at h
    cases h
    exact hok

theorem ne_zero_of_readTimeout {value : String} {secs : UInt64} (h : readTimeout value = some secs) :
    secs ≠ 0 := by
  unfold readTimeout at h
  split at h
  · split_ifs at h with hz
    cases h
    exact hz
  · cases h

/-- What the entries mean is sound, if there is a password. -/
theorem meaning_sound {es : List (String × String)}
    (h : (meaning parsePubkeyHex es).password ≠ "") : (meaning parsePubkeyHex es).Sound := by
  refine ⟨h, ?_, ?_⟩
  · show validateSni ((lastValue ["sni"] readSni es).getD "www.cloudflare.com") = .ok ()
    cases hsni : lastValue ["sni"] readSni es with
    | none => decide
    | some sni =>
      obtain ⟨value, hvalue⟩ := exists_read hsni
      exact validateSni_of_readSni hvalue
  · show (lastValue ["timeout"] readTimeout es).getD 10 ≠ 0
    cases htimeout : lastValue ["timeout"] readTimeout es with
    | none => decide
    | some secs =>
      obtain ⟨value, hvalue⟩ := exists_read htimeout
      exact ne_zero_of_readTimeout hvalue

/-- What an accepted string is accepted as: there is nothing wrong with its entries, and there is a
password. -/
theorem parsePluginOpts_eq_ok {raw : String} (h : parsePluginOpts parsePubkeyHex raw = .ok opts) :
    (∀ e ∈ splitEntries raw, entryError parsePubkeyHex e = none) ∧
      opts = meaning parsePubkeyHex (splitEntries raw) ∧ opts.password ≠ "" := by
  unfold parsePluginOpts at h
  rw [foldlM_eq applyEntry_eq, foldl_assign, bind_eq_ok_iff] at h
  obtain ⟨opts', hentries, h⟩ := h
  obtain ⟨⟨⟩, hvalid, hpure⟩ := bind_eq_ok_iff.mp h
  cases hpure
  have hpassword : opts.password ≠ "" := by
    intro hempty
    rw [validateOpts, if_pos hempty] at hvalid
    cases hvalid
  unfold unlessError at hentries
  split at hentries
  · cases hentries
  · next hnone =>
    cases hentries
    exact ⟨List.findSome?_eq_none_iff.mp hnone, rfl, hpassword⟩

theorem parsePluginOpts_sound {raw : String} (h : parsePluginOpts parsePubkeyHex raw = .ok opts) :
    opts.Sound := by
  obtain ⟨-, rfl, hpassword⟩ := parsePluginOpts_eq_ok h
  exact meaning_sound hpassword

/-- The options of a file with this role. -/
def Values.ofFile (role : Role) (file : StandaloneFile) : Values :=
  ⟨role, file.password, file.sni, file.serverkey, file.key, file.ping, file.timeout⟩

theorem Values.Valid.sound {v : Values} (h : v.Valid parsePubkeyHex) :
    (v.opts parsePubkeyHex).Sound := by
  obtain ⟨⟨p, hp, hne⟩, hsni, -, -, htimeout⟩ := h
  refine ⟨?_, ?_, ?_⟩
  · show v.password.getD "" ≠ ""
    rw [hp, Option.getD_some]
    exact hne
  · show validateSni (v.sni.getD "www.cloudflare.com") = .ok ()
    cases hv : v.sni with
    | none => decide
    | some sni => exact hsni sni hv
  · show v.timeout.getD 10 ≠ 0
    cases hv : v.timeout with
    | none => decide
    | some secs =>
      rintro rfl
      exact htimeout hv

/-- A file sets its fields, and then its addresses are read. -/
theorem parseStandaloneConfig_bind {env : Env} {text : String} {file : StandaloneFile} {role : Role}
    (htext : env.fromStr text = .ok file) (hrole : parseRole file.role = .ok role) :
    env.parseStandaloneConfig text =
      setAll env.parsePubkeyHex (Values.ofFile role file).fields >>= fun opts =>
        env.parseConfigAddr file.listen "listen" >>= fun listen =>
          env.parseConfigAddr file.remote "remote" >>= fun remote =>
            pure ⟨role, listen, remote, opts⟩ := by
  have hok : ∀ {α β : Type} (x : α) (f : α → Except String β), (Except.ok x >>= f) = f x :=
    fun _ _ => rfl
  unfold Env.parseStandaloneConfig setAll Values.fields Values.ofFile
  rw [htext]
  simp only [List.foldlM_cons, List.foldlM_append, foldlM_toList, Except.mapError, hok, hrole,
    Field.set, bind_assoc, pure_bind]

theorem mapError_eq_ok_iff {α : Type} {r : Except String α} {f : String → String} {a : α} :
    r.mapError f = .ok a ↔ r = .ok a := by
  cases r <;> simp [Except.mapError]

/-- What an accepted file is accepted as. -/
theorem parseStandaloneConfig_eq_ok {env : Env} {text : String} {config : StandaloneConfig env}
    (h : env.parseStandaloneConfig text = .ok config) : ∃ file, env.fromStr text = .ok file ∧
      (Values.ofFile config.role file).Valid env.parsePubkeyHex ∧
      config.opts = (Values.ofFile config.role file).opts env.parsePubkeyHex := by
  have hsource := h
  unfold Env.parseStandaloneConfig at hsource
  obtain ⟨file, htext, hsource⟩ := bind_eq_ok_iff.mp hsource
  obtain ⟨role, hrole, -⟩ := bind_eq_ok_iff.mp hsource
  rw [mapError_eq_ok_iff] at htext
  rw [parseStandaloneConfig_bind htext hrole] at h
  obtain ⟨opts, hopts, h⟩ := bind_eq_ok_iff.mp h
  obtain ⟨listen, -, h⟩ := bind_eq_ok_iff.mp h
  obtain ⟨remote, -, h⟩ := bind_eq_ok_iff.mp h
  cases h
  obtain ⟨hvalid, rfl⟩ := (setAll_fields (List.Perm.refl _)).mp hopts
  exact ⟨file, htext, hvalid, rfl⟩

end Sound

end QeliSsPlugin.Opts
