import QeliSsPlugin.Handshake.Core
import QeliSsPlugin.Lib.Text

/-!
# The plugin options

`parse_plugin_opts` reads a `;`-separated list of `key=value` entries, in which `;`, `=` and `\` are
escaped by `\`: `split_entries` splits and unescapes it, and trims every key and every value;
`apply_entry` sets one option; `validate_opts` asks for a password. The keys are read by
`parse_pubkey_hex` of `qeli_core`, a parameter here.

`splitEntries_join`: what a joined list of entries is split into.
-/

namespace QeliSsPlugin.Opts

open Handshake Lib

/-! ### Strings and numbers -/

/-- Unicode's `White_Space`. -/
def isWhitespace (c : Char) : Bool :=
  let n := c.toNat
  (0x9 ≤ n && n ≤ 0xd) || n == 0x20 || n == 0x85 || n == 0xa0 || n == 0x1680 ||
    (0x2000 ≤ n && n ≤ 0x200a) || n == 0x2028 || n == 0x2029 || n == 0x202f || n == 0x205f ||
    n == 0x3000

/-- `str::trim`. -/
def trim (s : String) : String := .ofList (Text.trim isWhitespace s.toList)

/-- `str::is_ascii`. -/
def isAscii (s : String) : Bool := s.toList.all fun c => c.toNat < 128

/-- Read decimal digits after the number `n`; `none` if it reaches `bound`. -/
def parseDigits (bound : ℕ) : ℕ → List Char → Option ℕ
  | n, [] => some n
  | n, c :: cs =>
    if c.isDigit then
      let n := 10 * n + (c.toNat - '0'.toNat)
      if n < bound then parseDigits bound n cs else none
    else none

/-- `str::parse` for the unsigned integers below `bound`. -/
def parseUint (bound : ℕ) (s : String) : Option ℕ :=
  match s.toList with
  | [] => none
  | '+' :: cs => if cs = [] then none else parseDigits bound 0 cs
  | cs => parseDigits bound 0 cs

def parseU32 (s : String) : Option UInt32 := (parseUint UInt32.size s).map .ofNat

def parseU64 (s : String) : Option UInt64 := (parseUint UInt64.size s).map .ofNat

/-! ### The options -/

inductive Role
  | client
  | server
  deriving DecidableEq

structure PluginOpts where
  role : Role := .client
  password : String := ""
  sni : String := "www.cloudflare.com"
  serverPublicKey : Option Key32 := none
  serverPrivateKey : Option Key32 := none
  pingSecs : UInt32 := 2
  dialTimeoutSecs : UInt64 := 10
  deriving DecidableEq

/-- The server names that the hello builder takes, or markers. -/
def validateSni (sni : String) : Except String Unit :=
  if sni = "" ∨ sni = "!" ∨ sni = "~" ∨ sni = "@" ∨ isAscii sni ∧ sni.utf8ByteSize ≤ 253 then .ok ()
  else .error "sni must be an ASCII hostname of at most 253 bytes (or empty to omit)"

def parseBool (key value : String) : Except String Bool :=
  match trim value with
  | "1" | "true" | "yes" | "on" => .ok true
  | "0" | "false" | "no" | "off" | "" => .ok false
  | other => .error ("option '" ++ key ++ "' expects a boolean, got '" ++ other ++ "'")

def validateOpts (opts : PluginOpts) : Except String Unit :=
  if opts.password = "" then .error "password is required: set password=... (both sides)" else .ok ()

section

variable (parsePubkeyHex : String → Option Key32)

/-- `parse_pubkey_hex` with the error of the option `name`. -/
def parseKey (name hex : String) : Except String Key32 :=
  match parsePubkeyHex hex with
  | some key => .ok key
  | none => .error (name ++ " must be 64 hex chars")

/-- Apply one entry; an unknown key is ignored. -/
def applyEntry (opts : PluginOpts) (key value : String) : Except String PluginOpts :=
  match key with
  | "s" | "server" => do
    let server ← parseBool key value
    return { opts with role := if server then .server else .client }
  | "password" | "pass" => .ok { opts with password := value }
  | "sni" => do
    validateSni value
    return { opts with sni := value }
  | "serverkey" | "server_key" => do
    let key ← parseKey parsePubkeyHex "serverkey" value
    return { opts with serverPublicKey := some key }
  | "key" => do
    let key ← parseKey parsePubkeyHex "key" value
    return { opts with serverPrivateKey := some key }
  | "ping" | "keepalive" =>
    match parseU32 value with
    | some secs => .ok { opts with pingSecs := secs }
    | none => .error "ping must be a non-negative integer"
  | "timeout" =>
    match parseU64 value with
    | some secs =>
      if secs = 0 then .error "timeout must be at least 1 second"
      else .ok { opts with dialTimeoutSecs := secs }
    | none => .error "timeout must be a positive integer"
  | _ => .ok opts

end

/-! ### The entries -/

/-- The characters that an escape can stand before. -/
def isSpecial (c : Char) : Bool := c = ';' || c = '=' || c = '\\'

/-- One unescaped entry; `none` if it is blank or has no `=`. -/
def toEntry (entry : List Char) : Option (String × String) :=
  let entry := Text.trim isWhitespace entry
  if entry = [] then none
  else (Text.splitOnce '=' entry).map fun s => (trim (.ofList s.1), trim (.ofList s.2))

def splitEntries (raw : String) : List (String × String) :=
  (Text.splitEscaped '\\' ';' isSpecial [] raw.toList).filterMap toEntry

/-- **Parse a `plugin_opts` string.** -/
def parsePluginOpts (parsePubkeyHex : String → Option Key32) (raw : String) :
    Except String PluginOpts := do
  let opts ← (splitEntries raw).foldlM (fun opts e => applyEntry parsePubkeyHex opts e.1 e.2) {}
  validateOpts opts
  return opts

/-! ### Decimal numbers -/

theorem parseDigits_eq {bound : ℕ} {ds : List Char} (hd : ∀ c ∈ ds, c.isDigit = true) {n : ℕ}
    (h : Nat.ofDigitChars 10 ds n < bound) :
    parseDigits bound n ds = some (Nat.ofDigitChars 10 ds n) := by
  induction ds generalizing n with
  | nil => simp [parseDigits]
  | cons c ds ih =>
    rw [Nat.ofDigitChars_cons] at h ⊢
    have hle : 10 * n + (c.toNat - '0'.toNat) ≤
        Nat.ofDigitChars 10 ds (10 * n + (c.toNat - '0'.toNat)) := by
      rw [Nat.ofDigitChars_eq_ofDigitChars_zero]
      have hpos : 0 < 10 ^ ds.length := by positivity
      nlinarith
    have hlt : 10 * n + (c.toNat - '0'.toNat) < bound := by omega
    rw [parseDigits, if_pos (hd c List.mem_cons_self)]
    simp only [hlt, if_true]
    exact ih (fun x hx => hd x (List.mem_cons_of_mem _ hx)) h

theorem isDigit_of_mem_repr {n : ℕ} {c : Char} (h : c ∈ n.repr.toList) : c.isDigit = true := by
  rw [Nat.toList_repr] at h
  exact Nat.isDigit_of_mem_toDigits (by decide) (by decide) h

/-- Reading back a decimal number. -/
theorem parseUint_repr {bound n : ℕ} (h : n < bound) : parseUint bound n.repr = some n := by
  have hparse : parseDigits bound 0 n.repr.toList = some n := by
    rw [Nat.toList_repr] at *
    have hval : Nat.ofDigitChars 10 (Nat.toDigits 10 n) 0 = n := Nat.ofDigitChars_ten_toDigits
    rw [parseDigits_eq (fun c hc => Nat.isDigit_of_mem_toDigits (by decide) (by decide) hc)
      (by omega), hval]
  have hdigit : ∀ c ∈ n.repr.toList, c.isDigit = true := fun c hc => isDigit_of_mem_repr hc
  unfold parseUint
  split
  · next hnil =>
    rw [Nat.toList_repr] at hnil
    exact absurd hnil Nat.toDigits_ne_nil
  · next cs hplus =>
    rw [hplus] at hdigit
    exact absurd (hdigit '+' List.mem_cons_self) (by decide)
  · exact hparse

theorem isWhitespace_of_mem_repr {n : ℕ} {c : Char} (h : c ∈ n.repr.toList) :
    isWhitespace c = false := by
  have hdigit : 48 ≤ c.toNat ∧ c.toNat ≤ 57 := Char.isDigit_iff_toNat.mp (isDigit_of_mem_repr h)
  unfold isWhitespace
  simp only [Bool.or_eq_false_iff, Bool.and_eq_false_iff, decide_eq_false_iff_not,
    beq_eq_false_iff_ne]
  omega

theorem trim_repr (n : ℕ) : trim n.repr = n.repr := by
  have htrim := Text.trim_eq_self (fun c hc => isWhitespace_of_mem_repr (List.mem_of_head? hc))
    (fun c hc => isWhitespace_of_mem_repr (n := n) (List.mem_of_getLast? hc))
  rw [trim, htrim, String.ofList_toList]

/-! ### Joining the entries -/

/-- `w` is the entry `e` with its value escaped; whether a `=` in the value is escaped is free. -/
def Written (e : String × String) (w : String) : Prop :=
  ∃ x, Text.Escapes '\\' ';' isSpecial e.2.toList x ∧ w.toList = e.1.toList ++ '=' :: x

/-- The value with all special characters escaped. -/
def escapeValue (value : String) : String := .ofList (Text.escape '\\' isSpecial value.toList)

/-- The entry with its value escaped. -/
def writeEntry (e : String × String) : String := e.1 ++ "=" ++ escapeValue e.2

theorem written_writeEntry (e : String × String) : Written e (writeEntry e) := by
  refine ⟨Text.escape '\\' isSpecial e.2.toList, Text.escapes_escape rfl rfl _, ?_⟩
  simp [writeEntry, escapeValue]

@[simp] theorem toList_trim (s : String) : (trim s).toList = Text.trim isWhitespace s.toList := by
  simp [trim]

theorem toEntry_append (k v : List Char) (hk : '=' ∉ k) :
    toEntry (k ++ '=' :: v) = some (trim (.ofList k), trim (.ofList v)) := by
  have hws : isWhitespace '=' = false := by decide
  have hdrop : '=' ∉ k.dropWhile isWhitespace :=
    fun h => hk ((List.dropWhile_sublist _).subset h)
  unfold toEntry
  simp only [Text.trim_append_cons hws, Text.splitOnce_append _ _ hdrop]
  simp [trim, Text.trim_dropWhile, Text.trim_rdropWhile]

/-- **Splitting the joined entries gives them back**, up to whitespace around keys and values. -/
theorem splitEntries_join {es : List (String × String)} {ws : List String}
    (h : List.Forall₂ Written es ws) (hkey : ∀ e ∈ es, ∀ c ∈ e.1.toList, isSpecial c = false) :
    splitEntries (";".intercalate ws) = es.map fun e => (trim e.1, trim e.2) := by
  by_cases hes : es = []
  · subst hes
    cases h; decide
  have hfree : ∀ e ∈ es, ∀ c, isSpecial c = true → c ∉ e.1.toList := fun e he c hc hmem => by
    rw [hkey e he c hmem] at hc
    exact absurd hc (by decide)
  -- unescaped, the pieces are the entries with their values as they are
  have hsplit : Text.splitEscaped '\\' ';' isSpecial [] (";".intercalate ws).toList =
      es.map fun e => e.1.toList ++ '=' :: e.2.toList := by
    rw [String.toList_intercalate]
    refine Text.splitEscaped_intercalate (by decide) ?_ (by simpa using hes)
    rw [List.forall₂_map_left_iff, List.forall₂_map_right_iff]
    refine ((List.forall₂_and_left _ _).mpr ⟨hfree, h⟩).imp fun e w hew => ?_
    obtain ⟨hf, x, hx, hw⟩ := hew
    rw [hw]
    exact (Text.Escapes.refl (hf _ rfl) (hf _ rfl)).append (.plain (by decide) (by decide) hx)
  rw [splitEntries, hsplit, List.filterMap_map, ← List.filterMap_eq_map]
  refine List.filterMap_congr fun e he => ?_
  simp only [Function.comp_apply]
  rw [toEntry_append _ _ (hfree e he '=' rfl), String.ofList_toList, String.ofList_toList]

/-- A text without whitespace at its ends. -/
def Trimmed (s : String) : Prop :=
  (∀ c, s.toList.head? = some c → isWhitespace c = false) ∧
    ∀ c, s.toList.getLast? = some c → isWhitespace c = false

instance (s : String) : Decidable (Trimmed s) :=
  decidable_of_iff ((s.toList.head?.all (!isWhitespace ·) && s.toList.getLast?.all (!isWhitespace ·)) =
    true) (by simp [Trimmed, Option.all_eq_true])

theorem Trimmed.trim_eq {s : String} (h : Trimmed s) : trim s = s := by
  rw [trim, Text.trim_eq_self h.1 h.2, String.ofList_toList]

/-- **Escaping is undone.** For any entries whose keys have no special characters and whose keys and
values have no whitespace at their ends, splitting the joined `key=value` texts gives the entries
back, in order, when all special characters of the values are escaped and also when any `=` among them
is left as it is. -/
theorem splitEntries_roundtrip (es : List (String × String))
    (hkey : ∀ e ∈ es, (∀ c ∈ e.1.toList, isSpecial c = false) ∧ Trimmed e.1)
    (hvalue : ∀ e ∈ es, Trimmed e.2) :
    splitEntries (";".intercalate (es.map writeEntry)) = es ∧
      ∀ ws, List.Forall₂ Written es ws → splitEntries (";".intercalate ws) = es := by
  have hall : ∀ ws, List.Forall₂ Written es ws → splitEntries (";".intercalate ws) = es := by
    intro ws hws
    rw [splitEntries_join hws fun e he => (hkey e he).1]
    have hid : ∀ e ∈ es, (trim e.1, trim e.2) = e := by
      intro e he
      rw [(hkey e he).2.trim_eq, (hvalue e he).trim_eq]
    exact (List.map_congr_left hid).trans (List.map_id es)
  refine ⟨hall _ ?_, hall⟩
  rw [List.forall₂_map_right_iff]
  exact List.forall₂_same.mpr fun e _ => written_writeEntry e

/-- A value with separators, one that ends in backslashes, and an empty one. -/
def awkward : List (String × String) :=
  [("password", "a;b=c\\\\;"), ("sni", "x\\\\"), ("key", "")]

theorem splitEntries_awkward :
    splitEntries "password=a\\;b\\=c\\\\\\\\\\;;sni=x\\\\\\\\;key=" = awkward := by
  have hwritten : ";".intercalate (awkward.map writeEntry) =
      "password=a\\;b\\=c\\\\\\\\\\;;sni=x\\\\\\\\;key=" := by decide
  have hkey : ∀ e ∈ awkward, (e.1.toList.all (!isSpecial ·)) = true ∧ Trimmed e.1 := by decide
  rw [← hwritten]
  refine (splitEntries_roundtrip awkward (fun e he => ⟨fun c hc => ?_, (hkey e he).2⟩) (by decide)).1
  simpa using List.all_eq_true.mp (hkey e he).1 c hc

end QeliSsPlugin.Opts
