import QeliSsPlugin.Opts.PluginOpts

/-! # The command line

The argument loop of `main` and the grammar that the usage text and the README document: the flags
`-c <file>`, `-client`, `-genkey`, `-h`, `-s` and `-v`, and one options string (`Item`). The loop reads
what is documented, except for `-client`, which it knows only as `--client`: `argLoop_documented_iff`. -/

namespace QeliSsPlugin.Cli

open QeliSsPlugin.Opts

/-- What the loop has collected. -/
structure Args where
  genkey : Bool := false
  roleFlag : Option Role := none
  optsArg : Option String := none
  configPath : Option String := none
  deriving DecidableEq

/-- How the loop ends without an error: at the end of the arguments, or because it has printed the
help or the version. -/
inductive Finish
  | done | help | version
  deriving DecidableEq

/-- The arms of `match arg.as_str()`. -/
inductive Arm
  | config | genkey | server | client | help | version | positional | unknown
  deriving DecidableEq

/-- `starts_with('-')`. -/
def startsWithDash (s : String) : Bool := s.toList.head? = some '-'

/-- The arm an argument selects. -/
def arm (arg : String) : Arm :=
  match arg with
  | "--config" | "-c" => .config
  | "--genkey" | "-genkey" => .genkey
  | "--server" | "-s" => .server
  | "--client" => .client
  | "--help" | "-h" => .help
  | "--version" | "-v" | "-V" => .version
  | other => if startsWithDash other then .unknown else .positional

/-- **The argument loop.** -/
def argLoop (args : Args) : List String → Except String (Finish × Args)
  | [] => .ok (.done, args)
  | arg :: rest =>
    match arm arg with
    | .config =>
      match rest with
      | [] => .error "--config requires a file path"
      | path :: rest => argLoop { args with configPath := some path } rest
    | .genkey => argLoop { args with genkey := true } rest
    | .server => argLoop { args with roleFlag := some .server } rest
    | .client => argLoop { args with roleFlag := some .client } rest
    | .help => .ok (.help, args)
    | .version => .ok (.version, args)
    | .positional =>
      if args.optsArg.isSome then .error ("unexpected extra argument: " ++ arg)
      else argLoop { args with optsArg := some arg } rest
    | .unknown => .error ("unknown flag: " ++ arg ++ " (see --help)")

theorem arm_of_not_dash {s : String} (h : startsWithDash s = false) : arm s = .positional := by
  unfold arm
  split
  all_goals first | exact absurd h (by decide) | rw [h]; rfl

/-- Arguments read to their end leave the loop ready for more. -/
theorem argLoop_append {args args' : Args} {xs : List String}
    (h : argLoop args xs = .ok (.done, args')) (ys : List String) :
    argLoop args (xs ++ ys) = argLoop args' ys := by
  induction args, xs using argLoop.induct with
  | case1 args =>
    cases h
    rfl
  | case2 args arg harm | case7 args arg rest harm | case8 args arg rest harm
  | case11 args arg rest harm =>
    rw [argLoop.eq_def] at h
    simp only [harm] at h
    cases h
  | case3 args arg harm path rest ih | case4 args arg rest harm ih | case5 args arg rest harm ih
  | case6 args arg rest harm ih =>
    rw [argLoop.eq_def] at h
    simp only [harm] at h
    rw [List.cons_append, argLoop.eq_def]
    simp only [harm]
    exact ih h
  | case9 args arg rest harm hsome =>
    rw [argLoop.eq_def] at h
    simp only [harm, hsome, if_true] at h
    cases h
  | case10 args arg rest harm hsome ih =>
    rw [argLoop.eq_def] at h
    simp only [harm, if_neg hsome] at h
    rw [List.cons_append, argLoop.eq_def]
    simp only [harm, if_neg hsome]
    exact ih h

/-! ### The documented grammar -/

/-- An item of a documented command line. -/
inductive Item
  | config (path : String)
  | client
  | genkey
  | help
  | server
  | version
  /-- The options string. -/
  | options (opts : String)
  deriving DecidableEq

namespace Item

/-- The arguments an item is written as. -/
def words : Item → List String
  | .config path => ["-c", path]
  | .client => ["-client"]
  | .genkey => ["-genkey"]
  | .help => ["-h"]
  | .server => ["-s"]
  | .version => ["-v"]
  | .options opts => [opts]

/-- Whether the item asks for a text and nothing else. -/
def ends : Item → Bool
  | .help | .version => true
  | _ => false

def path? : Item → Option String
  | .config path => some path
  | _ => none

def role? : Item → Option Role
  | .server => some .server
  | .client => some .client
  | _ => none

def options? : Item → Option String
  | .options opts => some opts
  | _ => none

end Item

/-- The arguments of a list of items. -/
def commandLine (items : List Item) : List String := items.flatMap Item.words

/-- **A documented command line**: any items in any order, with at most one options string, which does
not begin with a dash. -/
structure Documented (items : List Item) : Prop where
  options : ∀ opts ∈ items.filterMap Item.options?, startsWithDash opts = false
  one : (items.filterMap Item.options?).length ≤ 1

/-- The items up to the first `-h` or `-v`. -/
def read (items : List Item) : List Item := items.takeWhile fun i => !i.ends

/-- **What the documents promise**: no error, the path of the last `-c`, the role of the last `-s` or
`-client`, and the options string, of the items up to the first `-h` or `-v`. -/
def AsDocumented (items : List Item) : Prop :=
  ∃ finish args, argLoop {} (commandLine items) = .ok (finish, args) ∧
    args.configPath = ((read items).filterMap Item.path?).getLast? ∧
    args.roleFlag = ((read items).filterMap Item.role?).getLast? ∧
    args.optsArg = ((read items).filterMap Item.options?).getLast?

/-! ### What the loop does on it -/

/-- What the loop collects from one item. -/
def collect (args : Args) : Item → Args
  | .config path => { args with configPath := some path }
  | .client => { args with roleFlag := some .client }
  | .genkey => { args with genkey := true }
  | .server => { args with roleFlag := some .server }
  | .options opts => { args with optsArg := some opts }
  | .help | .version => args

/-- A field that every item overwrites or keeps is the last value written. -/
theorem foldl_last {α : Type} (field : Args → Option α) (value : Item → Option α)
    (h : ∀ args i, field (collect args i) = (value i).or (field args)) (items : List Item)
    (args : Args) :
    field (items.foldl collect args) = (items.filterMap value).getLast?.or (field args) := by
  induction items generalizing args with
  | nil => rfl
  | cons i items ih =>
    rw [List.foldl_cons, ih, h, List.filterMap_cons]
    cases hv : value i with
    | none => rfl
    | some v =>
      simp only [Option.some_or, List.getLast?_cons]
      cases (items.filterMap value).getLast? <;> rfl

/-- One item that the loop knows and that does not end it. -/
theorem argLoop_words {i : Item} {args : Args} (hclient : i ≠ .client) (hends : i.ends = false)
    (hopts : ∀ opts, i.options? = some opts → startsWithDash opts = false ∧ args.optsArg = none)
    (rest : List String) : argLoop args (i.words ++ rest) = argLoop (collect args i) rest := by
  cases i with
  | config path => rfl
  | client => exact absurd rfl hclient
  | genkey => rfl
  | help => cases hends
  | server => rfl
  | version => cases hends
  | options opts =>
    obtain ⟨hdash, hnone⟩ := hopts opts rfl
    have harm := arm_of_not_dash hdash
    show argLoop args (opts :: rest) = argLoop { args with optsArg := some opts } rest
    rw [argLoop.eq_def]
    simp only [harm, hnone, Option.isSome_none, Bool.false_eq_true, if_false]

theorem argLoop_ends {i : Item} (h : i.ends = true) (args : Args) (rest : List String) :
    ∃ finish, argLoop args (i.words ++ rest) = .ok (finish, args) := by
  cases i with
  | help => exact ⟨.help, rfl⟩
  | version => exact ⟨.version, rfl⟩
  | _ => cases h

theorem argLoop_client (args : Args) (rest : List String) :
    argLoop args (Item.client.words ++ rest) = .error "unknown flag: -client (see --help)" := by
  rfl

/-- The items that the loop has still to read: the options string comes at most once more, and not if
there was one already. -/
structure Pending (args : Args) (items : List Item) : Prop where
  documented : Documented items
  fresh : args.optsArg ≠ none → items.filterMap Item.options? = []

theorem Pending.next {args : Args} {i : Item} {items : List Item} (h : Pending args (i :: items)) :
    (∀ opts, i.options? = some opts → startsWithDash opts = false ∧ args.optsArg = none) ∧
      Pending (collect args i) items := by
  obtain ⟨⟨hopts, hone⟩, hfresh⟩ := h
  have hkeep : i.options? = none → (collect args i).optsArg = args.optsArg := by
    cases i <;> simp [Item.options?, collect]
  rw [List.filterMap_cons] at hopts hone hfresh
  cases hi : i.options? with
  | none =>
    rw [hi] at hopts hone hfresh
    refine ⟨fun opts h => (by cases h), ⟨hopts, hone⟩, fun hne => hfresh ?_⟩
    rwa [← hkeep hi]
  | some opts =>
    rw [hi] at hopts hone hfresh
    simp only [List.length_cons, List.mem_cons, forall_eq_or_imp] at hopts hone
    have hnil : items.filterMap Item.options? = [] := List.length_eq_zero_iff.mp (by omega)
    have hnone : args.optsArg = none := by
      by_contra hne
      exact absurd (hfresh hne) (List.cons_ne_nil _ _)
    refine ⟨fun opts' h => ?_, ⟨hopts.2, by omega⟩, fun _ => hnil⟩
    cases h
    exact ⟨hopts.1, hnone⟩

/-- The loop collects what it reads, up to the first `-h` or `-v`, unless it meets `-client`. -/
theorem argLoop_commandLine (items : List Item) (args : Args) (h : Pending args items) :
    if .client ∈ read items then
      argLoop args (commandLine items) = .error "unknown flag: -client (see --help)"
    else ∃ finish, argLoop args (commandLine items) = .ok (finish, (read items).foldl collect args) := by
  induction items generalizing args with
  | nil => exact ⟨.done, rfl⟩
  | cons i items ih =>
    obtain ⟨hopts, hnext⟩ := h.next
    have hline : commandLine (i :: items) = i.words ++ commandLine items := by simp [commandLine]
    rw [hline]
    by_cases hends : i.ends = true
    · have hread : read (i :: items) = [] := by simp [read, hends]
      rw [hread, if_neg (by simp)]
      exact argLoop_ends hends args _
    · have hends : i.ends = false := by simpa using hends
      have hread : read (i :: items) = i :: read items := by simp [read, hends]
      rw [hread]
      by_cases hclient : i = .client
      · subst hclient
        rw [if_pos List.mem_cons_self]
        exact argLoop_client args _
      · have hmem : Item.client ∈ i :: read items ↔ Item.client ∈ read items := by
          rw [List.mem_cons]
          exact or_iff_right (Ne.symm hclient)
        rw [argLoop_words hclient hends hopts, List.foldl_cons]
        simp only [hmem]
        exact ih _ hnext

/-- **The command line is read as documented exactly where `-client` is not used**: a documented
command line is accepted, with the config path of its last `-c`, the role of its last `-s` or `-client`
and its options string, if and only if no `-client` comes before the first `-h` or `-v`. -/
theorem argLoop_documented_iff {items : List Item} (hd : Documented items) :
    AsDocumented items ↔ .client ∉ read items := by
  have hloop := argLoop_commandLine items {} ⟨hd, fun h => absurd rfl h⟩
  constructor
  · rintro ⟨finish, args, hok, -⟩ hmem
    rw [if_pos hmem, hok] at hloop
    cases hloop
  · intro hmem
    rw [if_neg hmem] at hloop
    obtain ⟨finish, hok⟩ := hloop
    refine ⟨finish, _, hok, ?_, ?_, ?_⟩
    · have hlast := foldl_last Args.configPath Item.path? (by intro args i; cases i <;> rfl)
        (read items) {}
      rw [hlast, Option.or_none]
    · have hlast := foldl_last Args.roleFlag Item.role? (by intro args i; cases i <;> rfl)
        (read items) {}
      rw [hlast, Option.or_none]
    · have hlast := foldl_last Args.optsArg Item.options? (by intro args i; cases i <;> rfl)
        (read items) {}
      rw [hlast, Option.or_none]

/-- A role, an options string, a config path that looks like a flag, and a `-client` after the
`-v`. -/
theorem asDocumented_dashPath :
    AsDocumented [.config "a.json", .server, .options "password=x", .config "-client", .version,
      .client] :=
  (argLoop_documented_iff ⟨by decide, by decide⟩).mpr (by decide)

/-- The documented flag `-client` is refused. -/
theorem client_refused :
    argLoop {} ["-client"] = .error "unknown flag: -client (see --help)" ∧
      ¬ ∀ items, Documented items → AsDocumented items := by
  refine ⟨rfl, fun h => ?_⟩
  obtain ⟨finish, args, hok, -⟩ := h [.client] ⟨by decide, by decide⟩
  cases hok

end QeliSsPlugin.Cli
