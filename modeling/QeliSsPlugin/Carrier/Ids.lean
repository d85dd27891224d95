import QeliSsPlugin.Carrier.History

/-!
# Fresh stream ids

`alloc_id` counts in 32 bits and wraps, without a look at the registry. Against a server that opens no
streams the client numbers its streams from 1, so an id comes round after `2^32` allocations: a stream
that is still registered then is displaced by a new one (`id_comes_round`). As long as no id in use is
that old, every allocated id is fresh (`fresh_of_young`).
-/

namespace QeliSsPlugin.Carrier.Endpoint

open QeliSsPlugin.Lib.Runs QeliSsPlugin.Mux

variable {e e' : Endpoint} {a : Act} {pingSecs k m : ℕ} {t : List (Endpoint × Act)}

/-- The server sends no OPEN. -/
def NoOpenStep (_e : Endpoint) (a : Act) : Prop :=
  ∀ rs, a = .readerRead rs → ∀ id, .good (.open id) ∉ rs

/-- The id of instance `k` is in use: registered, or about to be. -/
def InUse (e : Endpoint) (k : ℕ) : Prop :=
  (e.inst k).phase = .allocated ∨ e.streams (e.inst k).id = some k

/-- **Fresh ids**: an id that is allocated is not in the registry, and registering it displaces
nothing. -/
structure FreshAt (e : Endpoint) (a : Act) : Prop where
  alloc : a = .accept → e.streams e.nextId = none
  register : ∀ k, a = .register k → e.streams (e.inst k).id = none

/-- When an id is allocated, no id in use was allocated `2^32` or more allocations before. -/
def YoungStep (e : Endpoint) (a : Act) : Prop :=
  a = .accept → ∀ k, InUse e k → e.n < k + 2 ^ 32

/-! ### Ids in use -/

theorem InUse.lt (hi : Instances e) (h : InUse e k) : k < e.n := by
  rcases h with h | h
  · exact hi.lt (by simp [h])
  · exact (hi.registered _ k h).1

/-- An id in use was in use before the step, or is new. -/
theorem inUse_of_step (hi : Instances e) (h : e.Step a e') (hu : InUse e' k) :
    InUse e k ∨ k = e.n ∧ e'.n = e.n + 1 := by
  have hlt := hu.lt (instances_step hi h)
  by_cases hk : k < e.n
  · left
    rcases hu with hp | hs
    · rcases onward_of_step h hk with hsame | hon
      · exact .inl (hsame ▸ hp)
      · exact .inl (hon.allocated hp)
    · rw [id_of_step h hk] at hs
      rcases step_streams h with hold | ⟨j, hp, -, hs'⟩ | ⟨id', -, -, hs'⟩
      · exact .inr (hold _ k hs)
      · rw [hs', Function.update_apply] at hs
        split_ifs at hs
        · exact .inl (Option.some.inj hs ▸ hp)
        · exact .inr hs
      · rw [hs', Function.update_apply] at hs
        split_ifs at hs
        · exact absurd (Option.some.inj hs) (by omega)
        · exact .inr hs
  · rcases step_inst h with ⟨hn, -⟩ | ⟨-, hn, -⟩ | ⟨-, hn, -⟩
    · omega
    · omega
    · exact .inr ⟨by omega, hn⟩

/-- The client's ids are its instances counted from 1, and those in use are at most `2^32` apart. -/
structure Counted (e : Endpoint) : Prop where
  side : e.side = .client
  instances : Instances e
  numbered : Numbered e
  noOpen : ∀ id, .good (.open id) ∉ e.handled ++ e.records
  young : ∀ k, InUse e k → e.n ≤ k + 2 ^ 32

theorem counted_spawnTunnel : Counted (spawnTunnel .client pingSecs) := by
  refine ⟨rfl, instances_spawnTunnel, numbered_spawnTunnel, by simp [spawnTunnel], fun k _ => ?_⟩
  exact Nat.zero_le _

theorem good_of_mem_opens {os : List Outcome} {id : UInt32} (h : id ∈ opens (goods os)) :
    .good (.open id) ∈ os := by
  obtain ⟨o, ho, hf⟩ := List.mem_filterMap.mp (mem_opens.mp h)
  rcases o with f | _ | _
  · obtain rfl : f = .open id := by simpa [Outcome.frame?] using hf
    exact ho
  · cases hf
  · cases hf

theorem Counted.opens_handled (hi : Counted e) : opens (goods e.handled) = [] := by
  rw [List.eq_nil_iff_forall_not_mem]
  exact fun id hid => hi.noOpen id (List.mem_append_left _ (good_of_mem_opens hid))

theorem counted_step (hi : Counted e) (hno : NoOpenStep e a) (hy : YoungStep e a)
    (h : e.Step a e') : Counted e' := by
  have hno' : ∀ id, .good (.open id) ∉ e'.handled ++ e'.records := by
    intro id hid
    rcases step_received h with hr | ⟨rs, ha, hr⟩
    · exact hi.noOpen id (hr ▸ hid)
    · rw [hr] at hid
      rcases List.mem_append.mp hid with hid | hid
      · exact hi.noOpen id hid
      · exact hno rs ha id hid
  refine ⟨(step_side h).trans hi.side, instances_step hi.instances h, numbered_step hi.numbered h,
    hno', fun k hk => ?_⟩
  rcases step_create h with ⟨hn, -⟩ | ⟨ha, -, hn, -⟩ | ⟨id, -, -, hopen⟩
  · rcases inUse_of_step hi.instances h hk with hk | ⟨-, hn'⟩
    · rw [hn]; exact hi.young k hk
    · omega
  · rcases inUse_of_step hi.instances h hk with hk | ⟨rfl, -⟩
    · have := hy ha k hk
      omega
    · omega
  · -- no OPEN was handled
    have hmem : id ∈ opens (goods e'.handled) := by rw [hopen]; simp
    exact absurd (List.mem_append_left _ (good_of_mem_opens hmem)) (hno' id)

theorem Counted.id_eq (hi : Counted e) (hk : k < e.n) : (e.inst k).id.toNat = (k + 1) % 2 ^ 32 := by
  rw [(hi.numbered.client hi.side hi.opens_handled).2 k hk, UInt32.toNat_ofNat']

theorem Counted.nextId_eq (hi : Counted e) : e.nextId.toNat = (e.n + 1) % 2 ^ 32 := by
  rw [(hi.numbered.client hi.side hi.opens_handled).1, UInt32.toNat_ofNat']

/-- Two ids in use are different. -/
theorem Counted.eq_of_inUse (hi : Counted e) {j : ℕ} (hj : InUse e j) (hk : InUse e k)
    (hid : (e.inst j).id = (e.inst k).id) : j = k := by
  have hj' := hj.lt hi.instances
  have hk' := hk.lt hi.instances
  have hyj := hi.young j hj
  have hyk := hi.young k hk
  have hmod := congrArg UInt32.toNat hid
  rw [hi.id_eq hj', hi.id_eq hk'] at hmod
  omega

theorem freshAt_of_counted (hi : Counted e) (hy : YoungStep e a) (hs : e.step a = some e') :
    FreshAt e a := by
  refine ⟨fun ha => ?_, fun k ha => ?_⟩
  · -- the registered instance with this id would be exactly `2^32` allocations old
    by_contra hne
    obtain ⟨k, hk⟩ := Option.ne_none_iff_exists'.mp hne
    obtain ⟨hlt, hid, -⟩ := hi.instances.registered _ k hk
    have hage := hy ha k (.inr (by rw [hid]; exact hk))
    have hmod := congrArg UInt32.toNat hid
    rw [hi.id_eq hlt, hi.nextId_eq] at hmod
    omega
  · subst ha
    by_contra hne
    obtain ⟨j, hj⟩ := Option.ne_none_iff_exists'.mp hne
    obtain ⟨-, hid, hph⟩ := hi.instances.registered _ j hj
    have halloc : (e.inst k).phase = .allocated := by
      simp only [step] at hs
      split at hs
      · assumption
      · cases hs
    obtain rfl := hi.eq_of_inUse (.inr (by rw [hid]; exact hj)) (.inl halloc) hid
    exact hph halloc

/-- **When stream ids are fresh.** In every run of a client tunnel against a server that sends no
OPEN, in which no id is allocated while an id in use is `2^32` or more allocations old, every id that
is allocated is absent from the registry, and every registration displaces nothing. -/
theorem fresh_of_young (h : Trace step (spawnTunnel .client pingSecs) t e)
    (hno : ∀ x ∈ t, NoOpenStep x.1 x.2) (hyoung : ∀ x ∈ t, YoungStep x.1 x.2) :
    ∀ x ∈ t, FreshAt x.1 x.2 := by
  refine (h.invariant (I := fun t e => (∀ x ∈ t, NoOpenStep x.1 x.2) →
    (∀ x ∈ t, YoungStep x.1 x.2) → Counted e ∧ ∀ x ∈ t, FreshAt x.1 x.2)
    (fun _ _ => ⟨counted_spawnTunnel, by simp⟩) fun ih hs hno hyoung => ?_) hno hyoung |>.2
  simp only [List.mem_append, List.mem_singleton, or_imp, forall_and, forall_eq] at hno hyoung ⊢
  obtain ⟨hi, hfresh⟩ := ih hno.1 hyoung.1
  exact ⟨counted_step hi hno.2 hyoung.2 (.of_step hs), hfresh, freshAt_of_counted hi hyoung.2 hs⟩

/-! ### An id that comes round -/

/-- The client is at rest after `m` streams, the first of which still runs. -/
structure Rested (m : ℕ) (e : Endpoint) : Prop where
  side : e.side = .client
  n : e.n = m
  nextId : e.nextId = UInt32.ofNat (m + 1)
  registered : e.streams 1 = some 0
  running : (e.inst 0).phase = .pump .reading .receiving
  frames : e.frames = []
  framesOpen : e.framesOpen = true
  dead : e.dead = false
  reader : e.reader = .select
  records : e.records = []
  writer : e.writer = .select

/-- `NoOpenStep`, evaluated. -/
def noOpenCheck (_e : Endpoint) : Act → Bool
  | .readerRead rs => (opens (goods rs)).isEmpty
  | _ => true

theorem noOpenStep_of_check (h : noOpenCheck e a = true) : NoOpenStep e a := by
  rintro rs rfl id hid
  have hmem : id ∈ opens (goods rs) := mem_opens.mpr (List.mem_filterMap.mpr ⟨_, hid, rfl⟩)
  rw [noOpenCheck, List.isEmpty_iff] at h
  rw [h] at hmem; cases hmem

/-- The first stream is opened, and its OPEN written. -/
def firstStream : List Act :=
  [.accept, .register 0, .open 0, .spawn 0, .writerTop, .writerTake, .wrote, .writerTop, .readerTop,
    .dispatch]

/-- One more stream is opened. -/
def openShort (m : ℕ) : List Act :=
  [.accept, .register m, .open m, .writerTake, .wrote, .writerTop, .spawn m]

/-- Its local socket ends, and a CLOSE is written. -/
def closeUp (m : ℕ) : List Act := [.upEof m, .upClose m, .writerTake, .wrote, .writerTop]

/-- The peer's CLOSE ends its pump. -/
def closeDown (m : ℕ) : List Act :=
  [.readerRead [.good (.close (UInt32.ofNat (m + 1)))], .readerTop, .dispatch, .dispatch, .downEnd m]

theorem rested_firstStream :
    ∃ e, exec (guard noOpenCheck step) (spawnTunnel .client 0) firstStream = some e ∧ Rested 1 e :=
  ⟨_, rfl, rfl, rfl, rfl, rfl, rfl, rfl, rfl, rfl, rfl, rfl, rfl⟩

/-- The state between the parts of a short stream: at rest, with its pump where `up` is. -/
structure Midway (m : ℕ) (up : Up) (e : Endpoint) : Prop where
  rested : Rested (m + 1) e
  pump : e.inst m = .fresh (UInt32.ofNat (m + 1)) (.pump up .receiving)

theorem midway_openShort (h : Rested m e) (hpos : 0 < m) (hid : UInt32.ofNat (m + 1) ≠ 1) :
    ∃ e', exec (guard noOpenCheck step) e (openShort m) = some e' ∧ Midway m .reading e' := by
  obtain ⟨hside, hn, hnext, hreg, hrun, hframes, hopen, hdead, hreader, hrecords, hwriter⟩ := h
  have hnext' : e.nextId + 1 = UInt32.ofNat (m + 1 + 1) := by
    rw [hnext]; exact (UInt32.ofNat_add _ _).symm
  rw [← hnext] at hid
  simp only [openShort, exec, Lib.Runs.guard, noOpenCheck]
  simp [step, hside, hn, hframes, hopen, hdead, hwriter, hasRoom, frameChannelCapacity, Stream.fresh]
  refine ⟨⟨rfl, rfl, hnext', ?_, ?_, rfl, rfl, rfl, hreader, hrecords, rfl⟩, ?_⟩
  · simp [Function.update_of_ne hid.symm, hreg]
  · simp [hn, Function.update_of_ne hpos.ne, hrun]
  · simp [hn, ← hnext, Stream.fresh]

theorem midway_closeUp (h : Midway m .reading e) (hpos : 0 < m) :
    ∃ e', exec (guard noOpenCheck step) e (closeUp m) = some e' ∧ Midway m .done e' := by
  obtain ⟨⟨hside, hn, hnext, hreg, hrun, hframes, hopen, hdead, hreader, hrecords, hwriter⟩, hpump⟩ := h
  simp only [closeUp, exec, Lib.Runs.guard, noOpenCheck]
  simp [step, hframes, hopen, hdead, hwriter, hasRoom, frameChannelCapacity, hpump, Stream.fresh]
  refine ⟨⟨hside, hn, hnext, hreg, ?_, rfl, rfl, rfl, hreader, hrecords, rfl⟩, ?_⟩
  · simp [Function.update_of_ne hpos.ne, hrun]
  · simp [hpump, Stream.fresh]

theorem rested_closeDown (h : Midway m .done e) (hpos : 0 < m) (hid : UInt32.ofNat (m + 1) ≠ 1) :
    ∃ e', exec (guard noOpenCheck step) e (closeDown m) = some e' ∧ Rested (m + 1) e' := by
  obtain ⟨⟨hside, hn, hnext, hreg, hrun, hframes, hopen, hdead, hreader, hrecords, hwriter⟩, hpump⟩ := h
  simp only [closeDown, exec, Lib.Runs.guard, noOpenCheck]
  generalize UInt32.ofNat (m + 1) = x at hid hpump ⊢
  simp [step, hdead, hreader, hrecords, hpump, Stream.fresh, dispatchRecord, dispatchFrame, judge,
    senderHeld, goods, opens, Outcome.frame?]
  refine ⟨hside, hn, hnext, ?_, ?_, hframes, hopen, rfl, rfl, rfl, hwriter⟩
  · simp [Function.update_of_ne hid.symm, hreg]
  · simp [Function.update_of_ne hpos.ne, hrun]

theorem rested_shortStream (h : Rested m e) (hpos : 0 < m) (hid : UInt32.ofNat (m + 1) ≠ 1) :
    ∃ e', exec (guard noOpenCheck step) e (openShort m ++ (closeUp m ++ closeDown m)) = some e' ∧
      Rested (m + 1) e' := by
  obtain ⟨e₁, h₁, hmid₁⟩ := midway_openShort h hpos hid
  obtain ⟨e₂, h₂, hmid₂⟩ := midway_closeUp hmid₁ hpos
  obtain ⟨e₃, h₃, hrest⟩ := rested_closeDown hmid₂ hpos hid
  exact ⟨e₃, by rw [exec_append h₁, exec_append h₂, h₃], hrest⟩

/-- Any number of streams, up to `2^32`, can be opened while the first one runs. -/
theorem rested_reached (hpos : 1 ≤ m) (hle : m ≤ 2 ^ 32) :
    ∃ t e, Trace step (spawnTunnel .client 0) t e ∧ (∀ x ∈ t, noOpenCheck x.1 x.2 = true) ∧
      Rested m e := by
  induction m, hpos using Nat.le_induction with
  | base =>
    obtain ⟨e, he, hrest⟩ := rested_firstStream
    obtain ⟨t, ht, hall⟩ := exec_trace _ he
    exact ⟨t, e, ht, hall, hrest⟩
  | succ m hpos ih =>
    obtain ⟨t, e, ht, hall, hrest⟩ := ih (by omega)
    have hid : UInt32.ofNat (m + 1) ≠ 1 := by
      intro h
      have hmod := congrArg UInt32.toNat h
      rw [UInt32.toNat_ofNat'] at hmod
      have hone : (1 : UInt32).toNat = 1 := rfl
      omega
    obtain ⟨e', he', hrest'⟩ := rested_shortStream hrest hpos hid
    obtain ⟨t', ht', hall'⟩ := exec_trace _ he'
    refine ⟨t ++ t', e', ht.append ht', fun x hx => ?_, hrest'⟩
    rcases List.mem_append.mp hx with hx | hx
    · exact hall x hx
    · exact hall' x hx

/-- The next stream takes the id of the first one. -/
theorem Rested.displaced (h : Rested m e) (hid : UInt32.ofNat (m + 1) = 1) :
    ∃ e₁ e₂, e.step .accept = some e₁ ∧ e₁.step (.register m) = some e₂ ∧ e₂.streams 1 = some m := by
  have hacc : e.step .accept = some { e.addStream (.fresh e.nextId .allocated) with
      nextId := e.nextId + 1 } := if_pos h.side
  generalize he₁ : ({ e.addStream (.fresh e.nextId .allocated) with
      nextId := e.nextId + 1 } : Endpoint) = e₁ at hacc
  have hnew : e₁.inst m = .fresh 1 .allocated := by
    rw [← he₁, ← hid, ← h.nextId, ← h.n]
    simp
  have hph : (e₁.inst m).phase = .allocated := by rw [hnew]; rfl
  refine ⟨e₁, (e₁.setPhase m .registered).register (e₁.inst m).id m, hacc, ?_, ?_⟩
  · simp only [step, hph]
  · simp [hnew, Stream.fresh]

/-- After `2^32` streams the next id is that of the first one, which still runs and is displaced. -/
theorem id_comes_round :
    ∃ t e e₁ e₂, Trace step (spawnTunnel .client 0) t e ∧ (∀ x ∈ t, NoOpenStep x.1 x.2) ∧
      e.dead = false ∧ (e.inst 0).phase = .pump .reading .receiving ∧
      e.streams e.nextId = some 0 ∧ ¬ FreshAt e .accept ∧ e.step .accept = some e₁ ∧
      e₁.step (.register (2 ^ 32)) = some e₂ ∧ e₂.streams e.nextId = some (2 ^ 32) := by
  obtain ⟨t, e, ht, hall, hrest⟩ := rested_reached (m := 2 ^ 32) (by norm_num) le_rfl
  have hid : UInt32.ofNat (2 ^ 32 + 1) = 1 := rfl
  have hone : e.nextId = 1 := hrest.nextId.trans hid
  have hreg : e.streams e.nextId = some 0 := by rw [hone]; exact hrest.registered
  obtain ⟨e₁, e₂, h₁, h₂, hnew⟩ := hrest.displaced hid
  refine ⟨t, e, e₁, e₂, ht, fun x hx => noOpenStep_of_check (hall x hx), hrest.dead, hrest.running, hreg,
    fun hf => ?_, h₁, h₂, hone ▸ hnew⟩
  have hnone := hf.alloc rfl
  rw [hreg] at hnone; cases hnone

/-- Fewer than `2^32` allocations are no danger. -/
theorem young_of_lt {e₀ : Endpoint} (h : Trace step e₀ t e) (hn : e.n < 2 ^ 32) :
    ∀ x ∈ t, YoungStep x.1 x.2 := by
  have hle : ∀ x ∈ t, x.1.n ≤ e.n := by
    refine h.invariant (I := fun t e => ∀ x ∈ t, x.1.n ≤ e.n) (by simp) fun ih hs x hx => ?_
    have hstep := le_n_of_step (.of_step hs)
    rcases List.mem_append.mp hx with hx | hx
    · exact (ih x hx).trans hstep
    · rw [List.mem_singleton.mp hx]; exact hstep
  intro x hx _ k _
  have := hle x hx
  omega

/-- Two streams are opened, one of them and its id are gone before the next id is allocated. -/
theorem fresh_of_young_twoStreams :
    ∃ t e, Trace step (spawnTunnel .client 0) t e ∧ e.n = 2 ∧ ∀ x ∈ t, FreshAt x.1 x.2 := by
  obtain ⟨t, e, ht, hall, hrest⟩ := rested_reached (m := 2) (by norm_num) (by norm_num)
  exact ⟨t, e, ht, hrest.n, fresh_of_young ht (fun x hx => noOpenStep_of_check (hall x hx))
    (young_of_lt ht (by rw [hrest.n]; norm_num))⟩

end QeliSsPlugin.Carrier.Endpoint
