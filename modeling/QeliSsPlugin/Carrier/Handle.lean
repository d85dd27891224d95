import QeliSsPlugin.Carrier.Endpoint
import QeliSsPlugin.Mux.Codec

/-! # Sending data in chunks

`CarrierHandle.send` enqueues a byte string as DATA frames of at most `maxData` bytes, frame by frame;
the writer encodes every frame it takes into one buffer (`encodeAll`). The frame channel is seen from
its sending side: it takes frames until its receiver is dropped, and fails from then on.

`send_transparent`: what is decoded on the other side is the byte string again, cut into non-empty
payloads, or a prefix of it if the tunnel goes down on the way. -/

namespace QeliSsPlugin.Carrier

open QeliSsPlugin.Mux

/-! ### Chunks -/

section Chunks

variable {size : ℕ} {data : Bytes}

/-- The first chunks are the beginning of the data. -/
theorem flatten_chunks_take (size : ℕ) (data : Bytes) (n : ℕ) :
    ((List.range n).map fun i => (data.drop (i * size)).take size).flatten =
      data.take (n * size) := by
  induction n with
  | zero => simp
  | succ n ih =>
    rw [List.range_succ, List.map_append, List.flatten_append, ih, Nat.succ_mul, List.take_add]
    simp

theorem chunks_flatten (h : 0 < size) : (chunks size data).flatten = data := by
  have hle : data.length ≤ (data.length + size - 1) / size * size := by
    have hmod := Nat.div_add_mod (data.length + size - 1) size
    have hlt := Nat.mod_lt (data.length + size - 1) h
    rw [Nat.mul_comm] at hmod
    omega
  unfold chunks
  rw [flatten_chunks_take, List.take_of_length_le hle]

theorem length_of_mem_chunks {c : Bytes} (h : c ∈ chunks size data) :
    0 < c.length ∧ c.length ≤ size := by
  simp only [chunks, List.mem_map, List.mem_range] at h
  obtain ⟨i, hi, rfl⟩ := h
  rw [List.length_take, List.length_drop]
  have hpos : 0 < size := by
    by_contra hzero
    obtain rfl : size = 0 := by omega
    simp at hi
  -- the last chunk begins inside the data
  have hlt : i * size < data.length := by
    have hle : (i + 1) * size ≤ data.length + size - 1 := by
      have := Nat.mul_le_mul_right size hi
      exact this.trans (Nat.div_mul_le_self _ _)
    rw [Nat.succ_mul] at hle
    omega
  omega

/-- Without the last chunks, only a beginning of the data is left. -/
theorem flatten_take_chunks (h : 0 < size) {n : ℕ} (hn : n < (chunks size data).length) :
    ((chunks size data).take n).flatten <+: data ∧ ((chunks size data).take n).flatten ≠ data := by
  have hsplit : ((chunks size data).take n).flatten ++ ((chunks size data).drop n).flatten =
      data := by
    rw [← List.flatten_append, List.take_append_drop, chunks_flatten h]
  refine ⟨⟨_, hsplit⟩, fun heq => ?_⟩
  have hnil : ((chunks size data).drop n).flatten = [] := by
    rw [heq] at hsplit
    simpa using hsplit
  have hmem : (chunks size data).get ⟨n, hn⟩ ∈ (chunks size data).drop n := by
    rw [List.drop_eq_getElem_cons hn]
    exact List.mem_cons_self
  have hempty := List.flatten_eq_nil_iff.mp hnil _ hmem
  have hpos := (length_of_mem_chunks (List.get_mem (chunks size data) ⟨n, hn⟩)).1
  rw [hempty] at hpos
  exact absurd hpos (by simp)

end Chunks

/-! ### The handle -/

/-- The sending side of the frame channel. -/
structure CarrierHandle where
  /-- The frames enqueued through it. -/
  enqueued : List Frame
  /-- How many frames the channel takes before its receiver is dropped; `none` on a tunnel that
  stays alive. -/
  takes : Option ℕ
  deriving DecidableEq

namespace CarrierHandle

def sendFrame (h : CarrierHandle) (frame : Frame) : Except String Unit × CarrierHandle :=
  match h.takes with
  | none => (.ok (), { h with enqueued := h.enqueued ++ [frame] })
  | some 0 => (.error "tunnel is down", h)
  | some (n + 1) => (.ok (), { enqueued := h.enqueued ++ [frame], takes := some n })

/-- The loop of `send` over the chunks. -/
def sendChunks (h : CarrierHandle) (id : UInt32) : List Bytes → Except String Unit × CarrierHandle
  | [] => (.ok (), h)
  | chunk :: rest =>
    match h.sendFrame (.data id chunk) with
    | (.error e, h) => (.error e, h)
    | (.ok _, h) => sendChunks h id rest

/-- **Send data on a stream**, chunked into DATA frames of at most `maxData` bytes. -/
def send (h : CarrierHandle) (id : UInt32) (data : Bytes) : Except String Unit × CarrierHandle :=
  h.sendChunks id (chunks maxData data)

/-- Whether the channel takes this many frames. -/
def carries (h : CarrierHandle) (n : ℕ) : Prop := ∀ m, h.takes = some m → n ≤ m

/-- Either all chunks are enqueued, or as many as the channel takes, and the send fails. -/
theorem sendChunks_spec (id : UInt32) (cs : List Bytes) (h : CarrierHandle) :
    (h.carries cs.length ∧ (h.sendChunks id cs).1 = .ok () ∧
      (h.sendChunks id cs).2.enqueued = h.enqueued ++ cs.map (.data id)) ∨
    ∃ n, h.takes = some n ∧ n < cs.length ∧ (h.sendChunks id cs).1 = .error "tunnel is down" ∧
      (h.sendChunks id cs).2.enqueued = h.enqueued ++ (cs.take n).map (.data id) := by
  induction cs generalizing h with
  | nil => exact .inl ⟨fun m _ => Nat.zero_le m, rfl, by simp [sendChunks]⟩
  | cons c cs ih =>
    obtain ⟨enqueued, takes⟩ := h
    rcases takes with _ | _ | m
    · rcases ih ⟨enqueued ++ [.data id c], none⟩ with ⟨-, hok, henq⟩ | ⟨n, hn, -⟩
      · refine .inl ⟨fun m hm => by simp at hm, hok, henq.trans ?_⟩
        simp
      · simp at hn
    · exact .inr ⟨0, rfl, by simp, rfl, by simp [sendChunks, sendFrame]⟩
    · rcases ih ⟨enqueued ++ [.data id c], some m⟩ with ⟨hc, hok, henq⟩ | ⟨n, hn, hlt, herr, henq⟩
      · refine .inl ⟨fun m' hm' => ?_, hok, henq.trans (by simp)⟩
        have hle := hc m rfl
        obtain rfl : m + 1 = m' := by simpa using hm'
        simpa using hle
      · obtain rfl : m = n := by simpa using hn
        exact .inr ⟨m + 1, rfl, by simpa using hlt, herr, henq.trans (by simp)⟩

end CarrierHandle

/-! ### The writer's buffer -/

/-- The plaintexts of the frames the writer takes, each encoded into the buffer that holds the one
before. -/
def encodeAll (plain : Bytes) : List Frame → List Bytes
  | [] => []
  | frame :: frames => frame.encodeInto plain :: encodeAll (frame.encodeInto plain) frames

/-- What the buffer held before does not matter. -/
theorem encodeAll_eq (frames : List Frame) (plain : Bytes) :
    encodeAll plain frames = frames.map Frame.encode := by
  induction frames generalizing plain with
  | nil => rfl
  | cons frame frames ih =>
    rw [encodeAll, ih]
    rfl

theorem decode_encodeAll {frames : List Frame} (hfits : ∀ f ∈ frames, f.fits = true)
    (plain : Bytes) : (encodeAll plain frames).map Frame.decode = frames.map .ok := by
  rw [encodeAll_eq, List.map_map]
  exact List.map_congr_left fun f hf => Frame.decode_of_fits (hfits f hf)

/-- **Chunked sending is transparent.** Whatever the data, the stream id and the earlier contents of
the writer's buffer, the frames that `send` enqueues are encoded and decoded as DATA frames of this id
with payloads of 1 to `maxData` bytes. On a live tunnel `send` succeeds and the payloads are the data;
if the channel closes before all of them are enqueued, they are a proper prefix of it, and `send`
fails. -/
theorem send_transparent (h : CarrierHandle) (id : UInt32) (data plain : Bytes) :
    ∃ payloads : List Bytes,
      (h.send id data).2.enqueued = h.enqueued ++ payloads.map (.data id) ∧
      (encodeAll plain (payloads.map (.data id))).map Frame.decode =
        payloads.map (fun p => .ok (.data id p)) ∧
      (∀ p ∈ payloads, 1 ≤ p.length ∧ p.length ≤ maxData) ∧
      (h.takes = none → (h.send id data).1 = .ok () ∧ payloads.flatten = data) ∧
      (∀ n, h.takes = some n → if n < (chunks maxData data).length
        then (h.send id data).1 = .error "tunnel is down" ∧ payloads.length = n ∧
          payloads.flatten <+: data ∧ payloads.flatten ≠ data
        else (h.send id data).1 = .ok () ∧ payloads.flatten = data) := by
  have hflat : (chunks maxData data).flatten = data := chunks_flatten (by decide)
  have hdecode : ∀ ps : List Bytes, (∀ p ∈ ps, p ∈ chunks maxData data) →
      (encodeAll plain (ps.map (.data id))).map Frame.decode =
        ps.map (fun p => .ok (.data id p)) := by
    intro ps hps
    rw [decode_encodeAll, List.map_map]
    · rfl
    · intro f hf
      obtain ⟨p, hp, rfl⟩ := List.mem_map.mp hf
      exact decide_eq_true (length_of_mem_chunks (hps p hp)).2
  rcases h.sendChunks_spec id (chunks maxData data) with ⟨hc, hok, henq⟩ | ⟨n, hn, hlt, herr, henq⟩
  · refine ⟨chunks maxData data, henq, hdecode _ fun _ hp => hp,
      fun p hp => length_of_mem_chunks hp, fun _ => ⟨hok, hflat⟩, fun n hn => ?_⟩
    have hle := hc n hn
    rw [if_neg (by omega)]
    exact ⟨hok, hflat⟩
  · have hmem : ∀ p ∈ (chunks maxData data).take n, p ∈ chunks maxData data :=
      fun p hp => List.mem_of_mem_take hp
    refine ⟨(chunks maxData data).take n, henq, hdecode _ hmem,
      fun p hp => length_of_mem_chunks (hmem p hp), fun hnone => ?_, fun m hm => ?_⟩
    · rw [hn] at hnone; cases hnone
    · obtain rfl : n = m := by rw [hn] at hm; exact Option.some.inj hm
      rw [if_pos hlt]
      exact ⟨herr, by rw [List.length_take]; omega, flatten_take_chunks (by decide) hlt⟩

end QeliSsPlugin.Carrier
