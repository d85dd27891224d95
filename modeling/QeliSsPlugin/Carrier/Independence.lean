import QeliSsPlugin.Carrier.Teardown

/-!
# What a step does not look at

The records buffered for the reader are looked at by the reader alone, when it dispatches one
(`step_withRecords`, `dispatch_withRecords`); where the reader is in its loop is looked at by the reader
alone, unless it is in `deliver` and holds a sender (`step_withReader`). A buffer can so be filled earlier
or later without another task seeing it.
-/

namespace QeliSsPlugin.Carrier

open QeliSsPlugin.Lib.Runs QeliSsPlugin.Mux

/-- The steps of the reader. -/
def Act.isReaders : Act → Bool
  | .readerTop | .dispatch | .readerRead _ | .readerEof | .readerErr | .readerDead => true
  | .delivered | .undeliverable | .stall | .dropStalled | .reply | .resume => true
  | _ => false

/-- Whether the reader is in `deliver`. -/
def Reader.isDelivering : Reader → Bool
  | .delivering _ _ _ | .stalled _ _ => true
  | _ => false

namespace Endpoint

variable {e e' : Endpoint} {a : Act} {side : Side} {pingSecs : ℕ}

/-- The endpoint with another buffer. -/
@[simps] def withRecords (e : Endpoint) (rs : List Outcome) : Endpoint := { e with records := rs }

/-- The endpoint with its reader elsewhere. -/
@[simps] def withReader (e : Endpoint) (r : Reader) : Endpoint := { e with reader := r }

theorem exitStep_withRecords (w : Who) (rs : List Outcome) :
    (e.withRecords rs).exitStep w = (e.exitStep w).map (·.withRecords rs) := by
  unfold exitStep
  simp only [withRecords_exit]
  rcases e.exit w <;> rfl

theorem exitStep_withReader (w : Who) (r : Reader) :
    (e.withReader r).exitStep w = (e.exitStep w).map (·.withReader r) := by
  unfold exitStep
  simp only [withReader_exit]
  rcases e.exit w <;> rfl

@[simp] theorem hasRoom_withRecords (rs : List Outcome) : (e.withRecords rs).hasRoom = e.hasRoom := rfl

@[simp] theorem senderHeld_withRecords (rs : List Outcome) (k : ℕ) :
    (e.withRecords rs).senderHeld k = e.senderHeld k := rfl

theorem replyStep_withRecords (rs : List Outcome) (f : Frame) :
    (e.withRecords rs).replyStep f = (e.replyStep f).withRecords rs := by
  unfold replyStep
  simp only [withRecords_framesOpen, hasRoom_withRecords]
  split_ifs <;> rfl

/-- **Only `dispatch` and a read look at the buffer.** -/
theorem step_withRecords (rs : List Outcome) (hd : a ≠ .dispatch) (hr : ∀ qs, a ≠ .readerRead qs) :
    (e.withRecords rs).step a = (e.step a).map (·.withRecords rs) := by
  cases a with
  | dispatch => exact absurd rfl hd
  | readerRead qs => exact absurd rfl (hr qs)
  | exit w => exact exitStep_withRecords w rs
  | downEnd k =>
    by_cases hs : e.senderHeld k = true
    · simp only [step, withRecords_inst, senderHeld_withRecords, hs, if_true]
      split <;> rfl
    · simp only [step, withRecords_inst, senderHeld_withRecords, hs]
      split <;> rfl
  | reply | resume =>
    simp only [step, withRecords_reader, withRecords_framesOpen, hasRoom_withRecords,
      replyStep_withRecords]
    split
    · first | rfl | (split_ifs <;> rfl)
    · rfl
  | ping nonce =>
    simp only [step, withRecords_keepalive, withRecords_framesOpen]
    split
    · by_cases ho : e.framesOpen = false
      · rw [if_pos ho, if_pos ho]
        rfl
      · rw [if_neg ho, if_neg ho]
        by_cases hroom : e.hasRoom = true
        · have hroom' : (e.withRecords rs).hasRoom = true := hroom
          rw [if_pos hroom, if_pos hroom']
          rfl
        · have hroom' : ¬ (e.withRecords rs).hasRoom = true := hroom
          rw [if_neg hroom, if_neg hroom']
          rfl
    · rfl
  | _ =>
    simp only [step, withRecords_side, withRecords_inst, withRecords_framesOpen, withRecords_reader,
      withRecords_frames, withRecords_writer, withRecords_keepalive, withRecords_exit, withRecords_dead,
      withRecords_pongs, hasRoom_withRecords]
    split
    all_goals first | rfl | (split_ifs <;> rfl)

/-- A buffered record is dispatched without a look at those behind it. -/
theorem dispatch_withRecords (o : Outcome) (rest : List Outcome) :
    (e.withRecords (o :: rest)).step .dispatch =
      ((e.withRecords [o]).step .dispatch).map (·.withRecords rest) := by
  have hrecord : (e.withRecords (o :: rest)).dispatchRecord o rest =
      ((e.withRecords [o]).dispatchRecord o []).withRecords rest := by
    unfold dispatchRecord
    simp only [withRecords_badStreak]
    rcases (judge e.badStreak o).2 with _ | cause
    · rcases o with f | _ | _
      · rcases f with id | ⟨id, p⟩ | id | nonce | nonce
        · rfl
        · simp only [dispatchFrame, withRecords_streams]
          rcases e.streams id with _ | k <;> rfl
        all_goals rfl
      all_goals rfl
    · rfl
  simp only [step, withRecords_reader, withRecords_records]
  rcases e.reader with _ | _ | _ | _ | _ | _ | _ | _
  case drain => exact congrArg some hrecord
  all_goals rfl

@[simp] theorem hasRoom_withReader (r : Reader) : (e.withReader r).hasRoom = e.hasRoom := rfl

/-- Outside of `deliver` only the registry holds senders. -/
theorem senderHeld_eq (he : e.reader.isDelivering = false) (k : ℕ) :
    e.senderHeld k = decide (e.streams (e.inst k).id = some k) := by
  unfold senderHeld
  cases hr : e.reader with
  | delivering | stalled => rw [hr] at he; cases he
  | _ => simp

theorem senderHeld_withReader {r : Reader} (he : e.reader.isDelivering = false)
    (hr : r.isDelivering = false) (k : ℕ) : (e.withReader r).senderHeld k = e.senderHeld k := by
  have hr' : (e.withReader r).reader.isDelivering = false := hr
  rw [senderHeld_eq he, senderHeld_eq hr']
  rfl

/-- **The other tasks do not look at where the reader is**, outside of `deliver`. -/
theorem step_withReader {r : Reader} (he : e.reader.isDelivering = false)
    (hr : r.isDelivering = false) (ha : a.isReaders = false) :
    (e.withReader r).step a = (e.step a).map (·.withReader r) := by
  cases a with
  | readerTop | dispatch | readerRead | readerEof | readerErr | readerDead | delivered
  | undeliverable | stall | dropStalled | reply | resume => cases ha
  | exit w => exact exitStep_withReader w r
  | downEnd k =>
    by_cases hs : e.senderHeld k = true
    · simp only [step, withReader_inst, senderHeld_withReader he hr, hs, if_true]
      split <;> rfl
    · simp only [step, withReader_inst, senderHeld_withReader he hr, hs]
      split <;> rfl
  | ping nonce =>
    simp only [step, withReader_keepalive, withReader_framesOpen]
    split
    · by_cases ho : e.framesOpen = false
      · rw [if_pos ho, if_pos ho]
        rfl
      · rw [if_neg ho, if_neg ho]
        by_cases hroom : e.hasRoom = true
        · have hroom' : (e.withReader r).hasRoom = true := hroom
          rw [if_pos hroom, if_pos hroom']
          rfl
        · have hroom' : ¬ (e.withReader r).hasRoom = true := hroom
          rw [if_neg hroom, if_neg hroom']
          rfl
    · rfl
  | _ =>
    simp only [step, withReader_side, withReader_inst, withReader_framesOpen, withReader_frames,
      withReader_writer, withReader_keepalive, withReader_exit, withReader_dead, withReader_pongs,
      hasRoom_withReader]
    split
    all_goals first | rfl | (split_ifs <;> rfl)

end Endpoint

end QeliSsPlugin.Carrier
