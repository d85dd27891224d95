import QeliSsPlugin.Handshake.Plain

/-! # Which auth messages the server accepts

The server takes the password out of the client's auth message and compares it with its own
(`checkAuth`, the check of `serverAuth`: `serverAuth_eq`). There are two layouts, with and without a
device id, told apart by the length of the message and the byte after the proof, which in the second
layout is the first byte of the password. `checkAuth_iff` says which messages pass. -/

namespace QeliSsPlugin.Handshake

open Mux Lib.Session

variable (core : Core)

/-- The server's check of a decrypted auth message. -/
def checkAuth (password : String) (auth : Bytes) : Except String Unit :=
  match parseClientAuth auth with
  | .error e => .error e
  | .ok presented =>
    if ¬ core.ctEq (asBytes presented) (asBytes password) then .error "auth failed: wrong password"
    else .ok ()

/-- The server goes on exactly when the check passes, and fails with its error otherwise. -/
theorem serverAuth_eq (version : String) (rx tx : core.PacketCodec) (password : String) :
    serverAuth core version rx tx password = (do
      let authRecord ← readRecord "client auth"
      let (auth, rx) := core.decryptPacket rx authRecord
      let auth ← mapErr auth "failed to decrypt client auth"
      match checkAuth core password auth with
      | .error e => bail e
      | .ok _ =>
        let (okPacket, tx) := core.encryptPacket tx (okResponse version)
        let okPacket ← mapErr okPacket "failed to encrypt auth response"
        writeAll okPacket
        return { rx, tx }) := by
  unfold serverAuth checkAuth
  congr 1
  funext authRecord
  rcases core.decryptPacket rx authRecord with ⟨auth, rx'⟩
  simp only
  congr 1
  funext auth
  cases parseClientAuth auth with
  | error e => rfl
  | ok presented =>
    simp only
    split_ifs <;> rfl

variable {core}

/-! ### The two layouts -/

theorem asBytes_of_fromUtf8 {bs : Bytes} {s : String} (h : fromUtf8 bs = some s) :
    asBytes s = bs := by
  unfold fromUtf8 String.fromUTF8? at h
  split_ifs at h with hv
  cases h
  rfl

/-- What the parser returns is the text it cut off. -/
theorem parseClientAuth_eq_ok_iff (auth : Bytes) (password : String) :
    parseClientAuth auth = .ok password ↔ 33 ≤ auth.length ∧
      (if auth.length ≥ 33 + deviceIdLen ∧ auth.getD 32 0 = deviceMarker then
        auth.drop (33 + deviceIdLen) else auth.drop 32) = asBytes password := by
  unfold parseClientAuth
  by_cases hlen : auth.length < 33
  · rw [if_pos hlen]
    simp [Nat.not_le.mpr hlen]
  · rw [if_neg hlen]
    simp only [Nat.not_lt.mp hlen, true_and]
    generalize (if auth.length ≥ 33 + deviceIdLen ∧ auth.getD 32 0 = deviceMarker then
      auth.drop (33 + deviceIdLen) else auth.drop 32) = text
    cases ht : fromUtf8 text with
    | none =>
      refine iff_of_false (by simp) ?_
      rintro rfl
      rw [fromUtf8_asBytes] at ht; cases ht
    | some s =>
      have hs := asBytes_of_fromUtf8 ht
      simp only [Except.ok.injEq]
      rw [← hs, asBytes_inj]

/-- The layout with a device id. -/
theorem withDevice_iff (auth password : Bytes) :
    ((auth.length ≥ 33 + deviceIdLen ∧ auth.getD 32 0 = deviceMarker) ∧
        auth.drop (33 + deviceIdLen) = password) ↔
      ∃ (proof : Key32) (device : DeviceId), auth = proof.val ++ [0] ++ device.val ++ password := by
  constructor
  · rintro ⟨⟨hlen, hmark⟩, hdrop⟩
    unfold deviceIdLen at hlen hdrop
    have hproof : (auth.take 32).length = 32 := by rw [List.length_take]; omega
    have hdev : ((auth.drop 33).take deviceIdLen).length = deviceIdLen := by
      rw [List.length_take, List.length_drop]
      unfold deviceIdLen
      omega
    refine ⟨⟨auth.take 32, hproof⟩, ⟨(auth.drop 33).take deviceIdLen, hdev⟩, ?_⟩
    have hcons : auth.drop 32 = [0] ++ auth.drop 33 := by
      have hlt : 32 < auth.length := by omega
      have hbyte : auth.get ⟨32, hlt⟩ = 0 := by
        simpa [List.getD_eq_getElem?_getD, List.getElem?_eq_getElem hlt, deviceMarker] using hmark
      rw [List.drop_eq_getElem_cons hlt]
      exact congrArg (· :: auth.drop 33) hbyte
    have htail : auth.drop 33 = (auth.drop 33).take deviceIdLen ++ password := by
      rw [← hdrop, ← List.drop_drop]
      exact (List.take_append_drop _ _).symm
    calc auth = auth.take 32 ++ auth.drop 32 := (List.take_append_drop _ _).symm
      _ = auth.take 32 ++ ([0] ++ ((auth.drop 33).take deviceIdLen ++ password)) := by
        rw [hcons, ← htail]
      _ = _ := by simp only [List.append_assoc]
  · rintro ⟨proof, device, rfl⟩
    have hproof := proof.property
    have hdev := device.property
    have hpre : (proof.val ++ [0] ++ device.val).length = 33 + deviceIdLen := by
      simp only [List.length_append, List.length_cons, List.length_nil]
      omega
    refine ⟨⟨?_, ?_⟩, ?_⟩
    · rw [List.length_append, hpre]
      omega
    · simp [List.getD_eq_getElem?_getD, hproof, deviceMarker]
    · rw [← hpre, List.drop_left]

/-- The layout without one: the byte after the proof is the first of the password. -/
theorem withoutDevice_iff (auth : Bytes) {password : Bytes} (hne : password ≠ []) :
    (33 ≤ auth.length ∧ ¬ (auth.length ≥ 33 + deviceIdLen ∧ auth.getD 32 0 = deviceMarker) ∧
        auth.drop 32 = password) ↔
      ∃ proof : Key32, auth = proof.val ++ password ∧
        (password.head? ≠ some 0 ∨ password.length < 17) := by
  obtain ⟨b, rest, rfl⟩ := List.exists_cons_of_ne_nil hne
  have hcond : ∀ proof : Key32, (¬ ((proof.val ++ b :: rest).length ≥ 33 + deviceIdLen ∧
      (proof.val ++ b :: rest).getD 32 0 = deviceMarker)) ↔
        ((b :: rest).head? ≠ some 0 ∨ (b :: rest).length < 17) := by
    intro proof
    have hproof := proof.property
    have hbyte : (proof.val ++ b :: rest).getD 32 0 = b := by
      simp [List.getD_eq_getElem?_getD, hproof]
    rw [hbyte, List.length_append, hproof]
    simp only [List.head?_cons, ne_eq, Option.some.injEq, deviceIdLen, deviceMarker]
    by_cases hb : b = 0
    · simp only [hb, and_true, not_true_eq_false, false_or]
      omega
    · simp [hb]
  constructor
  · rintro ⟨hlen, hno, hdrop⟩
    have hproof : (auth.take 32).length = 32 := by rw [List.length_take]; omega
    have hauth : auth = auth.take 32 ++ b :: rest := by
      rw [← hdrop]
      exact (List.take_append_drop _ _).symm
    refine ⟨⟨auth.take 32, hproof⟩, hauth, (hcond ⟨_, hproof⟩).mp ?_⟩
    rw [← hauth]
    exact hno
  · rintro ⟨proof, rfl, h⟩
    have hproof := proof.property
    refine ⟨?_, (hcond proof).mpr h, ?_⟩
    · rw [List.length_append, hproof, List.length_cons]
      omega
    · have hdrop : (proof.val ++ b :: rest).drop proof.val.length = b :: rest := List.drop_left
      rwa [hproof] at hdrop

theorem checkAuth_eq_ok_iff (hct : ∀ {a b}, core.ctEq a b = true ↔ a = b) (password : String)
    (auth : Bytes) :
    checkAuth core password auth = .ok () ↔ parseClientAuth auth = .ok password := by
  unfold checkAuth
  cases parseClientAuth auth with
  | error e => simp
  | ok presented =>
    by_cases hp : presented = password
    · have heq : core.ctEq (asBytes presented) (asBytes password) = true :=
        hct.mpr (asBytes_inj.mpr hp)
      subst hp
      simp [heq]
    · have hne : ¬ core.ctEq (asBytes presented) (asBytes password) = true :=
        fun h => hp (asBytes_inj.mp (hct.mp h))
      simp [hne, hp]

/-- **The server accepts exactly its password.** A decrypted auth message passes the check if and only
if it is a proof, the marker, a device id and the password, or a proof and the password where the
password cannot be taken for a marker and a device id. So the message a client builds from a password
passes if and only if the passwords are equal. -/
theorem checkAuth_iff (hct : ∀ {a b}, core.ctEq a b = true ↔ a = b) {password : String}
    (hne : password ≠ "") :
    (∀ auth, checkAuth core password auth = .ok () ↔
      (∃ (proof : Key32) (device : DeviceId),
        auth = proof.val ++ [0] ++ device.val ++ asBytes password) ∨
      (∃ proof : Key32, auth = proof.val ++ asBytes password ∧
        ((asBytes password).head? ≠ some 0 ∨ (asBytes password).length < 17))) ∧
      (∀ presented proof device,
        checkAuth core password (authMessage proof device presented) = .ok () ↔
          presented = password) := by
  have hbytes : asBytes password ≠ [] := fun h => hne (asBytes_inj.mp (h.trans (by decide)))
  refine ⟨fun auth => ?_, fun presented proof device => ?_⟩
  · rw [checkAuth_eq_ok_iff hct, parseClientAuth_eq_ok_iff, ← withDevice_iff,
      ← withoutDevice_iff auth hbytes]
    by_cases hdev : auth.length ≥ 33 + deviceIdLen ∧ auth.getD 32 0 = deviceMarker
    · have hlen : 33 ≤ auth.length := le_trans (Nat.le_add_right _ _) hdev.1
      rw [if_pos hdev]
      simp only [hlen, hdev, true_and, not_true_eq_false, false_and, and_false, or_false, and_true]
    · rw [if_neg hdev]
      simp only [hdev, false_and, not_false_eq_true, true_and, false_or]
  · rw [checkAuth_eq_ok_iff hct, parseClientAuth_authMessage, Except.ok.injEq]

/-- A password that begins with a NUL byte is found without a device id as long as it is short. -/
theorem checkAuth_iff_nul :
    checkAuth plain "\x00pw" (List.replicate 32 7 ++ [0, 112, 119]) = .ok () := by
  have hne : "\x00pw" ≠ "" := by decide
  refine ((checkAuth_iff plain_laws.ctEq_iff hne).1 _).mpr (.inr ?_)
  exact ⟨⟨List.replicate 32 7, List.length_replicate⟩, by decide, .inr (by decide)⟩

end QeliSsPlugin.Handshake
