import NodeMcu.Mqtt.Publication

namespace NodeMcu.Mqtt.TotalLength

open NodeMcu.Lib.Memory NodeMcu.Lib.Reading NodeMcu.Mqtt.Msg NodeMcu.Mqtt.Readers
  NodeMcu.Mqtt.Publication

/-! ## The sum of the loop

The bytes behind the first one change the sum by multiples of 128. A shift that the language leaves
open can add anything. -/

section Loop

variable (buffer : Mem)

/-- What the loop stops at depends on the bytes alone. -/
theorem lengthLoop_end_congr (wide wide' : Nat → Nat → Int) (n i : Nat) (t t' : Int) :
    (lengthLoop wide buffer n i t).val.1 = (lengthLoop wide' buffer n i t').val.1 := by
  induction n generalizing i t t' with
  | zero => rfl
  | succ n ih =>
    rw [lengthLoop_succ, lengthLoop_succ]
    split
    · rfl
    · exact ih _ _ _

/-- The first shift by more than 31 gives `d`, the others 0. -/
def wideOnce (d : Int) (_ n : Nat) : Int := if n = 35 then d else 0

theorem int32_mod (x : Int) : (128 : Int) ∣ int32 x - x := by
  have h := Int.bmod_add_bdiv x (2 ^ 32)
  rw [int32]
  omega

theorem shiftLeft_mod (d : Int) (x i : Nat) (hi : 2 ≤ i) :
    (128 : Int) ∣ shiftLeft (wideOnce d) x (7 * (i - 1)) - if i = 6 then d else 0 := by
  rw [shiftLeft]
  split_ifs with h1 h2 h2
  · omega
  · have hpow : (128 : Int) ∣ ((x <<< (7 * (i - 1)) : Nat) : Int) := by
      rw [Nat.shiftLeft_eq]
      obtain ⟨k, rfl⟩ : ∃ k, i = k + 2 := ⟨i - 2, by omega⟩
      refine Int.natCast_dvd_natCast.mpr (Dvd.dvd.mul_left ?_ x)
      exact Nat.pow_dvd_pow 2 (by omega : 7 ≤ 7 * (k + 2 - 1))
    have hmod := int32_mod ((x <<< (7 * (i - 1)) : Nat) : Int)
    omega
  · subst h2
    exact ⟨0, by rw [wideOnce, if_pos rfl]; omega⟩
  · rw [wideOnce, if_neg (by omega)]
    exact ⟨0, rfl⟩

/-- The induction is on the bytes that are left. -/
theorem lengthLoop_mod (d : Int) (n i : Nat) (t : Int) (hi : 2 ≤ i) :
    (128 : Int) ∣ (lengthLoop (wideOnce d) buffer n i t).val.2 - t -
      if i ≤ 6 ∧ 6 < (lengthLoop (wideOnce d) buffer n i t).val.1 then d else 0 := by
  induction n generalizing i t with
  | zero =>
    rw [if_neg]
    · exact ⟨0, by change t - t - 0 = _; omega⟩
    · change ¬(i ≤ 6 ∧ 6 < i)
      omega
  | succ n ih =>
    have hs := shiftLeft_mod d ((buffer i).toNat % 128) i hi
    have ht := int32_mod
      (t + shiftLeft (wideOnce d) ((buffer i).toNat % 128) (7 * (i - 1)))
    rw [lengthLoop_succ]
    by_cases hb : (buffer i).toNat < 128
    · rw [if_pos hb]
      dsimp only
      split_ifs at hs ⊢ <;> omega
    · rw [if_neg hb]
      have hrest := ih (i + 1) (int32 (t + shiftLeft (wideOnce d) ((buffer i).toNat % 128)
        (7 * (i - 1)))) (by omega)
      have hend := (lengthLoop_end (wideOnce d) buffer n (i + 1) (int32 (t +
        shiftLeft (wideOnce d) ((buffer i).toNat % 128) (7 * (i - 1))))).1
      split_ifs at hs hrest ⊢ <;> omega

/-- A length that begins with a byte to be continued and is read past byte 2 is not the one whose
low bits stand in byte 1, for one of two choices of a wide shift. -/
theorem header_past {length r : Nat} (hl : 3 ≤ length) (hfirst : 128 ≤ (buffer 1).toNat)
    (hlow : (buffer 1).toNat % 128 = r % 128)
    (hpast : ∀ wide, 3 < (header wide buffer length).val.1) :
    ∃ wide, (header wide buffer length).val.2 ≠ (r + 3 : Nat) := by
  obtain ⟨n, rfl⟩ : ∃ n, length = n + 2 := ⟨length - 2, by omega⟩
  have h1 : ¬(buffer ((1 : Nat) : Int)).toNat < 128 := Nat.not_lt.mpr hfirst
  have hhead : ∀ d, ∃ t, (128 : Int) ∣ t - (r : Int) ∧
      (header (wideOnce d) buffer (n + 2)).val =
        ((lengthLoop (wideOnce d) buffer n 2 t).val.1,
          int32 ((lengthLoop (wideOnce d) buffer n 2 t).val.2 +
            (lengthLoop (wideOnce d) buffer n 2 t).val.1)) := by
    intro d
    refine ⟨int32 (0 + shiftLeft (wideOnce d) ((buffer ((1 : Nat) : Int)).toNat % 128)
      (7 * (1 - 1))), ?_, ?_⟩
    · rw [shiftLeft_of_small _ _ _ (by decide) (by omega)]
      have hmod := int32_mod (0 + (((buffer ((1 : Nat) : Int)).toNat % 128 * 2 ^ (7 * (1 - 1)) :
        Nat) : Int))
      change (buffer ((1 : Nat) : Int)).toNat % 128 = r % 128 at hlow
      omega
    · rw [header, bind_val, pure_val]
      rw [show n + 2 - 1 = n + 1 from rfl, lengthLoop_succ, if_neg h1]
  obtain ⟨t, ht, hval⟩ := hhead 0
  obtain ⟨t', ht', hval'⟩ := hhead 1
  have hmod := lengthLoop_mod buffer 0 n 2 t (by omega)
  have hmod' := lengthLoop_mod buffer 1 n 2 t' (by omega)
  have hend := lengthLoop_end_congr buffer (wideOnce 0) (wideOnce 1) n 2 t t'
  have hgt := hpast (wideOnce 0)
  by_contra hall
  have hall := not_exists.mp hall
  have h0 := not_not.mp (hall (wideOnce 0))
  have h1 := not_not.mp (hall (wideOnce 1))
  rw [hval] at h0 hgt
  rw [hval'] at h1
  dsimp only at h0 h1 hgt
  have hi := int32_mod ((lengthLoop (wideOnce 0) buffer n 2 t).val.2 +
    (lengthLoop (wideOnce 0) buffer n 2 t).val.1)
  have hi' := int32_mod ((lengthLoop (wideOnce 1) buffer n 2 t').val.2 +
    (lengthLoop (wideOnce 1) buffer n 2 t').val.1)
  split_ifs at hmod hmod' <;> omega

end Loop

/-! ## A message behind its fixed header -/

/-- The length that a reader finds in a message is the length of the message. -/
def Consistent (c : MqttConnection) : Prop :=
  ∀ wide, (mqttGetTotalLength wide (after c.message.data c.buffer) c.message.length).val =
    c.message.length

/-- Two bytes hold a remaining length of 14 bits. -/
theorem consistent_iff (d : MqttConnection) (type : MqttMessageType) (dup qos retain r : Nat)
    (hlength : d.message.length = 3 + r) (hlt : 3 + r < 65536) :
    Consistent (finiMessage d type dup qos retain) ↔ r ≤ 16383 := by
  have hbs : (read d.buffer 3 r).length = r := read_length _ _ _
  have hself : d.buffer = write d.buffer 3 (read d.buffer 3 r) := (write_read _ _ _).symm
  rw [← hbs] at hlength
  by_cases hshort : r ≤ 127
  · obtain ⟨hp, h1⟩ := finiMessage_short d d.buffer _ type dup qos retain hlength hself (by omega)
    refine iff_of_true (fun wide => ?_) (by omega)
    rw [mqttGetTotalLength_val, header_one wide _ _ (by rw [hp.length_eq]; omega)
      (by rw [h1]; omega), h1, hp.length_eq]
    push_cast
    omega
  · obtain ⟨hp, h1, h2⟩ := finiMessage_long d d.buffer _ type dup qos retain hlength hself
      (by omega)
    have htwo := fun wide => header_two wide _ (finiMessage d type dup qos retain).message.length
      (by rw [hp.length_eq]; omega) (by rw [h1]; omega)
    rw [hbs] at h1 h2
    rw [h1, h2] at htwo
    have hlen : (finiMessage d type dup qos retain).message.length = 3 + r := by
      rw [hp.length_eq, hbs]
    by_cases hbyte : r / 128 % 256 < 128
    · simp only [if_pos hbyte] at htwo
      constructor
      · intro h
        have htotal := h (fun _ _ => 0)
        rw [mqttGetTotalLength_val, htwo, hlen] at htotal
        dsimp only at htotal
        omega
      · intro hr wide
        rw [mqttGetTotalLength_val, htwo, hlen]
        dsimp only
        omega
    · simp only [if_neg hbyte] at htwo
      refine iff_of_false (fun h => ?_) (by omega)
      obtain ⟨wide, hne⟩ := header_past _ (r := r) (by rw [hlen]; omega) (by rw [h1]; omega)
        (by rw [h1]; omega) fun wide => htwo wide (by rw [hlen]; omega)
      have htotal := h wide
      rw [mqttGetTotalLength_val, hlen] at htotal
      rw [hlen] at hne
      exact hne (by rw [htotal, Nat.add_comm])

end NodeMcu.Mqtt.TotalLength
