import NodeMcu.CompMsg.BuildMsg

namespace NodeMcu.CompMsg.Encryption

open NodeMcu.Lib.Memory NodeMcu.Lib.Cbc NodeMcu.Lib.Intervals
open NodeMcu.CompMsg.Codes NodeMcu.CompMsg.View NodeMcu.CompMsg.Fields NodeMcu.CompMsg.Headers
open NodeMcu.CompMsg.Layout NodeMcu.CompMsg.Tiling NodeMcu.CompMsg.Crc NodeMcu.CompMsg.PrepareMsg
open NodeMcu.CompMsg.Crypto NodeMcu.CompMsg.BuildMsg

/-- A message marked for encryption that is ready to be sealed: a total CRC, where the header
entry asks for one, is the last field and has the width the entry gives. -/
structure Sealable (d : CompMsgData) : Prop where
  encrypted : d.currHdr.hdrEncryption = 'E'
  headerLe : d.headerLgth ≤ d.totalLgth
  small : d.totalLgth < 65536
  totalCrc : hasFlag d.currHdr.hdrFlags dispTotalCrc = true →
    ∃ t, d.fields.getLast? = some t ∧ d.headerLgth ≤ t.fieldOffset ∧
      t.fieldOffset + t.fieldLgth = d.totalLgth ∧
      t.fieldLgth = if d.currHdr.u8TotalCrc then 1 else 2

/-- A message laid out by `initMsg` is ready to be sealed if it ends as its header entry says. -/
theorem initMsg_sealable (d : CompMsgData) (m : Mem) (hnew : Created d)
    (hfirst : HeaderFirst d.fields) (hE : (filledMsg d m).currHdr.hdrEncryption = 'E')
    (hsmall : (filledMsg d m).totalLgth < 65536)
    (hend : hasFlag (filledMsg d m).currHdr.hdrFlags dispTotalCrc = true →
      ∃ pre t, (filledMsg d m).fields = pre ++ [t] ∧ t.fieldNameId = specFieldTotalCrc ∧
        t.fieldLgth = if (filledMsg d m).currHdr.u8TotalCrc then 1 else 2) :
    Sealable (filledMsg d m) := by
  have hlgths : (initMsg d).2.totalLgth = (initMsg d).2.headerLgth + (initMsg d).2.cmdLgth := by
    obtain ⟨-, htotal, hcmd, hheader, -⟩ := initMsg_layout d hnew
    rw [htotal, hheader, hcmd]
    exact (layoutFields_sound _ d.fields (startLayout_inHeader d hnew) hfirst).lgths
  refine ⟨hE, Nat.le.intro hlgths.symm, hsmall, ?_⟩
  intro hf
  obtain ⟨pre, t, he, hid, hw⟩ := hend hf
  have hbody : isHeaderField t = false := by
    simp only [isHeaderField, hid]
    rfl
  have hlast : (filledMsg d m).fields.getLast? = some t := by
    rw [he]
    simp
  have hnf : ¬EndsInFiller (initMsg d).2.fields := by
    rintro ⟨f, hf', hfill⟩
    obtain rfl : t = f := Option.some.inj (hlast.symm.trans hf')
    rw [hid] at hfill
    exact absurd hfill (by decide)
  obtain ⟨hle, htot, -⟩ := initMsg_field d hnew hfirst pre t [] he hbody hnf
  rw [total_nil, Nat.add_zero] at htot
  exact ⟨t, hlast, hle, htot, hw⟩

/-- The message with other contents. -/
def withBytes (d : CompMsgData) (m : Mem) : CompMsgData :=
  { d with compMsgDataView := { d.compMsgDataView with data := m } }

/-- Sender and receiver fit together: both work on the same range with the same IV, the cipher
text fits, and whatever the cipher and the contents, the receiver gets the command part back. -/
structure RoundTrip (keys : Keys) (infos : MsgHeaderInfos) (d : CompMsgData) : Prop where
  range : d.headerLgth = infos.headerLgth ∧
    encryptLgth d = decryptLgth infos d.currHdr d.totalLgth
  iv : ivOf keys.cryptKey = ivOf keys.cryptIvKey
  inBounds : d.headerLgth + cryptLgth (encryptLgth d) ≤ d.totalLgth
  restores : ∀ (aes : Aes) (m : Mem), aes.Inverse keys.cryptKey →
    ∃ d', sealMsg aes keys (withBytes d m) = (.ok (), d') ∧
      ∀ r : Mem, (∀ i : Nat, i < d.totalLgth → r i = d'.compMsgDataView.data i) →
        ∃ p, decryptPart aes keys infos d.currHdr d.totalLgth r = .ok p ∧
          ∀ i : Nat, i < encryptLgth d → p (d.headerLgth + i) = m (d.headerLgth + i)

/-- The two lengths agree only for a total CRC of one byte: the sender takes the flag for the
width. -/
theorem encryptLgth_eq_iff (infos : MsgHeaderInfos) (d : CompMsgData) (h : Sealable d)
    (hh : d.headerLgth = infos.headerLgth) :
    encryptLgth d = decryptLgth infos d.currHdr d.totalLgth ↔
      hasFlag d.currHdr.hdrFlags dispTotalCrc = true ∧ d.currHdr.u8TotalCrc = true := by
  have hs := sizeSub_of_le d.totalLgth d.headerLgth h.headerLe (by have := h.small; omega)
  have hsmall := h.small
  simp only [encryptLgth, decryptLgth, ← hh, hs]
  cases hasFlag d.currHdr.hdrFlags dispTotalCrc <;> cases d.currHdr.u8TotalCrc <;>
    simp only [Bool.false_eq_true, if_true, if_false, sizeSub, and_self, and_false, false_and,
      iff_false] <;> omega

/-- With a total CRC of one byte everything between the header and that byte is encrypted. -/
theorem encryptLgth_u8 (d : CompMsgData) (h : Sealable d)
    (hf : hasFlag d.currHdr.hdrFlags dispTotalCrc = true) (hu : d.currHdr.u8TotalCrc = true) :
    ∃ t, d.fields.getLast? = some t ∧ t.fieldLgth = 1 ∧
      t.fieldOffset = d.headerLgth + encryptLgth d ∧
      d.headerLgth + encryptLgth d + 1 = d.totalLgth := by
  obtain ⟨t, ht, hle, hend, hw⟩ := h.totalCrc hf
  have hsmall := h.small
  have hs := sizeSub_of_le d.totalLgth d.headerLgth h.headerLe (by omega)
  rw [hu, if_pos rfl] at hw
  have hl : encryptLgth d = d.totalLgth - d.headerLgth - 1 := by
    simp only [encryptLgth, hf, if_true, hs]
    exact sizeSub_of_le _ _ (by omega) (by omega)
  exact ⟨t, ht, hw, by omega, by omega⟩

/-- The message bytes once the cipher text has been copied back. -/
def cipherBytes (enc : Block 16 → Block 16) (keys : Keys) (d : CompMsgData) (m : Mem) : Mem :=
  write m d.headerLgth (bytesOf (encrypt xorBlock enc (ivOf keys.cryptKey)
    (blocksOf 16 m d.headerLgth (encryptLgth d))))

/-- The total CRC is written behind the encrypted part. -/
theorem sealMsg_eq (aes : Aes) (keys : Keys) (d : CompMsgData) (m : Mem) (h : Sealable d)
    (hf : hasFlag d.currHdr.hdrFlags dispTotalCrc = true) (hu : d.currHdr.u8TotalCrc = true)
    (enc : Block 16 → Block 16) (hz : ∀ n, n ≤ 65536 → aes.zalloc n = true)
    (he : aes.encryptInit (read keys.cryptKey 0 16) = some enc) :
    ∃ d', sealMsg aes keys (withBytes d m) = (.ok (), d') ∧
      ∀ i : Nat, i < d.headerLgth + encryptLgth d →
        d'.compMsgDataView.data i = cipherBytes enc keys d m i := by
  obtain ⟨t, ht, hw, hoff, hend⟩ := encryptLgth_u8 d h hf hu
  have hsmall := h.small
  have hE : (withBytes d m).currHdr.hdrEncryption = 'E' := h.encrypted
  have henc := encryptMsg_ok aes m d.headerLgth (encryptLgth d) keys.cryptKey keys.cryptKey enc
    hz he (by omega)
  have hpart : encryptPart aes keys (withBytes d m) =
      (.ok (), withBytes d (cipherBytes enc keys d m)) :=
    encryptPart_ok aes keys (withBytes d m) _ henc
  have hlast : (withBytes d (cipherBytes enc keys d m)).fields.getLast? = some t := ht
  have hflag : hasFlag (withBytes d (cipherBytes enc keys d m)).currHdr.hdrFlags
      dispTotalCrc = true := hf
  have hseal : sealMsg aes keys (withBytes d m) =
      ((setTotalCrc (withBytes d (cipherBytes enc keys d m)).compMsgDataView t).1,
        { withBytes d (cipherBytes enc keys d m) with
          compMsgDataView :=
            (setTotalCrc (withBytes d (cipherBytes enc keys d m)).compMsgDataView t).2 }) := by
    rw [sealMsg, if_pos hE, hpart, checkErrOK_ok, if_pos hflag, hlast]
  rw [setTotalCrc, setCrc_eq] at hseal
  refine ⟨_, hseal, ?_⟩
  intro i hi
  have htoInt : toInt t.fieldOffset = t.fieldOffset := toInt_of_lt _ (by omega)
  exact put_of_lt _ _ _ _ (by rw [htoInt]; omega)

theorem decryptPart_eq (aes : Aes) (keys : Keys) (infos : MsgHeaderInfos) (hdr : HeaderPart)
    (totalLgth : Nat) (r : Mem) (dec : Block 16 → Block 16)
    (hz : ∀ n, n ≤ 65536 → aes.zalloc n = true)
    (hd : aes.decryptInit (read keys.cryptKey 0 16) = some dec)
    (hsmall : decryptLgth infos hdr totalLgth < 65536) :
    decryptPart aes keys infos hdr totalLgth r =
      .ok (write r infos.headerLgth (bytesOf (decrypt xorBlock dec (ivOf keys.cryptIvKey)
        (blocksOf 16 r infos.headerLgth (decryptLgth infos hdr totalLgth))))) := by
  rw [decryptPart, decryptMsg_ok aes r infos.headerLgth _ _ _ dec hz hd hsmall]

/-- Whole blocks come back: the receiver decrypts what the sender has encrypted. -/
theorem restores_of_dvd (aes : Aes) (keys : Keys) (infos : MsgHeaderInfos) (d : CompMsgData)
    (m : Mem) (h : Sealable d) (hh : d.headerLgth = infos.headerLgth)
    (hf : hasFlag d.currHdr.hdrFlags dispTotalCrc = true) (hu : d.currHdr.u8TotalCrc = true)
    (hdvd : 16 ∣ encryptLgth d) (hiv : ivOf keys.cryptKey = ivOf keys.cryptIvKey)
    (ha : aes.Inverse keys.cryptKey) :
    ∃ d', sealMsg aes keys (withBytes d m) = (.ok (), d') ∧
      ∀ r : Mem, (∀ i : Nat, i < d.totalLgth → r i = d'.compMsgDataView.data i) →
        ∃ p, decryptPart aes keys infos d.currHdr d.totalLgth r = .ok p ∧
          ∀ i : Nat, i < encryptLgth d → p (d.headerLgth + i) = m (d.headerLgth + i) := by
  obtain ⟨hz, enc, dec, he, hd, hinv⟩ := ha
  obtain ⟨d', hseal, hbytes⟩ := sealMsg_eq aes keys d m h hf hu enc hz he
  obtain ⟨t, -, -, -, hend⟩ := encryptLgth_u8 d h hf hu
  have hl := (encryptLgth_eq_iff infos d h hh).mpr ⟨hf, hu⟩
  have hsmall := h.small
  obtain ⟨k, hk⟩ := hdvd
  refine ⟨d', hseal, ?_⟩
  intro r hr
  have hblocks : blocksOf 16 r d.headerLgth (encryptLgth d) =
      encrypt xorBlock enc (ivOf keys.cryptKey) (blocksOf 16 m d.headerLgth (encryptLgth d)) := by
    have hlen : encryptLgth d = 16 * (encrypt xorBlock enc (ivOf keys.cryptKey)
        (blocksOf 16 m d.headerLgth (encryptLgth d))).length := by
      rw [encrypt_length, blocksOf_length, hk, numBlocks_mul _ (by omega)]
    have hw := blocksOf_write m d.headerLgth (encrypt xorBlock enc (ivOf keys.cryptKey)
      (blocksOf 16 m d.headerLgth (encryptLgth d))) (by omega)
    rw [← hlen] at hw
    rw [← hw]
    apply blocksOf_congr
    intro i hi
    rw [← Nat.cast_add, hr _ (by omega), hbytes _ (by omega)]
    rfl
  have hdec := decryptPart_eq aes keys infos d.currHdr d.totalLgth r dec hz hd (by omega)
  rw [← hl, ← hh, hblocks, ← hiv, decrypt_encrypt _ _ _ hinv xorBlock_cancel] at hdec
  refine ⟨_, hdec, ?_⟩
  intro i hi
  have hin : i < (bytesOf (blocksOf 16 m d.headerLgth (encryptLgth d))).length := by
    rw [bytesOf_length, blocksOf_length, hk, numBlocks_mul _ (by omega), ← hk]
    exact hi
  rw [write_at _ _ _ _ hin, hk, bytesOf_blocksOf _ _ _ _ (by omega) (by omega)]

/-- A cipher that turns every block around. -/
def turningAes : Aes where
  zalloc := fun _ => true
  encryptInit := fun _ => some fun b i => b i.rev
  decryptInit := fun _ => some fun b i => b i.rev

theorem turningAes_inverse (key : Mem) : turningAes.Inverse key :=
  ⟨fun _ _ => rfl, _, _, rfl, rfl, fun b => by funext i; simp⟩

/-- Only the byte at `n` is set. -/
def oneByte (n : Nat) : Mem := fun i => if i = n then 1 else 0

theorem blockAt_oneByte (h lgth q j : Nat) (e : Fin 16) (hne : 16 * j + e ≠ 16 * q) :
    blockAt 16 (oneByte (h + 16 * q)) h lgth j e = blockAt 16 (fun _ => 0) h lgth j e := by
  have hne' : ((h : Int) + ((16 * j + (e : Nat) : Nat) : Int)) ≠ ((h + 16 * q : Nat) : Int) := by
    omega
  simp only [blockAt, oneByte, hne', if_false, ite_self]

/-- The first byte of a last block that is cut short ends up behind the cipher text sent. -/
theorem cipherBytes_cut (keys : Keys) (d : CompMsgData) (q s i : Nat) (hs : 0 < s) (hs' : s < 16)
    (hl : encryptLgth d = 16 * q + s) (hi : i < encryptLgth d) :
    cipherBytes (fun b i => b i.rev) keys d (oneByte (d.headerLgth + 16 * q))
        (d.headerLgth + i : Nat) =
      cipherBytes (fun b i => b i.rev) keys d (fun _ => 0) (d.headerLgth + i : Nat) := by
  have hn : numBlocks 16 (encryptLgth d) = q + 1 := by
    rw [hl, numBlocks]
    omega
  have hblocks : ∀ m, blocksOf 16 m d.headerLgth (encryptLgth d) =
      (List.range q).map (blockAt 16 m d.headerLgth (encryptLgth d)) ++
        [blockAt 16 m d.headerLgth (encryptLgth d) q] := by
    intro m
    rw [blocksOf, hn, List.range_succ, List.map_append, List.map_singleton]
  have hfront : (List.range q).map
        (blockAt 16 (oneByte (d.headerLgth + 16 * q)) d.headerLgth (encryptLgth d)) =
      (List.range q).map (blockAt 16 (fun _ => 0) d.headerLgth (encryptLgth d)) := by
    apply List.map_congr_left
    intro j hj
    have hjq := List.mem_range.mp hj
    funext e
    exact blockAt_oneByte d.headerLgth (encryptLgth d) q j e (by omega)
  have hlen : ∀ m, (bytesOf (encrypt xorBlock (fun b i => b i.rev) (ivOf keys.cryptKey)
      (blocksOf 16 m d.headerLgth (encryptLgth d)))).length = 16 * (q + 1) := by
    intro m
    rw [bytesOf_length, encrypt_length, blocksOf_length, hn]
  rw [Nat.cast_add, cipherBytes, cipherBytes, write_at _ _ _ _ (by rw [hlen]; omega),
    write_at _ _ _ _ (by rw [hlen]; omega), hblocks, hblocks, encrypt_concat, encrypt_concat,
    hfront]
  generalize hcs : encrypt xorBlock (fun b i => b i.rev) (ivOf keys.cryptKey)
    ((List.range q).map (blockAt 16 (fun _ => 0) d.headerLgth (encryptLgth d))) = cs
  have hcq : cs.length = q := by
    rw [← hcs, encrypt_length, List.length_map, List.length_range]
  have happ : ∀ c : Block 16, bytesOf (cs ++ [c]) = bytesOf cs ++ List.ofFn c := by
    intro c
    simp [bytesOf]
  have hbl : (bytesOf cs).length = 16 * q := by rw [bytesOf_length, hcq]
  rw [happ, happ]
  by_cases hiq : i < 16 * q
  · rw [List.getD_append _ _ _ _ (by omega), List.getD_append _ _ _ _ (by omega)]
  · rw [List.getD_append_right _ _ _ _ (by omega), List.getD_append_right _ _ _ _ (by omega), hbl]
    have he : i - 16 * q < 16 := by omega
    have hrev : ((⟨i - 16 * q, he⟩ : Fin 16).rev : Nat) ≠ 0 := by
      change 16 - (i - 16 * q + 1) ≠ 0
      omega
    have hlast := blockAt_oneByte d.headerLgth (encryptLgth d) q q _
      (fun heq => hrev (Nat.add_eq_left.mp heq))
    simp only [List.getD_eq_getElem?_getD, List.getElem?_ofFn, he, dif_pos, Option.getD_some,
      xorBlock, hlast]

/-- What a round trip restores depends on the cipher text only. -/
theorem restored_bytes (keys : Keys) (infos : MsgHeaderInfos) (d : CompMsgData)
    (h : Sealable d) (hw : RoundTrip keys infos d) (m : Mem) :
    ∃ p : Mem, (∀ i : Nat, i < encryptLgth d → p (d.headerLgth + i) = m (d.headerLgth + i)) ∧
      ∀ i : Nat, i < encryptLgth d → p (d.headerLgth + i) =
        (bytesOf (decrypt xorBlock (fun b i => b i.rev) (ivOf keys.cryptIvKey)
          (blocksOf 16 (cipherBytes (fun b i => b i.rev) keys d m) d.headerLgth
            (encryptLgth d)))).getD i 0 := by
  obtain ⟨hh, hl⟩ := hw.range
  obtain ⟨hf, hu⟩ := (encryptLgth_eq_iff infos d h hh).mp hl
  obtain ⟨t, -, -, -, hend⟩ := encryptLgth_u8 d h hf hu
  have hsmall := h.small
  have hdec := fun r => decryptPart_eq turningAes keys infos d.currHdr d.totalLgth r _
    (fun _ _ => rfl) rfl (by omega)
  obtain ⟨d', hd', hrest⟩ := hw.restores turningAes m (turningAes_inverse _)
  obtain ⟨d2, hd2, hbytes⟩ := sealMsg_eq turningAes keys d m h hf hu _ (fun _ _ => rfl) rfl
  rw [hd', Prod.mk.injEq] at hd2
  obtain ⟨-, rfl⟩ := hd2
  obtain ⟨p, hp, hpm⟩ := hrest d'.compMsgDataView.data (fun i _ => rfl)
  refine ⟨p, hpm, ?_⟩
  intro i hi
  rw [hdec, Except.ok.injEq] at hp
  rw [← hp, ← hl, ← hh, write_at _ _ _ _ (by
    rw [bytesOf_length, decrypt_length, blocksOf_length, numBlocks]; omega)]
  congr 3
  apply blocksOf_congr
  intro k hk
  rw [← Nat.cast_add]
  exact hbytes _ (by omega)

/-- Two contents that differ in one byte give the same cipher text, so one of them is lost. -/
theorem dvd_of_restores (keys : Keys) (infos : MsgHeaderInfos) (d : CompMsgData)
    (h : Sealable d) (hw : RoundTrip keys infos d) : 16 ∣ encryptLgth d := by
  by_contra hndvd
  have hs : 0 < encryptLgth d % 16 := by omega
  have hq : encryptLgth d = 16 * (encryptLgth d / 16) + encryptLgth d % 16 := by omega
  obtain ⟨p0, hm0, hp0⟩ := restored_bytes keys infos d h hw (fun _ => 0)
  obtain ⟨p1, hm1, hp1⟩ :=
    restored_bytes keys infos d h hw (oneByte (d.headerLgth + 16 * (encryptLgth d / 16)))
  have hsame : blocksOf 16 (cipherBytes (fun b i => b i.rev) keys d
        (oneByte (d.headerLgth + 16 * (encryptLgth d / 16)))) d.headerLgth (encryptLgth d) =
      blocksOf 16 (cipherBytes (fun b i => b i.rev) keys d (fun _ => 0)) d.headerLgth
        (encryptLgth d) := by
    apply blocksOf_congr
    intro i hi
    rw [← Nat.cast_add]
    exact cipherBytes_cut keys d _ _ i hs (Nat.mod_lt _ (by omega)) hq hi
  have hi : 16 * (encryptLgth d / 16) < encryptLgth d := by omega
  have h0 := (hm0 _ hi).symm.trans (hp0 _ hi)
  have h1 := (hm1 _ hi).symm.trans (hp1 _ hi)
  rw [hsame, ← h0] at h1
  simp [oneByte] at h1

/-- Sender and receiver fit together exactly for a total CRC of one byte, a filled up command
part and equal keys. -/
theorem roundTrip_iff (keys : Keys) (infos : MsgHeaderInfos) (d : CompMsgData) (h : Sealable d) :
    RoundTrip keys infos d ↔
      d.headerLgth = infos.headerLgth ∧ hasFlag d.currHdr.hdrFlags dispTotalCrc = true ∧
        d.currHdr.u8TotalCrc = true ∧ 16 ∣ d.totalLgth - d.headerLgth - 1 ∧
        ivOf keys.cryptKey = ivOf keys.cryptIvKey := by
  constructor
  · intro hw
    obtain ⟨hh, hl⟩ := hw.range
    obtain ⟨hf, hu⟩ := (encryptLgth_eq_iff infos d h hh).mp hl
    obtain ⟨t, -, -, -, hend⟩ := encryptLgth_u8 d h hf hu
    have hdvd := dvd_of_restores keys infos d h hw
    have he : d.totalLgth - d.headerLgth - 1 = encryptLgth d := by omega
    rw [he]
    exact ⟨hh, hf, hu, hdvd, hw.iv⟩
  · rintro ⟨hh, hf, hu, hdvd, hiv⟩
    obtain ⟨t, -, -, -, hend⟩ := encryptLgth_u8 d h hf hu
    have hsmall := h.small
    have he : d.totalLgth - d.headerLgth - 1 = encryptLgth d := by omega
    rw [he] at hdvd
    refine ⟨⟨hh, (encryptLgth_eq_iff infos d h hh).mpr ⟨hf, hu⟩⟩, hiv, ?_, ?_⟩
    · rw [cryptLgth_eq _ (by omega), numBlocks]
      omega
    · intro aes m ha
      exact restores_of_dvd aes keys infos d m h hh hf hu hdvd hiv ha

def cryptHdr (totalCrc : SeqEntry) : HeaderPart :=
  ⟨0, 0, 0, 0, 'E', 'G', dispTotalCrc,
    [.u16Dst, .u16Src, .u16TotalLgth, .u16CmdKey, .u8Crc, totalCrc]⟩

def cryptInfos (totalCrc : SeqEntry) : MsgHeaderInfos :=
  ⟨[.u16Dst, .u16Src, .u16TotalLgth], 6, [cryptHdr totalCrc]⟩

/-- A message with a filled up command part and a total CRC of the given width. -/
def cryptMsg (totalCrc : SeqEntry) (width : Nat) : CompMsgData :=
  (initMsg {
    fields := [⟨specFieldDst, .uint16, 2, 0⟩, ⟨specFieldSrc, .uint16, 2, 0⟩,
      ⟨specFieldTotalLgth, .uint16, 2, 0⟩, ⟨specFieldCmdKey, .uint16, 2, 0⟩,
      ⟨specFieldFiller, .uint8Vector, 0, 0⟩, ⟨specFieldCrc, .uint8, 1, 0⟩,
      ⟨specFieldTotalCrc, .uint16, width, 0⟩]
    flags := hasCrc ||| hasTotalCrc
    fieldOffset := 0
    totalLgth := 0
    cmdLgth := 0
    headerLgth := 0
    compMsgDataView := ⟨fun _ => 0, 0⟩
    currHdr := cryptHdr totalCrc }).2

def sameKeys : Keys := ⟨fun _ => 7, fun _ => 7⟩

theorem cryptMsg_u8_sealable : Sealable (cryptMsg .u8TotalCrc 1) :=
  ⟨rfl, by decide +kernel, by decide +kernel,
    fun _ => ⟨⟨specFieldTotalCrc, .uint16, 1, 22⟩, by decide +kernel⟩⟩

theorem cryptMsg_u16_sealable : Sealable (cryptMsg .u16TotalCrc 2) :=
  ⟨rfl, by decide +kernel, by decide +kernel,
    fun _ => ⟨⟨specFieldTotalCrc, .uint16, 2, 22⟩, by decide +kernel⟩⟩

theorem cryptMsg_u8_roundTrip :
    RoundTrip sameKeys (cryptInfos .u8TotalCrc) (cryptMsg .u8TotalCrc 1) :=
  (roundTrip_iff sameKeys (cryptInfos .u8TotalCrc) (cryptMsg .u8TotalCrc 1)
    cryptMsg_u8_sealable).mpr
    ⟨by decide +kernel, by decide +kernel, by decide +kernel, by decide +kernel, rfl⟩

/-- With a total CRC of two bytes the sender encrypts 17 bytes and the receiver decrypts 16. -/
theorem cryptMsg_u16_not_roundTrip :
    ¬∀ keys infos d, Sealable d → RoundTrip keys infos d := by
  intro h
  have hr := (h sameKeys (cryptInfos .u16TotalCrc) (cryptMsg .u16TotalCrc 2)
    cryptMsg_u16_sealable).range.2
  have he : encryptLgth (cryptMsg .u16TotalCrc 2) = 17 := by decide +kernel
  have hd : decryptLgth (cryptInfos .u16TotalCrc) (cryptMsg .u16TotalCrc 2).currHdr
      (cryptMsg .u16TotalCrc 2).totalLgth = 16 := by decide +kernel
  omega

end NodeMcu.CompMsg.Encryption
