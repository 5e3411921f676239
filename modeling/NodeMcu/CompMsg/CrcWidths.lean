import NodeMcu.CompMsg.Selection

namespace NodeMcu.CompMsg.CrcWidths

open NodeMcu.Lib.FirstIndex
open NodeMcu.CompMsg.Codes NodeMcu.CompMsg.View NodeMcu.CompMsg.Headers NodeMcu.CompMsg.Crc
open NodeMcu.CompMsg.Identify NodeMcu.CompMsg.Reception NodeMcu.CompMsg.Recovery
open NodeMcu.CompMsg.HeaderChecks NodeMcu.CompMsg.Selection

/-- The width of the total CRC that a field sequence declares. -/
def declaredTotalCrc (hdr : HeaderPart) : Nat :=
  if hdr.u8TotalCrc then 1 else if hdr.fieldSequence.any (· == .u16TotalCrc) then 2 else 0

/-- The place of a field CRC in a message: in front of the declared total CRC. -/
def declaredOffset (hdr : HeaderPart) (totalLgth width : Nat) : Nat :=
  sizeSub (sizeSub totalLgth width) (declaredTotalCrc hdr)

def fieldCrcWidth : SeqEntry → Option Nat
  | .u8Crc => some 1
  | .u16Crc => some 2
  | _ => none

/-- A complete message that is checked before it is handed on. -/
structure Checked (env : Env) (hdr : HeaderPart) (s : Receiver) : Prop where
  entry : env.infos.headerParts[s.currPartIdx]? = some hdr
  handleType : hdr.hdrHandleType ∈ ['G', 'R', 'D']
  complete : s.received.lgth = s.received.totalLgth

/-- The entry that a message belongs to once its command key has been compared. -/
inductive FinallySelected (env : Env) (hdr : HeaderPart) (s : Receiver) : HeaderPart → Prop
  | kept (h : ¬ KeySearched env hdr s) : FinallySelected env hdr s hdr
  | found (h : KeySearched env hdr s) (j : Nat) (final : HeaderPart)
      (hj : FirstFrom (fitsKey s.received (receivedKey env s)) env.infos.headerParts
        (s.currPartIdx + 1) j)
      (hfinal : env.infos.headerParts[j]? = some final) : FinallySelected env hdr s final

/-- A field is checked if the fields in front of it pass. -/
def Reached (env : Env) (u8TotalCrc : Bool) (hdr : HeaderPart) (v : DataView) (result : Result)
    (es : List SeqEntry) (e : SeqEntry) : Prop :=
  ∃ pre post, es = pre ++ e :: post ∧ fieldChecks env u8TotalCrc hdr v result pre = .ok ()

/-- The field CRCs that are checked: the entry that their place is taken from, and their width. -/
inductive CrcChecked (env : Env) (hdr final : HeaderPart) (s : Receiver) : HeaderPart → Nat → Prop
  | kept (h : ¬ KeySearched env hdr s) (e : SeqEntry) (width : Nat)
      (hwidth : fieldCrcWidth e = some width)
      (hreached : Reached env hdr.u8TotalCrc hdr (messageView s) env.unsetResult
        (fieldsBehind hdr s) e) : CrcChecked env hdr final s hdr width
  | front (h : KeySearched env hdr s) (e : SeqEntry) (width : Nat)
      (hwidth : fieldCrcWidth e = some width)
      (hreached : Reached env hdr.u8TotalCrc hdr (messageView s) env.unsetResult
        (beforeKey (fieldsBehind hdr s)) e) : CrcChecked env hdr final s hdr width
  | behind (h : KeySearched env hdr s) (e : SeqEntry) (width : Nat)
      (hwidth : fieldCrcWidth e = some width)
      (hreached : Reached env hdr.u8TotalCrc final (messageView s) (.ok ())
        (final.fieldSequence.drop (s.seqIdxAfterHeader + 1)) e) :
      CrcChecked env hdr final s final width

/-- The widths and places with which a message is checked are those that its entry `final`
declares. The message is decrypted between `s` and `t`. -/
structure Follows (env : Env) (hdr final : HeaderPart) (s t : Receiver) : Prop where
  totalWidth : declaredTotalCrc final ≠ 0 →
    (totalCrcField hdr s.received.totalLgth).fieldLgth = declaredTotalCrc final
  fieldOffset : (checkTotalCrc hdr s).1 = .ok () → ∀ owner width,
    CrcChecked env hdr final t owner width →
      (headerCrcField owner hdr.u8TotalCrc t.received.totalLgth width).fieldOffset =
        declaredOffset final t.received.totalLgth width
  notRejected : declaredTotalCrc final = 0 → (checkTotalCrc hdr s).1 = .ok ()

def FollowsSelected (env : Env) (s : Receiver) : Prop :=
  ∀ hdr t final, Checked env hdr s → decryptReceived env hdr s = (.ok (), t) →
    FinallySelected env hdr t final → Follows env hdr final s t

/-- The last bytes of a message are the CRC of those in front of them, in the width that the
chosen entry stands for. -/
def EndsWithCrc (hdr : HeaderPart) (s : Receiver) : Prop :=
  let width := if hdr.u8TotalCrc then 1 else 2
  let fieldOffset := sizeSub s.received.totalLgth width
  getBytes (messageView s) (toInt fieldOffset) width =
    .ok (crcVal s.received.buf 0 fieldOffset % 256 ^ width)

/-- The chosen and the selected entry agree in the width of the total CRC, the flags agree with the
field sequences, and a message without a total CRC happens to end with one. -/
structure Agrees (env : Env) (hdr final : HeaderPart) (s t : Receiver) : Prop where
  total : declaredTotalCrc final ≠ 0 → hdr.u8TotalCrc = final.u8TotalCrc
  flags : EndsWithCrc hdr s → ∀ owner width, CrcChecked env hdr final t owner width →
    (hasFlag owner.hdrFlags dispTotalCrc = true ↔ declaredTotalCrc final ≠ 0)
  ends : declaredTotalCrc final = 0 → EndsWithCrc hdr s

def EntriesAgree (env : Env) (s : Receiver) : Prop :=
  ∀ hdr t final, Checked env hdr s → decryptReceived env hdr s = (.ok (), t) →
    FinallySelected env hdr t final → Agrees env hdr final s t

/-- The selected entry is the one that `handleReceivedHeader` ends with. -/
theorem finallySelected_entry (env : Env) (hdr final : HeaderPart) (s : Receiver)
    (hlen : env.infos.headerParts.length < 256) (hc : Chosen env.infos hdr s)
    (h : FinallySelected env hdr s final) :
    env.infos.headerParts[(handleReceivedHeader env hdr s).2.currPartIdx]? = some final := by
  cases h with
  | kept h =>
    by_cases hr : KeyReached env hdr s
    · have hkey : receivedKey env s = hdr.hdrU16CmdKey := by
        by_contra hne
        exact h ⟨hr.mem, hr.passed, hne⟩
      rw [(header_kept env hdr s fun _ => hkey).currPartIdx, hc.entry]
    · rw [kept_unreached env hdr s hr, hc.entry]
  | found h j final hj hfinal =>
    rw [(header_found env hdr final s j hlen (chosen_lt _ _ _ hc) h hj hfinal).currPartIdx, hfinal]

theorem checkTotalCrc_iff (hdr : HeaderPart) (s : Receiver)
    (hcomplete : s.received.lgth = s.received.totalLgth) :
    (checkTotalCrc hdr s).1 = .ok () ↔ EndsWithCrc hdr s := by
  have hcrc : (checkTotalCrc hdr s).1 =
      getTotalCrc (messageView s) (totalCrcField hdr s.received.totalLgth) := by
    rw [checkTotalCrc, messageView]
    split
    · rw [hcomplete]
    · cases hg : getTotalCrc ⟨s.received.buf, s.received.totalLgth⟩
          (totalCrcField hdr s.received.totalLgth) with
      | ok u => rfl
      | error e => rfl
  rw [hcrc, getTotalCrc, getCrc_ok_iff, EndsWithCrc, crcWidth, totalCrcField]
  cases hdr.u8TotalCrc with
  | true => exact Iff.rfl
  | false => exact Iff.rfl

/-- The bytes that are left free behind a field CRC for the total CRC. -/
def assumedTotalCrc (hdr : HeaderPart) (u8TotalCrc : Bool) : Nat :=
  if hasFlag hdr.hdrFlags dispTotalCrc then (if u8TotalCrc then 1 else 2) else 0

theorem sizeSub_left_inj (n a b : Nat) (ha : a ≤ 2) (hb : b ≤ 2) :
    sizeSub n a = sizeSub n b ↔ a = b := by
  rw [sizeSub, sizeSub]
  omega

theorem headerCrcField_offset (hdr : HeaderPart) (u8TotalCrc : Bool) (totalLgth width : Nat) :
    (headerCrcField hdr u8TotalCrc totalLgth width).fieldOffset =
      sizeSub (sizeSub totalLgth width) (assumedTotalCrc hdr u8TotalCrc) := by
  have hzero : sizeSub (sizeSub totalLgth width) 0 = sizeSub totalLgth width := by
    rw [sizeSub, sizeSub]
    omega
  rw [headerCrcField, assumedTotalCrc]
  dsimp only
  cases hasFlag hdr.hdrFlags dispTotalCrc with
  | true => cases u8TotalCrc <;> simp
  | false => simpa using hzero.symm

theorem declaredTotalCrc_le (hdr : HeaderPart) : declaredTotalCrc hdr ≤ 2 := by
  rw [declaredTotalCrc]
  split
  · omega
  · split
    · omega
    · omega

theorem assumedTotalCrc_le (hdr : HeaderPart) (u8TotalCrc : Bool) :
    assumedTotalCrc hdr u8TotalCrc ≤ 2 := by
  rw [assumedTotalCrc]
  split
  · split
    · omega
    · omega
  · omega

/-- An entry that declares a total CRC declares it in the width that the check assumes if and only
if both have the narrow one or neither has. -/
theorem totalWidth_iff (hdr final : HeaderPart) (totalLgth : Nat)
    (h : declaredTotalCrc final ≠ 0) :
    (totalCrcField hdr totalLgth).fieldLgth = declaredTotalCrc final ↔
      hdr.u8TotalCrc = final.u8TotalCrc := by
  have hwidth : (totalCrcField hdr totalLgth).fieldLgth = if hdr.u8TotalCrc then 1 else 2 := rfl
  rw [hwidth]
  rw [declaredTotalCrc] at h ⊢
  cases hf : final.u8TotalCrc with
  | true => cases hdr.u8TotalCrc <;> simp
  | false =>
    rw [hf] at h
    cases hu : final.fieldSequence.any (· == .u16TotalCrc) with
    | true => cases hdr.u8TotalCrc <;> simp
    | false =>
      rw [hu] at h
      exact absurd rfl h

/-- A field CRC is looked for in its declared place if and only if the flag agrees with the
sequence. -/
theorem assumedTotalCrc_iff (owner hdr final : HeaderPart)
    (htotal : declaredTotalCrc final ≠ 0 → hdr.u8TotalCrc = final.u8TotalCrc) :
    assumedTotalCrc owner hdr.u8TotalCrc = declaredTotalCrc final ↔
      (hasFlag owner.hdrFlags dispTotalCrc = true ↔ declaredTotalCrc final ≠ 0) := by
  by_cases hzero : declaredTotalCrc final = 0
  · rw [hzero, assumedTotalCrc]
    cases hasFlag owner.hdrFlags dispTotalCrc with
    | true => cases hdr.u8TotalCrc <;> simp
    | false => simp
  · have hwidth := (totalWidth_iff hdr final 0 hzero).mpr (htotal hzero)
    have hassumed : (totalCrcField hdr 0).fieldLgth = if hdr.u8TotalCrc then 1 else 2 := rfl
    rw [← hwidth, hassumed, assumedTotalCrc]
    cases hasFlag owner.hdrFlags dispTotalCrc with
    | true => cases hdr.u8TotalCrc <;> simp
    | false => cases hdr.u8TotalCrc <;> simp

theorem fieldOffset_iff (owner hdr final : HeaderPart) (totalLgth width : Nat)
    (htotal : declaredTotalCrc final ≠ 0 → hdr.u8TotalCrc = final.u8TotalCrc) :
    (headerCrcField owner hdr.u8TotalCrc totalLgth width).fieldOffset =
        declaredOffset final totalLgth width ↔
      (hasFlag owner.hdrFlags dispTotalCrc = true ↔ declaredTotalCrc final ≠ 0) := by
  rw [headerCrcField_offset, declaredOffset,
    sizeSub_left_inj _ _ _ (assumedTotalCrc_le owner _) (declaredTotalCrc_le final),
    assumedTotalCrc_iff owner hdr final htotal]

theorem follows_iff (env : Env) (hdr final : HeaderPart) (s t : Receiver)
    (hc : Checked env hdr s) : Follows env hdr final s t ↔ Agrees env hdr final s t := by
  have hcrc := checkTotalCrc_iff hdr s hc.complete
  constructor
  · intro h
    have htotal : declaredTotalCrc final ≠ 0 → hdr.u8TotalCrc = final.u8TotalCrc := fun hne =>
      (totalWidth_iff hdr final _ hne).mp (h.totalWidth hne)
    refine ⟨htotal, fun hends owner width hw => ?_, fun hzero => hcrc.mp (h.notRejected hzero)⟩
    exact (fieldOffset_iff owner hdr final _ width htotal).mp
      (h.fieldOffset (hcrc.mpr hends) owner width hw)
  · intro h
    refine ⟨fun hne => (totalWidth_iff hdr final _ hne).mpr (h.total hne),
      fun hok owner width hw => ?_, fun hzero => hcrc.mpr (h.ends hzero)⟩
    exact (fieldOffset_iff owner hdr final _ width h.total).mpr
      (h.flags (hcrc.mp hok) owner width hw)

/-- The checks of a message follow the selected entry if and only if the entries agree. -/
theorem followsSelected_iff (env : Env) (s : Receiver) :
    FollowsSelected env s ↔ EntriesAgree env s := by
  refine forall_congr' fun hdr => forall_congr' fun t => forall_congr' fun final => ?_
  exact forall_congr' fun hc => forall_congr' fun _ => forall_congr' fun _ =>
    follows_iff env hdr final s t hc

/-- A message is rejected for its total CRC although no entry of the table declares one. -/
theorem keyReceiver_not_followed :
    (handleComplete (keyEnv [.u16CmdKey]) (keyReceiver [.u16CmdKey])).1 = .error .badCrcValue ∧
      (∀ hdr ∈ (keyEnv [.u16CmdKey]).infos.headerParts, declaredTotalCrc hdr = 0) ∧
      ¬ FollowsSelected (keyEnv [.u16CmdKey]) (keyReceiver [.u16CmdKey]) := by
  refine ⟨by decide +kernel, by decide, fun h => ?_⟩
  have hsearched : KeySearched (keyEnv [.u16CmdKey]) (keyHdr [.u16CmdKey])
      (keyReceiver [.u16CmdKey]) :=
    ⟨by decide +kernel, by decide +kernel, by decide +kernel⟩
  have hfollows := h (keyHdr [.u16CmdKey]) (keyReceiver [.u16CmdKey])
    ⟨1, 2, 0, 0x4132, 'N', 'G', 0, [.u16Dst, .u16Src, .u16TotalLgth, .u16CmdKey]⟩
    ⟨by decide +kernel, by decide, by decide +kernel⟩ rfl
    (.found hsearched 1 _ (firstFrom_of_findIdx _ _ 1 0 (by decide +kernel)) rfl)
  exact absurd (hfollows.notRejected (by decide)) (by decide +kernel)

end NodeMcu.CompMsg.CrcWidths
