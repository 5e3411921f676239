import NodeMcu.Rtc.Words

namespace NodeMcu.Rtc.Slots

open NodeMcu.Lib.Ring NodeMcu.Rtc.Fifo NodeMcu.Rtc.Words

/-! ## The storage -/

/-- A piece of memory for tags and entries that fits the word of the location and contains none of
the words of the control block that are used with it. -/
structure Piece where
  first : Nat
  last : Nat
  tagcount : Nat
  room : first + tagcount < last
  fits : last < 256
  clear : last ≤ 15 ∨ 21 ≤ first

/-- A piece of memory with tags, and no more of them than an entry can name. -/
structure Storage extends Piece where
  pos : 1 ≤ tagcount
  few : tagcount ≤ 16

instance : Coe Storage Piece := ⟨Storage.toPiece⟩

/-- The first slot for entries. -/
def Piece.lo (r : Piece) : Nat := r.first + r.tagcount

def Piece.Inside (r : Piece) (i : Nat) : Prop := r.first ≤ i ∧ i < r.last

/-- The word of the location names the storage. -/
def Located (r : Piece) (s : RtcMem) : Prop :=
  s.mem 15 = location (UInt32.ofNat r.first) (UInt32.ofNat r.last) (UInt32.ofNat r.tagcount)

/-- The FIFO has this location, its head lies in the ring of entries, and so many entries from
there on end at the tail. -/
structure Placed (r : Piece) (s : RtcMem) : Prop where
  loc : Located r s
  le_head : r.lo ≤ (s.mem 18).toNat
  head_lt : (s.mem 18).toNat < r.last
  count : (s.mem 16).toNat ≤ r.last - r.lo
  tail : (s.mem 17).toNat = slot r.lo r.last (s.mem 18).toNat (s.mem 16).toNat

/-- The entries of the FIFO, the oldest first. -/
def entries (r : Piece) (s : RtcMem) : List UInt32 :=
  contents r.lo r.last s.mem (s.mem 18).toNat (s.mem 16).toNat

theorem getTail_eq (s : RtcMem) : getTail s = s.mem 17 := rfl

theorem getHead_eq (s : RtcMem) : getHead s = s.mem 18 := rfl

theorem getCount_eq (s : RtcMem) : getCount s = s.mem 16 := rfl

theorem getTailT_eq (s : RtcMem) : getTailT s = s.mem 19 := rfl

theorem getHeadT_eq (s : RtcMem) : getHeadT s = s.mem 20 := rfl

theorem mem_write (s : RtcMem) (addr val : UInt32) :
    (rtcMemWrite s addr val).mem = Function.update s.mem addr.toNat val := rfl

theorem mem_touch (s : RtcMem) (addr : UInt32) : (s.touch addr).mem = s.mem := rfl

theorem mem_putTail (val : UInt32) (s : RtcMem) :
    (putTail val s).mem = Function.update s.mem 17 val := rfl

theorem mem_putHead (val : UInt32) (s : RtcMem) :
    (putHead val s).mem = Function.update s.mem 18 val := rfl

theorem mem_putCount (val : UInt32) (s : RtcMem) :
    (putCount val s).mem = Function.update s.mem 16 val := rfl

theorem mem_putTailT (val : UInt32) (s : RtcMem) :
    (putTailT val s).mem = Function.update s.mem 19 val := rfl

theorem mem_putHeadT (val : UInt32) (s : RtcMem) :
    (putHeadT val s).mem = Function.update s.mem 20 val := rfl

section Located

variable {r : Piece} {s : RtcMem}

theorem tagpos_toNat (h : Located r s) : (getTagpos s).toNat = r.first :=
  getTagpos_toNat r.first r.last r.tagcount s (by have := r.room; have := r.fits; omega) r.fits
    (by have := r.room; have := r.fits; omega) h

theorem last_toNat (h : Located r s) : (getLast s).toNat = r.last :=
  getLast_toNat r.first r.last r.tagcount s (by have := r.room; have := r.fits; omega) r.fits
    (by have := r.room; have := r.fits; omega) h

theorem tagcount_toNat (h : Located r s) : (getTagcount s).toNat = r.tagcount :=
  getTagcount_toNat r.first r.last r.tagcount s (by have := r.room; have := r.fits; omega) r.fits
    (by have := r.room; have := r.fits; omega) h

theorem first_toNat (h : Located r s) : (getFirst s).toNat = r.lo :=
  getFirst_toNat r.first r.last r.tagcount s (by have := r.room; have := r.fits; omega) r.fits
    (by have := r.room; have := r.fits; omega) h

theorem normalise_next (h : Located r s) (i : UInt32) (hi : i.toNat < r.last) :
    (normaliseIndex s (i + 1)).toNat = next r.lo r.last i.toNat := by
  have hfits := r.fits
  have h1 : (i + 1).toNat = i.toNat + 1 := by
    rw [UInt32.toNat_add]
    change (i.toNat + 1) % 2 ^ 32 = i.toNat + 1
    omega
  have hlast := last_toNat h
  rw [normaliseIndex, next]
  by_cases hle : getLast s ≤ i + 1
  · have hle' := UInt32.le_iff_toNat_le.mp hle
    rw [if_pos hle, if_pos (by omega)]
    exact first_toNat h
  · have hle' : ¬(getLast s).toNat ≤ (i + 1).toNat := fun h => hle (UInt32.le_iff_toNat_le.mpr h)
    rw [if_neg hle, if_neg (by omega)]
    exact h1

theorem tagSlot_toNat (h : Located r s) (e : UInt32) :
    (tagSlot s e).toNat = r.first + (getTagindex e).toNat := by
  have hroom := r.room
  have hfits := r.fits
  rw [tagSlot, UInt32.toNat_add, tagpos_toNat h, getTagindex_toNat]
  omega

end Located

/-- Slots of the storage are no control words. -/
theorem Piece.ne_control (r : Piece) {i : Nat} (h : r.Inside i) : i < 15 ∨ 20 < i := by
  have hclear := r.clear
  obtain ⟨h1, h2⟩ := h
  omega

theorem Piece.inside_slot (r : Piece) {start n : Nat} (hlo : r.lo ≤ start)
    (hhi : start < r.last) (hn : n ≤ r.last - r.lo) : r.Inside (slot r.lo r.last start n) := by
  have h1 := le_slot (n := n) hlo hhi
  have h2 := slot_lt hlo hhi hn
  have hfirst : r.lo = r.first + r.tagcount := rfl
  exact ⟨by omega, h2⟩

theorem Placed.inside_head {r : Piece} {s : RtcMem} (h : Placed r s) :
    r.Inside (s.mem 18).toNat := by
  have := r.inside_slot h.le_head h.head_lt (Nat.zero_le _)
  rwa [slot_zero h.head_lt] at this

theorem Placed.inside_tail {r : Piece} {s : RtcMem} (h : Placed r s) :
    r.Inside (s.mem 17).toNat := by
  rw [h.tail]
  exact r.inside_slot h.le_head h.head_lt h.count

/-- States that agree in the ring and in the words that place the FIFO. -/
theorem entries_congr {r : Piece} {s t : RtcMem} (h : Placed r s)
    (hin : ∀ i, r.lo ≤ i → i < r.last → t.mem i = s.mem i) (h16 : t.mem 16 = s.mem 16)
    (h18 : t.mem 18 = s.mem 18) : entries r t = entries r s := by
  rw [entries, entries, h16, h18]
  exact contents_congr h.le_head h.head_lt h.count hin

theorem Placed.congr {r : Piece} {s t : RtcMem} (h : Placed r s) (h15 : t.mem 15 = s.mem 15)
    (h16 : t.mem 16 = s.mem 16) (h17 : t.mem 17 = s.mem 17) (h18 : t.mem 18 = s.mem 18) :
    Placed r t := by
  obtain ⟨hl, h1, h2, h3, h4⟩ := h
  exact ⟨h15.trans hl, by rwa [h18], by rwa [h18], by rwa [h16], by rw [h17, h18, h16, h4]⟩

/-! ## What the operations do to the entries -/

/-- The oldest entry is taken. -/
structure Popped (r : Piece) (s t : RtcMem) (e : UInt32) : Prop where
  entries : entries r s = e :: entries r t
  placed : Placed r t
  headT : t.mem 20 = s.mem 20 + getDeltat e
  same : ∀ i, i ≠ 16 → i ≠ 18 → i ≠ 20 → t.mem i = s.mem i

theorem Popped.tags {r : Piece} {s t : RtcMem} {e : UInt32} (hp : Popped r s t e) (i : Nat)
    (hfirst : r.first ≤ i) (hlo : i < r.lo) : t.mem i = s.mem i := by
  have hroom := r.room
  have hne := r.ne_control (i := i) ⟨hfirst, by simp only [Piece.lo] at hlo; omega⟩
  exact hp.same i (by omega) (by omega) (by omega)

theorem popSample_mem (s : RtcMem) (hc : s.mem 16 ≠ 0) (i : Nat) :
    (popSample s).2.mem i = if i = 16 then s.mem 16 - 1
      else if i = 20 then s.mem 20 + getDeltat (s.mem (s.mem 18).toNat)
      else if i = 18 then normaliseIndex s (s.mem 18 + 1) else s.mem i := by
  rw [popSample, if_neg (show getCount s ≠ 0 from hc)]
  simp only [decrementCount, getCount_eq, getHead_eq, getHeadT_eq, mem_putCount, mem_putHeadT,
    mem_putHead, mem_touch, Function.update_apply, Nat.reduceEqDiff, if_false]
  rfl

theorem popSample_popped {r : Piece} {s : RtcMem} (h : Placed r s) (hc : s.mem 16 ≠ 0) :
    ∃ e, (popSample s).1 = some (fillSample s e (s.mem 20 + getDeltat e)) ∧
      Popped r s (popSample s).2 e := by
  obtain ⟨hloc, hle, hlt, hcount, htail⟩ := h
  have hnext : (normaliseIndex s (s.mem 18 + 1)).toNat = next r.lo r.last (s.mem 18).toNat :=
    normalise_next hloc _ hlt
  have hpos : 0 < (s.mem 16).toNat := by
    have : (s.mem 16).toNat ≠ 0 := fun h0 => hc (UInt32.toNat_inj.mp h0)
    omega
  have hdec : (s.mem 16 - 1).toNat = (s.mem 16).toNat - 1 :=
    UInt32.toNat_sub_of_le _ _ (UInt32.le_iff_toNat_le.mpr hpos)
  have hroom := r.room
  have hmem := popSample_mem s hc
  have h18 := hmem 18
  have h16 := hmem 16
  simp only [Nat.reduceEqDiff, if_true, if_false] at h18 h16
  refine ⟨s.mem (s.mem 18).toNat, ?_, ?_, ⟨?_, ?_, ?_, ?_, ?_⟩, ?_, ?_⟩
  · rw [popSample, if_neg (show getCount s ≠ 0 from hc)]
    rfl
  · rw [entries, entries, h16, h18, hdec, hnext]
    obtain ⟨n, hn⟩ : ∃ n, (s.mem 16).toNat = n + 1 := ⟨(s.mem 16).toNat - 1, by omega⟩
    rw [hn, Nat.add_sub_cancel, contents_cons s.mem hle hlt (by omega)]
    congr 1
    refine contents_congr (le_next hle) (next_lt (by omega)) (by omega) fun i hlo hhi => ?_
    have hne := r.ne_control (i := i) ⟨by simp only [Piece.lo] at hlo; omega, hhi⟩
    rw [hmem, if_neg (by omega), if_neg (by omega), if_neg (by omega)]
  · rw [Located, hmem]
    exact hloc
  · rw [h18, hnext]
    exact le_next hle
  · rw [h18, hnext]
    exact next_lt (by simp only [Piece.lo]; omega)
  · rw [h16, hdec]
    omega
  · rw [hmem 17, h18, h16, hnext, hdec, slot_next hle hlt (by omega)]
    simp only [Nat.reduceEqDiff, if_false]
    rw [htail]
    congr 1
    omega
  · rw [hmem]
    rfl
  · intro i hi16 hi18 hi20
    rw [hmem, if_neg hi16, if_neg hi20, if_neg hi18]

/-! ## Loops over entries -/

/-- So many pops. -/
def pops : Nat → RtcMem → RtcMem
  | 0, s => s
  | n + 1, s => pops n (popSample s).2

theorem popSample_empty {s : RtcMem} (hc : s.mem 16 = 0) : popSample s = (none, s) :=
  if_pos hc

theorem pops_mem (n : Nat) (s : RtcMem) {i : Nat} (h16 : i ≠ 16) (h18 : i ≠ 18) (h20 : i ≠ 20) :
    (pops n s).mem i = s.mem i := by
  induction n generalizing s with
  | zero => rfl
  | succ n ih =>
    rw [pops, ih]
    by_cases hc : s.mem 16 = 0
    · rw [popSample_empty hc]
    · rw [popSample_mem s hc, if_neg h16, if_neg h20, if_neg h18]

theorem pops_count (n : Nat) (s : RtcMem) :
    ((pops n s).mem 16).toNat = (s.mem 16).toNat - n := by
  induction n generalizing s with
  | zero => rfl
  | succ n ih =>
    rw [pops, ih]
    by_cases hc : s.mem 16 = 0
    · rw [popSample_empty hc, hc]
      change 0 - n = 0 - (n + 1)
      omega
    · have hpos : (s.mem 16).toNat ≠ 0 := fun h0 => hc (UInt32.toNat_inj.mp h0)
      have hdec : (s.mem 16 - 1).toNat = (s.mem 16).toNat - 1 :=
        UInt32.toNat_sub_of_le _ _ (UInt32.le_iff_toNat_le.mpr (by change 1 ≤ _; omega))
      rw [popSample_mem s hc, if_pos rfl, hdec]
      omega

/-- There is an entry to pop. -/
structure Ready (r : Piece) (s : RtcMem) : Prop where
  count : s.mem 16 ≠ 0
  head : r.Inside (s.mem 18).toNat

/-- A state with another head than the one in memory. -/
theorem normaliseIndex_congr {s u : RtcMem} (h : u.mem 15 = s.mem 15) (i : UInt32) :
    normaliseIndex u i = normaliseIndex s i := by
  have hpos : fifoLocPos.toNat = 15 := rfl
  simp only [normaliseIndex, getLast, getFirst, getTagpos, getTagcount, rtcMemRead, hpos, h]

/-- The loop of a drop does what as many pops do, and touches the same entries. -/
theorem dropLoop_pops {r : Piece} (n : Nat) (head headT : UInt32) (s u : RtcMem)
    (hu : u.mem = (putHeadT headT (putHead head s)).mem)
    (hready : ∀ i, i < n → Ready r (pops i u)) :
    let l := dropLoop n head headT s
    (putHeadT l.2.1 (putHead l.1 l.2.2)).mem = (pops n u).mem ∧
      ∀ a ∈ l.2.2.touched, a ∈ s.touched ∨ r.Inside a := by
  induction n generalizing head headT s u with
  | zero => exact ⟨hu.symm, fun a ha => .inl ha⟩
  | succ n ih =>
    have hmem : ∀ i, u.mem i = if i = 20 then headT else if i = 18 then head else s.mem i := by
      intro i
      rw [hu, mem_putHeadT, mem_putHead, Function.update_apply, Function.update_apply]
    have h16 : u.mem 16 = s.mem 16 := hmem 16
    have h18 : u.mem 18 = head := hmem 18
    obtain ⟨hc, hslot⟩ := hready 0 (Nat.succ_pos n)
    rw [pops, h18] at hslot
    have hctrl := r.ne_control hslot
    have hentry : u.mem head.toNat = s.mem head.toNat := by
      rw [hmem, if_neg (by omega), if_neg (by omega)]
    have h15 : u.mem 15 = s.mem 15 := by rw [hmem, if_neg (by decide), if_neg (by decide)]
    have hnext : (popSample u).2.mem =
        (putHeadT (headT + getDeltat (rtcMemRead s head)) (putHead (normaliseIndex s (head + 1))
          (decrementCount (s.touch head)))).mem := by
      funext i
      rw [popSample_mem u hc, h18, hentry, normaliseIndex_congr h15, h16,
        show u.mem 20 = headT from hmem 20, hmem i]
      simp only [mem_putHeadT, mem_putHead, decrementCount, getCount_eq, mem_putCount, mem_touch,
        Function.update_apply, rtcMemRead]
      split_ifs <;> first | rfl | omega
    obtain ⟨hd, ht⟩ := ih (normaliseIndex s (head + 1)) (headT + getDeltat (rtcMemRead s head))
      (decrementCount (s.touch head)) (popSample u).2 hnext
      (fun i hi => hready (i + 1) (by omega))
    refine ⟨hd, fun a ha => (ht a ha).elim (fun ha => ?_) .inr⟩
    obtain ha | ha := List.mem_append.mp ha
    · exact .inl ha
    · rw [List.mem_singleton.mp ha]
      exact .inr hslot

/-- The loop of a peek reads the entry that is left after as many pops, and counts its time. -/
theorem peekLoop_pops {r : Piece} (n : Nat) (head timestamp : UInt32) (s u : RtcMem)
    (hu : ∀ i, i ≠ 16 → i ≠ 18 → i ≠ 20 → u.mem i = s.mem i) (hhead : u.mem 18 = head)
    (htime : timestamp = u.mem 20 + getDeltat (s.mem head.toNat))
    (hready : ∀ i, i ≤ n → Ready r (pops i u)) :
    let l := peekLoop n head (s.mem head.toNat) timestamp s
    l.1 = (pops n u).mem ((pops n u).mem 18).toNat ∧
      l.2.1 = (pops n u).mem 20 + getDeltat l.1 ∧ l.2.2.mem = s.mem ∧
      ∀ a ∈ l.2.2.touched, a ∈ s.touched ∨ r.Inside a := by
  have hctrl := r.ne_control (hready 0 (Nat.zero_le n)).head
  rw [pops, hhead] at hctrl
  have hentry : u.mem head.toNat = s.mem head.toNat := hu _ (by omega) (by omega) (by omega)
  induction n generalizing head timestamp s u with
  | zero =>
    refine ⟨?_, htime, rfl, fun a ha => .inl ha⟩
    rw [pops, hhead, hentry]
    rfl
  | succ n ih =>
    obtain ⟨hc, -⟩ := hready 0 (Nat.zero_le _)
    have h15 : u.mem 15 = s.mem 15 := hu 15 (by decide) (by decide) (by decide)
    have h18 : (popSample u).2.mem 18 = normaliseIndex s (head + 1) := by
      rw [popSample_mem u hc, hhead, normaliseIndex_congr h15]
      rfl
    have h20 : (popSample u).2.mem 20 = timestamp := by
      rw [popSample_mem u hc, hhead, hentry, htime]
      rfl
    have hslot := (hready 1 (by omega)).head
    rw [pops, pops, h18] at hslot
    have hctrl' := r.ne_control hslot
    have hsame : ∀ i, i ≠ 16 → i ≠ 18 → i ≠ 20 → (popSample u).2.mem i = s.mem i := by
      intro i h16 h18 h20
      rw [popSample_mem u hc, if_neg h16, if_neg h20, if_neg h18]
      exact hu i h16 h18 h20
    obtain ⟨h1, h2, h3, h4⟩ := ih (normaliseIndex s (head + 1))
      (timestamp + getDeltat (s.mem (normaliseIndex s (head + 1)).toNat))
      (s.touch (normaliseIndex s (head + 1))) (popSample u).2 hsame h18 (by rw [h20]; rfl)
      (fun i hi => hready (i + 1) (by omega)) hctrl'
      (hsame _ (by omega) (by omega) (by omega))
    refine ⟨h1, h2, h3, fun a ha => (h4 a ha).elim (fun ha => ?_) .inr⟩
    obtain ha | ha := List.mem_append.mp ha
    · exact .inl ha
    · rw [List.mem_singleton.mp ha]
      exact .inr hslot

/-! ## Writing -/

/-- An entry is written at the tail. -/
structure Pushed (r : Piece) (s t : RtcMem) (e time : UInt32) : Prop where
  entries : entries r t = entries r s ++ [e]
  placed : Placed r t
  tailT : t.mem 19 = time
  headT : t.mem 20 = s.mem 20
  tags : ∀ i, r.first ≤ i → i < r.lo → t.mem i = s.mem i

theorem entries_length (r : Piece) (s : RtcMem) : (entries r s).length = (s.mem 16).toNat :=
  contents_length s.mem _ _

/-- The memory after an entry at the tail. -/
theorem write_mem (s : RtcMem) (h16 : (s.mem 17).toNat ≠ 16) (e time : UInt32) (i : Nat) :
    let u := rtcMemWrite (s.touch (s.mem 17)) (s.mem 17) e
    (incrementCount (putTailT time (putTail (normaliseIndex u (s.mem 17 + 1)) u))).mem i =
      if i = 16 then s.mem 16 + 1 else if i = 19 then time
      else if i = 17 then normaliseIndex u (s.mem 17 + 1)
      else if i = (s.mem 17).toNat then e else s.mem i := by
  intro u
  have h16 : u.mem 16 = s.mem 16 := Function.update_of_ne (by omega) _ _
  simp only [incrementCount, getCount_eq, mem_putCount, mem_putTailT, mem_putTail,
    Function.update_apply, Nat.reduceEqDiff, if_false, h16]
  simp only [u, mem_write, mem_touch, Function.update_apply]

theorem write_pushed {r : Piece} {s : RtcMem} (h : Placed r s)
    (hc : (s.mem 16).toNat < r.last - r.lo) (e time : UInt32) :
    let u := rtcMemWrite (s.touch (s.mem 17)) (s.mem 17) e
    Pushed r s (incrementCount (putTailT time (putTail (normaliseIndex u (s.mem 17 + 1)) u))) e
      time := by
  obtain ⟨hloc, hle, hlt, hcount, htail⟩ := h
  intro u
  have hinside := r.inside_slot hle hlt hcount
  rw [← htail] at hinside
  have hne := r.ne_control hinside
  have hulo : Located r u := by
    simp only [u, Located, mem_write, mem_touch]
    rw [Function.update_of_ne (by omega)]
    exact hloc
  have hnext := normalise_next hulo (s.mem 17) hinside.2
  have hfits := r.fits
  have hinc : (s.mem 16 + 1).toNat = (s.mem 16).toNat + 1 := by
    rw [UInt32.toNat_add]
    change ((s.mem 16).toNat + 1) % 2 ^ 32 = _
    omega
  let t := incrementCount (putTailT time (putTail (normaliseIndex u (s.mem 17 + 1)) u))
  have hmem : ∀ i, t.mem i = if i = 16 then s.mem 16 + 1 else if i = 19 then time
      else if i = 17 then normaliseIndex u (s.mem 17 + 1)
      else if i = (s.mem 17).toNat then e else s.mem i := write_mem s (by omega) e time
  have h15 : t.mem 15 = s.mem 15 := by
    rw [hmem, if_neg (by decide), if_neg (by decide), if_neg (by decide), if_neg (by omega)]
  have h18 : t.mem 18 = s.mem 18 := by
    rw [hmem, if_neg (by decide), if_neg (by decide), if_neg (by decide), if_neg (by omega)]
  have h16 : t.mem 16 = s.mem 16 + 1 := hmem 16
  refine ⟨?_, ⟨h15.trans hloc, by rwa [h18], by rwa [h18], ?_, ?_⟩, hmem 19, ?_, ?_⟩
  · change entries r t = _
    rw [entries, entries, h18, h16, hinc, ← contents_update s.mem e hc, ← htail]
    refine contents_congr hle hlt (by omega) fun i hlo hhi => ?_
    have hi := r.ne_control (i := i) ⟨by simp only [Piece.lo] at hlo; omega, hhi⟩
    rw [hmem, if_neg (by omega), if_neg (by omega), if_neg (by omega), Function.update_apply]
  · rw [h16, hinc]
    omega
  · rw [h18, h16, hinc, ← next_slot hle hlt hc, ← htail, ← hnext, hmem 17]
    rfl
  · change t.mem 20 = _
    rw [hmem, if_neg (by decide), if_neg (by decide), if_neg (by decide), if_neg (by omega)]
  · intro i hfirst hlo
    have hlo' := le_slot (n := (s.mem 16).toNat) hle hlt
    have hi := r.ne_control (i := i) ⟨hfirst, by omega⟩
    change t.mem i = _
    rw [hmem, if_neg (by omega), if_neg (by omega), if_neg (by omega), if_neg (by omega)]

/-- Where the ring is full the oldest entry gives way to the new one. -/
theorem writeEntry_pushed {r : Piece} {s : RtcMem} (h : Placed r s) (x : Sample)
    (tagindex : Nat) (deltat : Int) :
    ∃ u, (if (entries r s).length = r.last - r.lo then ∃ e, Popped r s u e else u = s) ∧
      Pushed r u (writeEntry x tagindex deltat (getHead s) (getTail s) (getCount s) s)
        (constructEntry x.value (UInt32.ofNat tagindex) x.decimals (UInt32.ofInt deltat))
        x.timestamp := by
  have hroom := r.room
  have hcap : 0 < r.last - r.lo := by
    rw [Piece.lo]
    omega
  have hfull : (getHead s = getTail s ∧ 0 < getCount s) ↔
      (entries r s).length = r.last - r.lo := by
    have hstart := slot_eq_start h.le_head h.head_lt h.count
    rw [entries_length, getHead_eq, getTail_eq, getCount_eq, ← UInt32.toNat_inj, h.tail,
      UInt32.lt_iff_toNat_lt, eq_comm, hstart]
    change _ ∧ 0 < (s.mem 16).toNat ↔ _
    omega
  by_cases hc : (entries r s).length = r.last - r.lo
  · have h16 : s.mem 16 ≠ 0 := by
      intro h0
      rw [entries_length, h0] at hc
      exact absurd hc (by change 0 ≠ _; omega)
    obtain ⟨e, -, hp⟩ := popSample_popped h h16
    refine ⟨(popSample s).2, by rw [if_pos hc]; exact ⟨e, hp⟩, ?_⟩
    have hlen : ((popSample s).2.mem 16).toNat < r.last - r.lo := by
      rw [← entries_length r, ← hc, hp.entries]
      exact Nat.lt_succ_self _
    have hw := write_pushed hp.placed hlen (constructEntry x.value (UInt32.ofNat tagindex)
      x.decimals (UInt32.ofInt deltat)) x.timestamp
    rw [hp.same 17 (by decide) (by decide) (by decide)] at hw
    rw [writeEntry, if_pos (hfull.mpr hc)]
    exact hw
  · have hlen : (s.mem 16).toNat < r.last - r.lo := by
      rw [entries_length] at hc
      have := h.count
      omega
    refine ⟨s, by rw [if_neg hc], ?_⟩
    rw [writeEntry, if_neg fun hf => hc (hfull.mp hf)]
    exact write_pushed h hlen _ x.timestamp

end NodeMcu.Rtc.Slots
